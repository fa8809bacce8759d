import LaGraph.Projects.Access.Authority

open foundation foundation.Tx

namespace lagraph.registry

/-- The approval of a request as it stands in the table of requests. -/
def record_approval (db : Database) (row : AccessRequestRow) (granted : GrantableRole)
    (actor : String) (now : Moment) : Database :=
  { db with
    access_requests := db.access_requests.update (·.id = row.id)
      (fun row => { row with
        status := .approved, reviewed_by := some actor, decided_role := some granted.val,
        decided_at := some now }) (fun _ => rfl) }

/-- The membership that an approval gives, written over a direct one that is no owner's. -/
def approve_member (db : Database) (project_id : String) (new : ProjectMembershipRow) : Database :=
  match membership_of db project_id .user new.principal_id with
  | none => { db with memberships := db.memberships.insert new }
  | some existing =>
    if existing.role = .owner then db else with_role db existing.id new.role new.updated_at

/-- What the requester is owed: a direct membership with at least the approved role and at
least the role before, an owner of the project, and no change by a second decision. -/
structure Honoured (granted : GrantableRole) (project_id requester_id request_id : String)
    (db db' : Database) : Prop where
  direct : ∃ row', membership_of db' project_id .user requester_id = some row' ∧
    granted.val.rank ≤ row'.role.rank ∧
    ∀ row, membership_of db project_id .user requester_id = some row →
      row.role.rank ≤ row'.role.rank
  owner : 0 < owner_count db project_id → 0 < owner_count db' project_id
  settled : ∀ (id project_id tenant_id : String) (decision : Decision)
    (role : Option GrantableRole) (actor : String) (now : Moment),
    ((decide_access_request id project_id request_id tenant_id decision role actor now).transact
      db').2.memberships = db'.memberships

variable {db db' : Database} {id project_id request_id tenant_id requester_id actor : String}
  {granted : GrantableRole} {now : Moment} {row : AccessRequestRow}
  {existing new : ProjectMembershipRow}

theorem membership_of_insert (hfresh : db.memberships.get new.id = none)
    (hnone : membership_of db project_id .user requester_id = none)
    (hproject : new.project_id = project_id) (htype : new.principal_type = .user)
    (hprincipal : new.principal_id = requester_id) :
    membership_of { db with memberships := db.memberships.insert new } project_id .user
      requester_id = some new := by
  rw [membership_of] at hnone ⊢
  rw [Table.insert_of_fresh (Table.get_eq_none.mp hfresh), List.find?_append, hnone]
  simp [hproject, htype, hprincipal]

theorem membership_of_with_role {membership_id : String} {role : ProjectRole} :
    membership_of (with_role db membership_id role now) project_id .user requester_id =
      (membership_of db project_id .user requester_id).map fun row =>
        if row.id = membership_id then { row with role, updated_at := now } else row := by
  rw [membership_of, membership_of, with_role, Table.update, List.find?_map]
  congr 1
  · funext row
    by_cases hrow : row.id = membership_id
    · simp [hrow]
    · simp [hrow]
  · congr 1
    funext row
    by_cases hrow : row.id = membership_id
    · simp [hrow]
    · simp [hrow]

/-- A request that is decided is not decided again. -/
theorem decide_decided {role : Option GrantableRole} {decision : Decision}
    (h : ∀ row, db.access_requests.get request_id = some row → row.status ≠ .pending) :
    ((decide_access_request id project_id request_id tenant_id decision role actor now).transact
      db).2 = db := by
  cases hrow : find_access_request db project_id request_id tenant_id with
  | none =>
    refine congrArg Prod.snd (transact_error (e := .ProjectNotFound request_id) ?_)
    rw [decide_access_request, run_acquire_bind, run_select_bind, hrow]
    rfl
  | some row =>
    have hdecided := h row (Option.mem_filter_iff.mp hrow).1
    have hrun : (decide_access_request id project_id request_id tenant_id decision role actor
        now).run db = .ok ((), db) ∨ ∃ error, (decide_access_request id project_id request_id
        tenant_id decision role actor now).run db = .error error := by
      rw [decide_access_request, run_acquire_bind, run_select_bind, hrow]
      simp only [orRaise, if_pos hdecided, run_ret_bind]
      generalize (if decision = .approved then role.map (·.val) else none) = decided_role
      rw [raiseIf]
      split
      · exact Or.inr ⟨_, rfl⟩
      · exact Or.inl rfl
    rcases hrun with hrun | ⟨error, hrun⟩
    · rw [transact_ok hrun]
    · rw [transact_error hrun]

/-- An approval makes a new member, or writes the role of one that is no owner. -/
theorem approve_run (hrow : find_access_request db project_id request_id tenant_id = some row)
    (hpending : row.status = .pending) (hfresh : db.memberships.get id = none) :
    (decide_access_request id project_id request_id tenant_id .approved (some granted) actor
        now).run db =
      .ok ((), approve_member (record_approval db row granted actor now) project_id
        ⟨id, tenant_id, project_id, .user, row.requester_id, row.requester_name, granted.val, now⟩) := by
  rw [decide_access_request, run_acquire_bind, run_select_bind, hrow]
  simp only [orRaise, run_ret_bind, hpending, ne_eq, not_true_eq_false, if_false, if_true,
    Option.map_some, run_execute_bind, run_select_bind]
  simp only [membership_of, approve_member, record_approval]
  cases db.memberships.rows.find? fun other => other.project_id = project_id &&
      other.principal_type = .user && other.principal_id = row.requester_id with
  | none =>
    simp only [add_membership, add_row, run_acquire_bind, run_select_bind, run_raiseIf_bind]
    rw [show Keyed.key (_ : ProjectMembershipRow) = id from rfl, hfresh]
    rfl
  | some existing =>
    by_cases howner : existing.role = .owner
    · simp [whenever, howner]
      rfl
    · simp [whenever, howner]
      rfl

theorem approved_membership (hfresh : db.memberships.get new.id = none)
    (htype : new.principal_type = .user) (hproject : new.project_id = project_id) :
    membership_of (approve_member db project_id new) project_id .user new.principal_id =
      match membership_of db project_id .user new.principal_id with
      | none => some new
      | some existing =>
        if existing.role = .owner then some existing
        else some { existing with role := new.role, updated_at := new.updated_at } := by
  rw [approve_member]
  cases hexisting : membership_of db project_id .user new.principal_id with
  | none => exact membership_of_insert hfresh hexisting hproject htype rfl
  | some existing =>
    by_cases howner : existing.role = .owner
    · simp [howner, hexisting]
    · simp [howner, membership_of_with_role, hexisting]

theorem approve_member_requests :
    (approve_member db project_id new).access_requests = db.access_requests := by
  rw [approve_member]
  cases membership_of db project_id .user new.principal_id with
  | none => rfl
  | some existing =>
    by_cases howner : existing.role = .owner
    · simp [howner]
    · simp [howner, with_role]

theorem record_approval_decided (hrow : find_access_request db project_id request_id tenant_id = some row) :
    ∀ decided, (record_approval db row granted actor now).access_requests.get request_id =
      some decided → decided.status ≠ .pending := by
  intro decided hdecided
  have hget := (Option.mem_filter_iff.mp hrow).1
  have hid : row.id = request_id := (Table.get_eq_some.mp hget).2
  rw [record_approval, Table.get_update, hget] at hdecided
  simp [hid] at hdecided
  rw [← hdecided]
  exact fun h => by cases h

theorem owner_count_of_kept (h : OwnersKept project_id db db')
    (howner : 0 < owner_count db project_id) : 0 < owner_count db' project_id := by
  rw [owner_count, Table.count_pos] at howner ⊢
  obtain ⟨owner, hmem, howns⟩ := howner
  rw [Bool.and_eq_true, decide_eq_true_eq, decide_eq_true_eq] at howns
  obtain ⟨owner', hmem', _, _, hproject, _, _, hrole⟩ := h owner hmem howns.1 howns.2
  exact ⟨owner', hmem', by simp [hproject, howns.1, hrole]⟩

/-- The direct membership keeps its rank exactly when the role written over it is no lower. -/
theorem approved_rank_iff (hfresh : db.memberships.get new.id = none)
    (htype : new.principal_type = .user) (hproject : new.project_id = project_id) :
    (∃ row', membership_of (approve_member db project_id new) project_id .user new.principal_id =
        some row' ∧ new.role.rank ≤ row'.role.rank ∧
      ∀ row, membership_of db project_id .user new.principal_id = some row →
        row.role.rank ≤ row'.role.rank) ↔
    ∀ existing, membership_of db project_id .user new.principal_id = some existing →
      existing.role = .owner ∨ existing.role.rank ≤ new.role.rank := by
  rw [approved_membership hfresh htype hproject]
  cases membership_of db project_id .user new.principal_id with
  | none => simp
  | some existing =>
    by_cases howner : existing.role = .owner
    · have hhighest : new.role.rank ≤ ProjectRole.rank .owner := by
        cases new.role <;> decide
      simp [howner, hhighest]
    · simp [howner]

theorem Honoured.rank (hrow : find_access_request db project_id request_id tenant_id = some row)
    (hpending : row.status = .pending) (hfresh : db.memberships.get id = none)
    (hrun : (decide_access_request id project_id request_id tenant_id .approved (some granted)
      actor now).run db = .ok ((), db'))
    (h : Honoured granted project_id row.requester_id request_id db db') :
    ∀ existing, membership_of db project_id .user row.requester_id = some existing →
      existing.role = .owner ∨ existing.role.rank ≤ granted.val.rank := by
  rw [approve_run hrow hpending hfresh] at hrun
  cases hrun
  exact (@approved_rank_iff (record_approval db row granted actor now) project_id
    ⟨id, tenant_id, project_id, .user, row.requester_id, row.requester_name, granted.val, now⟩
    hfresh rfl rfl).mp h.direct

/-- An approval is honoured exactly when the requester has no direct membership, one of an
owner or one with no higher role. -/
theorem approval_honoured_iff
    (hrow : find_access_request db project_id request_id tenant_id = some row)
    (hpending : row.status = .pending) (hfresh : db.memberships.get id = none) :
    (∃ db', (decide_access_request id project_id request_id tenant_id .approved (some granted)
        actor now).run db = .ok ((), db') ∧
      Honoured granted project_id row.requester_id request_id db db') ↔
    ∀ existing, membership_of db project_id .user row.requester_id = some existing →
      existing.role = .owner ∨ existing.role.rank ≤ granted.val.rank := by
  constructor
  · rintro ⟨db', hrun, hhonoured⟩
    exact hhonoured.rank hrow hpending hfresh hrun
  · intro hranks
    have hrun := @approve_run db id project_id request_id tenant_id actor granted now row hrow
      hpending hfresh
    refine ⟨_, hrun, ?_, ?_, ?_⟩
    · exact (@approved_rank_iff (record_approval db row granted actor now) project_id
        ⟨id, tenant_id, project_id, .user, row.requester_id, row.requester_name, granted.val, now⟩
        hfresh rfl rfl).mpr hranks
    · exact owner_count_of_kept (decide_access_request_keeps db () _ hrun)
    · intro id' project_id' tenant_id' decision role actor' now'
      rw [decide_decided]
      rw [approve_member_requests]
      exact record_approval_decided hrow

/-- A project where a manager has a pending request. -/
def manager_asks : Database :=
  let setup : Transaction Unit := do
    let _ ← create_project ⟨"p", "owner", "draft"⟩ "lea" "Lea" "west" "k" 0
    add_memberships "p" "west" [⟨"m", .user, "max", "Max"⟩] ⟨.manager, manager_ne_owner⟩ 1
    let _ ← create_access_request "r" "p" "west" "max" "Max" none 2
    pure ()
  (setup.transact Database.empty).2

/-- The request of the manager, approved with the lowest role. -/
theorem approval_demotes :
    ¬ ∀ (db : Database) (id project_id request_id tenant_id actor : String)
      (granted : GrantableRole) (now : Moment) (row : AccessRequestRow),
      find_access_request db project_id request_id tenant_id = some row →
      row.status = .pending → db.memberships.get id = none →
      ∃ db', (decide_access_request id project_id request_id tenant_id .approved (some granted)
          actor now).run db = .ok ((), db') ∧
        Honoured granted project_id row.requester_id request_id db db' := by
  intro h
  have hasks : ∃ row ∈ find_access_request manager_asks "p" "r" "west",
      row.status = .pending ∧ row.requester_id = "max" := by decide +kernel
  obtain ⟨row, hrow, hpending, hrequester⟩ := hasks
  obtain ⟨db', hrun, hhonoured⟩ := h manager_asks "n" "p" "r" "west" "lea" ⟨.viewer, by decide⟩ 3
    row hrow hpending (by decide +kernel)
  have hmanager : ∃ existing ∈ membership_of manager_asks "p" .user "max",
      existing.role = .manager := by decide +kernel
  obtain ⟨existing, hexisting, hrole⟩ := hmanager
  have hranks := hhonoured.rank hrow hpending (by decide +kernel) hrun existing
    (by rw [hrequester]; exact hexisting)
  rw [hrole] at hranks
  exact absurd hranks (by decide)

/-- The same request, approved with the role of the manager. -/
theorem approval_honoured_manager :
    ∃ row db', find_access_request manager_asks "p" "r" "west" = some row ∧
      (decide_access_request "n" "p" "r" "west" .approved (some ⟨.manager, by decide⟩) "lea"
        3).run manager_asks = .ok ((), db') ∧
      Honoured ⟨.manager, by decide⟩ "p" row.requester_id "r" manager_asks db' := by
  have hasks : ∃ row ∈ find_access_request manager_asks "p" "r" "west",
      row.status = .pending ∧ ∀ existing ∈ membership_of manager_asks "p" .user row.requester_id,
        existing.role = .owner ∨ existing.role.rank ≤ ProjectRole.rank .manager := by
    decide +kernel
  obtain ⟨row, hrow, hpending, hranks⟩ := hasks
  have hfresh : manager_asks.memberships.get "n" = none := by decide +kernel
  obtain ⟨db', hrun, hhonoured⟩ :=
    (@approval_honoured_iff manager_asks "n" "p" "r" "west" "lea" ⟨.manager, by decide⟩ 3 row hrow
      hpending hfresh).mpr hranks
  exact ⟨row, db', hrow, hrun, hhonoured⟩

end lagraph.registry
