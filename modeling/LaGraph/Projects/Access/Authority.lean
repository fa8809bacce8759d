import LaGraph.Projects.Access.Owners

open foundation foundation.Tx

namespace lagraph.registry

variable {db db' : Database} {deployment : Deployment} {project_id membership_id tenant_id : String}
  {principal : AuthPrincipal} {role : ProjectRole} {now : Moment}

theorem role_keeps_key (role : ProjectRole) (now : Moment) (row : ProjectMembershipRow) :
    Keyed.key ({ row with role, updated_at := now } : ProjectMembershipRow) = Keyed.key row :=
  rfl

/-- The memberships with one row given another role. -/
def with_role (db : Database) (id : String) (role : ProjectRole) (now : Moment) : Database :=
  { db with
    memberships := db.memberships.update (·.id = id)
      (fun row => { row with role, updated_at := now }) (role_keeps_key role now) }

def without_membership (db : Database) (id : String) : Database :=
  { db with memberships := db.memberships.delete (·.id = id) }

theorem mem_with_role {id : String} {row : ProjectMembershipRow} :
    row ∈ (with_role db id role now).memberships ↔
      ∃ before ∈ db.memberships,
        (if before.id = id then { before with role, updated_at := now } else before) = row := by
  simp [with_role, Table.mem_update]

theorem find_membership_some {row : ProjectMembershipRow}
    (h : find_membership db project_id membership_id tenant_id = some row) :
    row ∈ db.memberships ∧ row.id = membership_id ∧ row.project_id = project_id ∧
      row.tenant_id = tenant_id := by
  obtain ⟨hget, hscope⟩ := Option.filter_eq_some_iff.mp h
  obtain ⟨hrow, hid⟩ := Table.get_eq_some.mp hget
  have hboth : row.project_id = project_id ∧ row.tenant_id = tenant_id := by simpa using hscope
  exact ⟨hrow, hid, hboth⟩

/-- `update_membership` counts the owners when the row is an owner's, and nothing
else. -/
theorem update_membership_ok :
    (update_membership project_id membership_id tenant_id role now).run db = .ok ((), db') ↔
      ∃ row, find_membership db project_id membership_id tenant_id = some row ∧
        ¬ (role = .owner ∧ row.principal_type ≠ .user) ∧
        ¬ (row.role = .owner ∧ role ≠ .owner ∧ owner_count db project_id = 1) ∧
        db' = with_role db row.id role now := by
  unfold update_membership
  rw [run_acquire_bind, run_select_bind, run_orRaise_ok]
  refine exists_congr fun row => and_congr_right fun _ => ?_
  rw [run_raiseIf_ok]
  refine and_congr_right fun _ => ?_
  rw [run_whenever_bind]
  by_cases hdemotes : row.role = .owner ∧ role ≠ .owner
  · rw [if_pos hdemotes, bind_bind, run_select_bind, run_raiseIf_ok, run_execute,
      Except.ok.injEq, Prod.mk.injEq]
    simp [hdemotes, with_role, @eq_comm _ db']
  · rw [if_neg hdemotes, run_execute, Except.ok.injEq, Prod.mk.injEq]
    have hnot : ¬ (row.role = .owner ∧ role ≠ .owner ∧ owner_count db project_id = 1) :=
      fun h => hdemotes ⟨h.1, h.2.1⟩
    simp [hnot, with_role, @eq_comm _ db']

theorem remove_membership_ok :
    (remove_membership project_id membership_id tenant_id).run db = .ok ((), db') ↔
      ∃ row, find_membership db project_id membership_id tenant_id = some row ∧
        ¬ (row.role = .owner ∧ owner_count db project_id = 1) ∧
        db' = without_membership db row.id := by
  unfold remove_membership
  rw [run_acquire_bind, run_select_bind, run_orRaise_ok]
  refine exists_congr fun row => and_congr_right fun _ => ?_
  rw [run_whenever_bind]
  by_cases howner : row.role = .owner
  · rw [if_pos howner, bind_bind, run_select_bind, run_raiseIf_ok, run_execute,
      Except.ok.injEq, Prod.mk.injEq]
    simp [howner, without_membership, @eq_comm _ db']
  · rw [if_neg howner, run_execute, Except.ok.injEq, Prod.mk.injEq]
    simp [howner, without_membership, @eq_comm _ db']

/-- A caller below owner who is no administrator passes the check of the route as a
manager, and as nothing else. -/
theorem govern_access_bind_ok {α : Type} {k : AccessDecision → Transaction α}
    {result : α × Database} (hadmin : .admin ∉ principal.roles)
    (hbelow : effective_role db project_id principal.tenant_id principal.subject
      principal.group_ids ≠ some .owner) :
    (govern_access project_id principal false >>= k).run db = .ok result ↔
      effective_role db project_id principal.tenant_id principal.subject
          principal.group_ids = some .manager ∧
        (k ⟨.manager, access_origins db project_id principal.tenant_id principal.subject
          principal.group_ids⟩).run db = .ok result := by
  rw [govern_access, if_neg hadmin, run_bind, authorize, access_decision, run_select_bind]
  dsimp only [id_eq]
  cases heffective : effective_role db project_id principal.tenant_id principal.subject
      principal.group_ids with
  | none => simp [Except.bind]
  | some effective =>
    cases effective with
    | viewer => simp [run_raiseIf_bind, ProjectRole.rank, Except.bind]
    | contributor => simp [run_raiseIf_bind, ProjectRole.rank, Except.bind]
    | manager => simp [run_raiseIf_bind, ProjectRole.rank, Except.bind]
    | owner => exact absurd heffective hbelow

/-- The row that `remove_member` finds in the listing is the row it would remove. -/
theorem listed_owner_iff {collation : String → String → Bool} :
    ((listed_memberships collation db project_id tenant_id).find? (·.id = membership_id)).any
        (·.role = .owner) = true ↔
      ∃ row, find_membership db project_id membership_id tenant_id = some row ∧
        row ∈ listed_memberships collation db project_id tenant_id ∧ row.role = .owner := by
  rw [Option.any_eq_true]
  constructor
  · intro h
    obtain ⟨row, hfind, howner⟩ := h
    have hid : row.id = membership_id := by simpa using List.find?_some hfind
    have hlisted := List.mem_of_find?_eq_some hfind
    have hscope := List.mem_filter.mp (List.mem_mergeSort.mp (List.mem_of_mem_take hlisted))
    refine ⟨row, ?_, hlisted, by simpa using howner⟩
    exact Option.filter_eq_some_iff.mpr ⟨Table.get_eq_some.mpr ⟨hscope.1, hid⟩, hscope.2⟩
  · intro h
    obtain ⟨row, hfind, hlisted, howner⟩ := h
    obtain ⟨hrow, hid, -, -⟩ := find_membership_some hfind
    cases hother : (listed_memberships collation db project_id tenant_id).find?
        (·.id = membership_id) with
    | none => simpa [hid] using List.find?_eq_none.mp hother row hlisted
    | some other =>
      have hid' : other.id = membership_id := by simpa using List.find?_some hother
      have hmem := List.mem_mergeSort.mp (List.mem_of_mem_take (List.mem_of_find?_eq_some hother))
      have hsame := Table.eq_of_key (List.mem_filter.mp hmem).1 hrow (hid'.trans hid.symm)
      exact ⟨other, rfl, by simpa [hsame] using howner⟩

section Below

variable (hadmin : .admin ∉ principal.roles)
  (hbelow : effective_role db project_id principal.tenant_id principal.subject
    principal.group_ids ≠ some .owner)

include hadmin hbelow

theorem change_member_role_ok :
    (change_member_role project_id principal membership_id role now).run db = .ok ((), db') ↔
      effective_role db project_id principal.tenant_id principal.subject
          principal.group_ids = some .manager ∧ role ≠ .owner ∧
        (update_membership project_id membership_id principal.tenant_id role now).run db =
          .ok ((), db') := by
  rw [change_member_role, govern_access_bind_ok hadmin hbelow, run_raiseIf_ok]
  simp

theorem remove_member_ok :
    (remove_member deployment project_id principal membership_id).run db = .ok ((), db') ↔
      effective_role db project_id principal.tenant_id principal.subject
          principal.group_ids = some .manager ∧
        (∀ row, find_membership db project_id membership_id principal.tenant_id = some row →
          row ∈ listed_memberships deployment.collation db project_id principal.tenant_id →
          row.role ≠ .owner) ∧
        (remove_membership project_id membership_id principal.tenant_id).run db =
          .ok ((), db') := by
  rw [remove_member, govern_access_bind_ok hadmin hbelow, list_memberships, run_select_bind,
    run_raiseIf_ok]
  refine and_congr_right fun _ => and_congr_left fun _ => ?_
  rw [listed_owner_iff]
  simp

/-- A manager may give an owner another role, unless it is the only one. -/
theorem change_member_role_kept_iff :
    OwnersKept project_id db
        ((change_member_role project_id principal membership_id role now).transact db).2 ↔
      ¬ (effective_role db project_id principal.tenant_id principal.subject
          principal.group_ids = some .manager ∧ owner_count db project_id ≠ 1 ∧ role ≠ .owner ∧
        ∃ row, row.role = .owner ∧
          find_membership db project_id membership_id principal.tenant_id = some row) := by
  constructor
  · intro hkept h
    obtain ⟨hmanager, hmany, hrole, row, howner, hfind⟩ := h
    obtain ⟨hrow, hid, hproject, htenant⟩ := find_membership_some hfind
    have hrun : (change_member_role project_id principal membership_id role now).run db =
        .ok ((), with_role db row.id role now) := by
      rw [change_member_role_ok hadmin hbelow, update_membership_ok]
      exact ⟨hmanager, hrole, row, hfind, fun h => hrole h.1, fun h => hmany h.2.2, rfl⟩
    rw [transact_ok hrun] at hkept
    obtain ⟨row', hrow', hid', -, -, -, -, howner'⟩ := hkept row hrow hproject howner
    obtain ⟨other, hother, rfl⟩ := mem_with_role.mp hrow'
    by_cases hsame : other.id = row.id
    · rw [if_pos hsame] at howner'
      exact hrole howner'
    · simp [hsame] at hid'
  · intro h
    cases hrun : (change_member_role project_id principal membership_id role now).run db with
    | error e =>
      rw [transact_error hrun]
      exact .refl db
    | ok result =>
      obtain ⟨hmanager, hrole, hupdate⟩ := (change_member_role_ok hadmin hbelow).mp hrun
      obtain ⟨row, hfind, -, hguard, hafter⟩ := update_membership_ok.mp hupdate
      rw [transact_ok hrun, hafter]
      have hnot : row.role ≠ .owner := by
        intro howner
        exact h ⟨hmanager, fun hone => hguard ⟨howner, hrole, hone⟩, hrole, row, howner, hfind⟩
      refine .update (by intro; rfl) rfl fun other hother _ howner hid => ?_
      have hkey : other.id = row.id := by simpa using hid
      have hsame := Table.eq_of_key hother (find_membership_some hfind).1 hkey
      exact absurd (hsame ▸ howner) hnot

/-- A manager may remove an owner that the listing does not reach, unless it is the
only one. -/
theorem remove_member_kept_iff :
    OwnersKept project_id db
        ((remove_member deployment project_id principal membership_id).transact db).2 ↔
      ¬ (effective_role db project_id principal.tenant_id principal.subject
          principal.group_ids = some .manager ∧ owner_count db project_id ≠ 1 ∧
        ∃ row, row.role = .owner ∧
          find_membership db project_id membership_id principal.tenant_id = some row ∧
          row ∉ listed_memberships deployment.collation db project_id principal.tenant_id) := by
  constructor
  · intro hkept h
    obtain ⟨hmanager, hmany, row, howner, hfind, hunlisted⟩ := h
    obtain ⟨hrow, hid, hproject, htenant⟩ := find_membership_some hfind
    have hrun : (remove_member deployment project_id principal membership_id).run db =
        .ok ((), without_membership db row.id) := by
      rw [remove_member_ok hadmin hbelow, remove_membership_ok]
      refine ⟨hmanager, fun other hother hlisted => ?_, row, hfind, fun h => hmany h.2, rfl⟩
      cases hfind.symm.trans hother
      exact absurd hlisted hunlisted
    rw [transact_ok hrun] at hkept
    obtain ⟨row', hrow', hid', -⟩ := hkept row hrow hproject howner
    have hleft := (Table.mem_delete.mp hrow').2
    simp [hid'] at hleft
  · intro h
    cases hrun : (remove_member deployment project_id principal membership_id).run db with
    | error e =>
      rw [transact_error hrun]
      exact .refl db
    | ok result =>
      obtain ⟨hmanager, hlisted, hremove⟩ := (remove_member_ok hadmin hbelow).mp hrun
      obtain ⟨row, hfind, hguard, hafter⟩ := remove_membership_ok.mp hremove
      rw [transact_ok hrun, hafter]
      have hnot : row.role ≠ .owner := by
        intro howner
        exact h ⟨hmanager, fun hone => hguard ⟨howner, hone⟩, row, howner, hfind,
          fun hmem => hlisted row hfind hmem howner⟩
      intro other hother _ howner
      refine ⟨other, ?_, rfl, rfl, rfl, rfl, rfl, howner⟩
      refine Table.mem_delete.mpr ⟨hother, ?_⟩
      rw [decide_eq_false_iff_not]
      intro hkey
      have hsame := Table.eq_of_key hother (find_membership_some hfind).1 hkey
      exact hnot (hsame ▸ howner)

end Below

end lagraph.registry
