import LaGraph.Projects.Access.Routes

open foundation foundation.Tx

namespace lagraph.registry

variable {db db' : Database} {project_id : String}

/-- The same membership, still of an owner. -/
def RemainsOwner (row row' : ProjectMembershipRow) : Prop :=
  row'.id = row.id ∧ row'.tenant_id = row.tenant_id ∧ row'.project_id = row.project_id ∧
    row'.principal_type = row.principal_type ∧ row'.principal_id = row.principal_id ∧
    row'.role = .owner

instance (row row' : ProjectMembershipRow) : Decidable (RemainsOwner row row') :=
  inferInstanceAs (Decidable (_ ∧ _))

/-- Every owner membership of the project is there afterwards, with role owner. -/
def OwnersKept (project_id : String) (db db' : Database) : Prop :=
  ∀ row ∈ db.memberships, row.project_id = project_id → row.role = .owner →
    ∃ row' ∈ db'.memberships, RemainsOwner row row'

instance (project_id : String) (db db' : Database) : Decidable (OwnersKept project_id db db') :=
  inferInstanceAs (Decidable (∀ row ∈ db.memberships, _))

theorem OwnersKept.refl (db : Database) : OwnersKept project_id db db := by
  intro row hrow _ howner
  exact ⟨row, hrow, rfl, rfl, rfl, rfl, rfl, howner⟩

theorem OwnersKept.trans {a b c : Database} (h : OwnersKept project_id a b)
    (h' : OwnersKept project_id b c) : OwnersKept project_id a c := by
  intro row hrow hproject howner
  obtain ⟨middle, hmiddle, hid, htenant, hsame, htype, hprincipal, hrole⟩ :=
    h row hrow hproject howner
  obtain ⟨last, hlast, hid', htenant', hsame', htype', hprincipal', hrole'⟩ :=
    h' middle hmiddle (hsame.trans hproject) hrole
  exact ⟨last, hlast, hid'.trans hid, htenant'.trans htenant, hsame'.trans hsame,
    htype'.trans htype, hprincipal'.trans hprincipal, hrole'⟩

theorem OwnersKept.of_memberships (h : db'.memberships = db.memberships) :
    OwnersKept project_id db db' := by
  intro row hrow _ howner
  exact ⟨row, h ▸ hrow, rfl, rfl, rfl, rfl, rfl, howner⟩

/-- A new row is an owner that was not there before, or none. -/
theorem OwnersKept.insert {row : ProjectMembershipRow}
    (h : db'.memberships = db.memberships.insert row) : OwnersKept project_id db db' := by
  intro owner hrow _ howner
  refine ⟨owner, ?_, rfl, rfl, rfl, rfl, rfl, howner⟩
  rw [h]
  exact Table.mem_insert_left hrow

/-- An update keeps the owners when it makes none of them something else. -/
theorem OwnersKept.update {p : ProjectMembershipRow → Bool}
    {f : ProjectMembershipRow → ProjectMembershipRow} (hf : ∀ r, Keyed.key (f r) = Keyed.key r)
    (h : db'.memberships = db.memberships.update p f hf)
    (hkeeps : ∀ row ∈ db.memberships, row.project_id = project_id → row.role = .owner →
      p row = true → RemainsOwner row (f row)) : OwnersKept project_id db db' := by
  intro owner hrow hproject howner
  rw [h]
  cases hp : p owner with
  | false =>
    exact ⟨owner, Table.mem_update_of_not hrow hp, rfl, rfl, rfl, rfl, rfl, howner⟩
  | true => exact ⟨f owner, Table.mem_update_of hrow hp, hkeeps owner hrow hproject howner hp⟩

theorem add_membership_keeps {row : ProjectMembershipRow} :
    Preserves (OwnersKept project_id) (add_membership row) := by
  refine .bind (fun _ _ _ => .trans) (.acquire .refl _) fun _ => ?_
  refine .bind (fun _ _ _ => .trans) (.select .refl _) fun taken => ?_
  refine .bind (fun _ _ _ => .trans) (.raiseIf .refl _ _) fun _ => ?_
  exact .execute fun d => .insert rfl

theorem add_access_request_keeps {row : AccessRequestRow} :
    Preserves (OwnersKept project_id) (add_access_request row) := by
  refine .bind (fun _ _ _ => .trans) (.acquire .refl _) fun _ => ?_
  refine .bind (fun _ _ _ => .trans) (.select .refl _) fun taken => ?_
  refine .bind (fun _ _ _ => .trans) (.raiseIf .refl _ _) fun _ => ?_
  exact .execute fun d => .of_memberships rfl

theorem project_for_update_keeps {id : String} :
    Preserves (OwnersKept project_id) (project_for_update id) := by
  refine .bind (fun _ _ _ => .trans) (.acquire .refl _) fun _ => ?_
  refine .bind (fun _ _ _ => .trans) (.select .refl _) fun project => ?_
  exact .orRaise .refl _ _

theorem membership_of_some {principal_type : PrincipalType} {principal_id : String}
    {row : ProjectMembershipRow}
    (h : membership_of db project_id principal_type principal_id = some row) :
    row ∈ db.memberships :=
  List.mem_of_find?_eq_some h

/-- Adding members makes no owner anything else. -/
theorem add_memberships_keeps {tenant_id : String} {principals : List NewMembership}
    {role : GrantableRole} {now : Moment} :
    Preserves (OwnersKept project_id)
      (add_memberships project_id tenant_id principals role now) := by
  refine .bind (fun _ _ _ => .trans) project_for_update_keeps fun project => ?_
  refine .bind (fun _ _ _ => .trans) (.raiseIf .refl _ _) fun _ => ?_
  refine .forEach .refl (fun _ _ _ => .trans) fun item _ => ?_
  refine .bind (fun _ _ _ => .trans) (.select .refl _) fun existing => ?_
  cases existing with
  | none => exact add_membership_keeps
  | some existing =>
    refine .execute fun d => .update (by intro; rfl) rfl fun row _ _ howner _ => ?_
    exact ⟨rfl, rfl, rfl, rfl, rfl, howner⟩

/-- Deciding a request gives a role to no owner. -/
theorem decide_access_request_keeps {id request_id tenant_id actor : String}
    {decision : Decision} {role : Option GrantableRole} {now : Moment} :
    Preserves (OwnersKept project_id)
      (decide_access_request id project_id request_id tenant_id decision role actor now) := by
  refine .bind (fun _ _ _ => .trans) (.acquire .refl _) fun _ => ?_
  refine .bind (fun _ _ _ => .trans) (.select .refl _) fun row => ?_
  refine .bind (fun _ _ _ => .trans) (.orRaise .refl _ _) fun row => ?_
  by_cases hpending : row.status ≠ .pending
  · simp only [if_pos hpending]
    exact .raiseIf .refl _ _
  simp only [if_neg hpending]
  refine .bind (fun _ _ _ => .trans) (.execute fun d => .of_memberships rfl) fun _ => ?_
  cases (if decision = .approved then role.map (·.val) else none) with
  | none => exact .ret .refl ()
  | some granted =>
    -- the row read is the row updated, so this statement needs the state it runs in
    intro d a d' hrun
    rw [run_select_bind] at hrun
    cases hexisting : membership_of d project_id .user row.requester_id with
    | none =>
      rw [hexisting] at hrun
      exact add_membership_keeps d a d' hrun
    | some existing =>
      rw [hexisting] at hrun
      by_cases howner : existing.role = .owner
      · simp only [Tx.whenever, howner, ne_eq, not_true_eq_false, if_false] at hrun
        cases hrun
        exact .refl d
      · simp only [Tx.whenever, howner, ne_eq, not_false_eq_true, if_true] at hrun
        cases hrun
        refine .update (by intro; rfl) rfl fun other hother _ hrole hid => ?_
        have hkey : other.id = existing.id := by simpa using hid
        have hsame := Table.eq_of_key hother (membership_of_some hexisting) hkey
        rw [hsame] at hrole
        exact absurd hrole howner

theorem create_access_request_keeps {id tenant_id requester_id requester_name : String}
    {note : Option String} {now : Moment} :
    Preserves (OwnersKept project_id)
      (create_access_request id project_id tenant_id requester_id requester_name note now) := by
  refine .bind (fun _ _ _ => .trans) (.select .refl _) fun project => ?_
  refine .bind (fun _ _ _ => .trans) (.orRaise .refl _ _) fun _ => ?_
  refine .bind (fun _ _ _ => .trans) (.select .refl _) fun existing => ?_
  cases existing with
  | some row => exact .ret .refl row
  | none =>
    exact .bind (fun _ _ _ => .trans) add_access_request_keeps fun _ => .ret .refl _

theorem cancel_access_request_keeps {request_id tenant_id requester_id : String} {now : Moment} :
    Preserves (OwnersKept project_id)
      (cancel_access_request project_id request_id tenant_id requester_id now) := by
  refine .bind (fun _ _ _ => .trans) (.acquire .refl _) fun _ => ?_
  refine .bind (fun _ _ _ => .trans) (.select .refl _) fun row => ?_
  refine .bind (fun _ _ _ => .trans) (.orRaise .refl _ _) fun row => ?_
  refine .bind (fun _ _ _ => .trans) (.raiseIf .refl _ _) fun _ => ?_
  exact .execute fun d => .of_memberships rfl

variable {principal : AuthPrincipal}

theorem tenant_project_keeps {tenant_id : String} :
    Preserves (OwnersKept project_id) (tenant_project project_id tenant_id) := by
  refine .bind (fun _ _ _ => .trans) (.select .refl _) fun row => ?_
  refine .bind (fun _ _ _ => .trans) (.orRaise .refl _ _) fun row => ?_
  refine .bind (fun _ _ _ => .trans) (.raiseIf .refl _ _) fun _ => ?_
  exact .ret .refl row

theorem govern_access_keeps {view_only : Bool} :
    Preserves (OwnersKept project_id) (govern_access project_id principal view_only) := by
  unfold govern_access
  split
  · exact .bind (fun _ _ _ => .trans) tenant_project_keeps fun _ => .ret .refl _
  · refine .bind (fun _ _ _ => .trans) (.select .refl _) fun d => ?_
    split
    · exact .raise _
    · exact .bind (fun _ _ _ => .trans) (.raiseIf .refl _ _) fun _ => .ret .refl _

end lagraph.registry
