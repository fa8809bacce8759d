import LaGraph.Foundation.Interleaving.Sessions
import LaGraph.Projects.Access.Memberships

open foundation foundation.Tx

namespace lagraph.registry

/-- What identifies a request, and the project and the subject it is for. -/
structure RequestKey where
  id : String
  project_id : String
  requester_id : String
  deriving DecidableEq

def AccessRequestRow.request_key (row : AccessRequestRow) : RequestKey :=
  ⟨row.id, row.project_id, row.requester_id⟩

/-- A request that is not decided. -/
def Pending (key : RequestKey) (d : Database) : Prop :=
  ∃ row ∈ d.access_requests, row.status = .pending ∧ row.request_key = key

/-- What a transaction that may create `new` makes of the pending requests. -/
def PendingStep (new : Option RequestKey) (d d' : Database) : Prop :=
  ∀ key, Pending key d' → Pending key d ∨ new = some key

variable {new : Option RequestKey} {d d' : Database} {held : List RowLock}

theorem PendingStep.of_requests (h : d'.access_requests = d.access_requests) :
    PendingStep new d d' := by
  intro key hpending
  rw [Pending, h] at hpending
  exact Or.inl hpending

theorem pendingStep_bound : Bound fun _ : List RowLock => PendingStep new where
  refl := fun _ _ => .of_requests rfl
  trans := by
    intro _ a b c h h' key hpending
    cases h' key hpending with
    | inl hpending => exact h key hpending
    | inr hnew => exact Or.inr hnew
  mono := fun _ _ _ _ h => h

/-- A request that is decided or cancelled. -/
theorem PendingStep.update {p : AccessRequestRow → Bool} {f : AccessRequestRow → AccessRequestRow}
    {hf : ∀ row, (f row).id = row.id} (hdecided : ∀ row, (f row).status ≠ .pending) :
    PendingStep new d { d with access_requests := d.access_requests.update p f hf } := by
  rintro key ⟨row', hrow', hpending, rfl⟩
  obtain ⟨row, hrow, rfl⟩ := List.mem_map.mp hrow'
  by_cases hp : p row = true
  · rw [if_pos hp] at hpending
    exact absurd hpending (hdecided row)
  · rw [if_neg hp] at hpending ⊢
    exact Or.inl ⟨row, hrow, hpending, rfl⟩

section Programs

variable {α ρ : Type}

theorem pending_select {f : Database → α} :
    Changes (fun _ => PendingStep new) (select f : Transaction α) held :=
  .select pendingStep_bound f

/-- A statement that writes other tables. -/
theorem pending_execute {change : Database → Database → Database}
    (h : ∀ view d, (change view d).access_requests = d.access_requests) :
    Changes (fun _ => PendingStep new) (execute change : Transaction Unit) held :=
  .execute fun view d => .of_requests (h view d)

theorem pending_acquire_bind {row : RowLock} {k : Unit → Transaction α}
    (h : Changes (fun _ => PendingStep new) (k ()) (row :: held)) :
    Changes (fun _ => PendingStep new) (acquire row >>= k) held := h

theorem pending_add_membership {row : ProjectMembershipRow} :
    Changes (fun _ => PendingStep new) (add_membership row) held :=
  pending_acquire_bind (.bind pending_select fun _ _ => .bind (.raiseIf _ _) fun _ _ =>
    pending_execute fun _ _ => rfl)

/-- A new request. -/
theorem pending_add_access_request {row : AccessRequestRow} (hnew : new = some row.request_key) :
    Changes (fun _ => PendingStep new) (add_access_request row) held := by
  refine pending_acquire_bind (.bind pending_select fun _ _ => .bind (.raiseIf _ _) fun _ _ => ?_)
  refine .execute fun view d => ?_
  rintro key ⟨row', hrow', hpending, rfl⟩
  cases Table.mem_insert hrow' with
  | inl hrow' => exact Or.inl ⟨row', hrow', hpending, rfl⟩
  | inr hsame =>
    rw [hsame]
    exact Or.inr hnew

/-- A decision creates no request. -/
theorem pending_decide {id project_id request_id tenant_id actor : String} {decision : Decision}
    {role : Option GrantableRole} {now : Moment} :
    Changes (fun _ => PendingStep new)
      (decide_access_request id project_id request_id tenant_id decision role actor now) held := by
  refine pending_acquire_bind (.bind pending_select fun row held => ?_)
  refine .bind (.orRaise _ _) fun row held => ?_
  by_cases hpending : row.status ≠ .pending
  · simp only [if_pos hpending]
    exact .raiseIf _ _
  simp only [if_neg hpending]
  refine .bind (.execute fun view d => .update fun row => ?_) fun _ held => ?_
  · cases decision with
    | approved => exact fun h => by cases h
    | denied => exact fun h => by cases h
  cases (if decision = .approved then role.map (·.val) else none) with
  | none => trivial
  | some granted =>
    refine .bind pending_select fun existing held => ?_
    cases existing with
    | none => exact pending_add_membership
    | some existing => exact .whenever fun _ => pending_execute fun _ _ => rfl

/-- Neither does a cancellation. -/
theorem pending_cancel {project_id request_id tenant_id requester_id : String} {now : Moment} :
    Changes (fun _ => PendingStep new)
      (cancel_access_request project_id request_id tenant_id requester_id now) held := by
  refine pending_acquire_bind (.bind pending_select fun row held => ?_)
  refine .bind (.orRaise _ _) fun row held => .bind (.raiseIf _ _) fun _ held => ?_
  exact .execute fun view d => .update fun row h => by cases h

/-- Nor new members. -/
theorem pending_add_memberships {project_id tenant_id : String} {principals : List NewMembership}
    {role : GrantableRole} {now : Moment} :
    Changes (fun _ => PendingStep new)
      (add_memberships project_id tenant_id principals role now) held := by
  refine .bind (pending_acquire_bind (.bind pending_select fun _ _ => .orRaise _ _))
    fun project held => .bind (.raiseIf _ _) fun _ held => .forEach _ fun item held => ?_
  refine .bind pending_select fun existing held => ?_
  cases existing with
  | none => exact pending_add_membership
  | some existing => exact pending_execute fun _ _ => rfl

end Programs

end lagraph.registry
