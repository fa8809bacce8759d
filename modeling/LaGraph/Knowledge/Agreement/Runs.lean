import LaGraph.Knowledge.Agreement.Ingestion
import LaGraph.Knowledge.Agreement

open foundation foundation.Faulty

namespace lagraph.knowledge

section

variable {fates : Stage → Fate} {w w' : World} {old : Manifest} {previous : String}

/-- With one way to roll back, the condition is about that way. -/
theorem rollbackAgrees_iff (hto : RollsBackTo w old previous)
    (hswitches : Switches previous fates w) : RollbackAgrees fates w ↔
      (through fates SETTLE_STAGES = .passes ∨ stored_active w = some previous) ∧
      (fates (.replace_manifest .rolled_back) = .passes ∨ has_valid_active_graph w = true ∨
        stored_active w = none) ∧
      (fates (.fsync_manifest .rolled_back) = .passes ∨
        has_valid_active_graph w = true ∧ stored_active w = some previous) := by
  constructor
  · intro h
    exact h old previous hto hswitches
  · intro h old' previous' hto' _
    obtain ⟨-, rfl⟩ := hto.unique hto'
    exact h

/-- Removing or restoring the link under the unchanged manifest. -/
theorem agrees_reverted_unwritten (hagrees : Agrees w) :
    Agrees (w.reverted w.stored_manifest) ↔
      has_valid_active_graph w = true ∨ stored_active w = none := by
  have hstored : stored_active (w.reverted w.stored_manifest) = stored_active w := rfl
  rw [has_valid_active_graph]
  cases htarget : active_target w with
  | none =>
    have hactive : (w.reverted w.stored_manifest).active = .absent := by
      rw [World.reverted, htarget]
      rfl
    rw [agrees_unlinked (fun parts => by rw [hactive]; simp), hstored]
    simp
  | some parts =>
    obtain ⟨version, rfl, hlink, -⟩ := active_target_some htarget
    have hactive : (w.reverted w.stored_manifest).active = w.active := by
      rw [World.reverted, htarget, hlink]
      rfl
    rw [agrees_same_link hagrees hactive]
    simp [hstored]

/-- Removing or restoring the link under a manifest that names another version. -/
theorem agrees_reverted_written (hagrees : Agrees w) {value : Manifest}
    (hvalue : value.activeGraphVersion = some previous) :
    Agrees (w.reverted (some value)) ↔
      has_valid_active_graph w = true ∧ stored_active w = some previous := by
  have hstored : stored_active (w.reverted (some value)) = some previous := hvalue
  rw [has_valid_active_graph]
  cases htarget : active_target w with
  | none =>
    have hactive : (w.reverted (some value)).active = .absent := by
      rw [World.reverted, htarget]
      rfl
    rw [agrees_unlinked (fun parts => by rw [hactive]; simp), hstored]
    simp
  | some parts =>
    obtain ⟨version, rfl, hlink, -⟩ := active_target_some htarget
    have hactive : (w.reverted (some value)).active = w.active := by
      rw [World.reverted, htarget, hlink]
      rfl
    rw [agrees_same_link hagrees hactive, hstored]
    simp [eq_comm]

theorem RolledBack.agrees_iff (h : RolledBack fates w w') (hagrees : Agrees w)
    (hsingle : SingleFault fates) : Agrees w' ↔ RollbackAgrees fates w := by
  cases h with
  | refused hnot =>
    exact iff_of_true hagrees fun old previous hto hswitches =>
      absurd hswitches (hnot old previous hto)
  | @attempted o _ old previous hto hend =>
    cases hend with
    | refused hstopped hnot =>
      refine iff_of_true hagrees fun old' previous' hto' hswitches => ?_
      obtain ⟨-, rfl⟩ := hto.unique hto'
      exact absurd hswitches hnot
    | left hstopped hswitches hleft =>
      have hsettle := (linkLeft_iff hsingle).mp hleft
      have hreplace : fates (.replace_manifest .rolled_back) = .passes :=
        hsingle.passes_disjoint hsettle (by simp [SETTLE_STAGES])
      have hsync : fates (.fsync_manifest .rolled_back) = .passes :=
        hsingle.passes_disjoint hsettle (by simp [SETTLE_STAGES])
      rw [rollbackAgrees_iff hto hswitches]
      refine (agrees_link rfl).trans ?_
      change stored_active w = some previous ↔ _
      simp [hsettle, hreplace, hsync]
    | restored stored hstopped hswitches hrestored hdied =>
      obtain ⟨hsettled, hrestore, hwrite⟩ := hrestored
      rw [rollbackAgrees_iff hto hswitches]
      rcases hwrite with ⟨rfl, hreplace⟩ | ⟨rfl, hreplace, hsync⟩
      · have hsync : fates (.fsync_manifest .rolled_back) = .passes :=
          hsingle.passes (by simp [hreplace] : fates (.replace_manifest .rolled_back) ≠ .passes)
            (by simp)
        refine (agrees_reverted_unwritten hagrees).trans ?_
        simp [hsettled, hreplace, hsync]
      · refine (agrees_reverted_written hagrees rfl).trans ?_
        simp [hsettled, hreplace, hsync]
    | unsynced hstopped hswitches hrecorded hsync hraised =>
      rcases hrecorded.2.2 with hne | hrestore
      · exact absurd (hsingle.raises hsync) hne
      · exact absurd (hsingle.unique _ _ hsync hrestore) (by simp)
    | recorded hswitches hrecorded hsync =>
      rw [rollbackAgrees_iff hto hswitches]
      refine iff_of_true ((agrees_link rfl).mpr rfl) ?_
      exact ⟨Or.inl hrecorded.1, Or.inl hrecorded.2.1, Or.inl hsync⟩

end

/-- The condition under which an operation with a single fault keeps the link and
the manifest in agreement. -/
def OperationAgrees (w : World) : Operation → Prop
  | .ingest run fates => IngestionAgrees run fates w
  | .rollback fates => RollbackAgrees fates w
  | .restart => True

/-- An operation of which at most one step fails. -/
def OperatesOnce (w : World) (op : Operation) (w' : World) : Prop :=
  Operates w op w' ∧ op.SingleFault

theorem OperatesOnce.agrees_iff {w w' : World} {op : Operation} (h : OperatesOnce w op w')
    (hagrees : Agrees w) : Agrees w' ↔ OperationAgrees w op := by
  obtain ⟨hoperates, hsingle⟩ := h
  cases op with
  | ingest run fates => exact hoperates.executed.agrees_iff hagrees hoperates.1 hsingle
  | rollback fates => exact hoperates.rolledBack.agrees_iff hagrees hsingle
  | restart =>
    obtain ⟨-, rfl⟩ := hoperates
    exact iff_of_true hagrees trivial

/-- In a run of operations with at most one fault each, from directories in
agreement, the link and the stored manifest agree after every operation exactly
when every operation meets its condition. -/
theorem runs_agree_iff {w w' : World} {trace : List (Transition World Operation)}
    (hrun : Run OperatesOnce w trace w') (hagrees : Agrees w) :
    (∀ e ∈ trace, Agrees e.after) ↔ ∀ e ∈ trace, OperationAgrees e.before e.label :=
  hrun.forall_iff hagrees fun _ _ _ hstep hbefore => hstep.agrees_iff hbefore

theorem agrees_empty : Agrees .empty :=
  (agrees_unlinked (by simp [World.empty])).mpr rfl

theorem runs_agree_iff_first_build :
    (∀ e ∈ [(⟨.empty, .ingest first_build (raising []), first_built⟩ :
        Transition World Operation)], Agrees e.after) ↔
      ∀ e ∈ [(⟨.empty, .ingest first_build (raising []), first_built⟩ :
        Transition World Operation)], OperationAgrees e.before e.label :=
  runs_agree_iff (Run.nil.snoc ⟨first_build_operates, SingleFault.raising_nil⟩) agrees_empty

/-- The directory sync after the link is replaced is the only step that fails: the
link points at the new version and the stored manifest names none. -/
theorem failed_sync_disagrees : ∃ w', Agrees .empty ∧
    OperatesOnce .empty (.ingest first_build (raising [.fsync_active])) w' ∧
    w'.active = .link ["versions", "20250101T000000Z-0a0a0a0a"] ∧ stored_active w' = none ∧
    ¬ Agrees w' := by
  refine ⟨_, agrees_empty, ⟨⟨fresh_empty _, rfl⟩, SingleFault.raising_one _⟩, rfl, rfl, ?_⟩
  rw [agrees_link rfl]
  decide

end lagraph.knowledge
