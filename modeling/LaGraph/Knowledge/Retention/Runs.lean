import LaGraph.Knowledge.Retention.Ingestion

open foundation foundation.Faulty

namespace lagraph.knowledge

section

variable {write : ManifestWrite} {fates : Stage → Fate} {w w' : World} {old : Manifest}
  {previous : String}

/-- A rollback only swaps versions that are named, and it validates the one it
activates. -/
theorem Retained.rolled_back (hw : Retained w) (hto : RollsBackTo w old previous)
    (hpresent : Present w previous) (hversions : w'.versions = w.versions)
    (hstored : w'.stored_manifest = some (old.rolled_back previous)) : Retained w' := by
  have hkept {version : String} (h : Present w version) : Present w' version := by
    obtain ⟨entry, counts, hentry, hvalid⟩ := h
    exact ⟨entry, counts, (version_named_congr hversions version).trans hentry, hvalid⟩
  intro stored hsome version hnames
  obtain rfl := Option.some.inj (hstored.symm.trans hsome)
  cases hnames with
  | inl hactive =>
    obtain rfl : previous = version := Option.some.inj hactive
    exact hkept hpresent
  | inr hprevious => exact hkept (hw.present hto.manifest (Or.inl hprevious))

/-- A rollback keeps the versions its manifest names. -/
theorem RolledBack.retained (h : RolledBack fates w w') (hw : Retained w) : Retained w' := by
  cases h with
  | refused hnot => exact hw
  | @attempted o _ old previous hto hend =>
    cases hend with
    | refused hstopped hnot => exact hw
    | left hstopped hswitches hleft => exact hw
    | restored stored hstopped hswitches hrestored hdied =>
      cases stored with
      | false => exact hw
      | true => exact hw.rolled_back hto hswitches.1.1 rfl rfl
    | unsynced hstopped hswitches hrecorded hsync hraised =>
      exact hw.rolled_back hto hswitches.1.1 rfl rfl
    | recorded hswitches hrecorded hsync =>
      exact hw.rolled_back hto hswitches.1.1 rfl rfl

theorem replace_link_raises (version : String) :
    RaisesOnly (· = .OSError) (replace_link version) := by
  refine .always (.bind (.step rfl) fun _ => .bind (.step rfl) fun _ => .bind .change fun _ => ?_)
    (.step rfl)
  exact .step rfl

theorem write_manifest_raises (value : Manifest) :
    RaisesOnly (· = .OSError) (write_manifest write value) :=
  .bind (.step rfl) fun _ => .bind .change fun _ => .step rfl

theorem restore_active_raises (target : Option (List String)) :
    RaisesOnly (· = .OSError) (restore_active target) :=
  .bind (.step rfl) fun _ => .bind .change fun _ => .step rfl

/-- The exceptions of an activation whose version is there. -/
theorem activate_and_record_raises {value : Manifest} (hpresent : Present w previous) :
    wp (activate_and_record write previous value) fates
      (fun o _ => ∀ e, o = .raised e →
        e = .OSError ∨ e = .RuntimeError "active_graph_path_invalid") w := by
  obtain ⟨entry, counts, hentry, hvalid⟩ := hpresent
  unfold activate_and_record
  rw [wp_read_bind]
  have hactivate : wp (activate previous) fates (fun o _ => ∀ e, o = .raised e →
      e = .OSError ∨ e = .RuntimeError "active_graph_path_invalid") w := by
    unfold activate
    rw [wp_read_bind]
    simp only [hentry]
    refine wp_ofExcept_bind (fun _ _ => ?_) (fun error hinvalid => ?_)
    · refine wp_raiseIf_bind (fun _ => ?_) (fun _ e he => ?_)
      · exact wp_mono (replace_link_raises previous fates w) fun o _ h e he => Or.inl (h e he)
      · cases he
        exact Or.inr rfl
    · rw [hvalid] at hinvalid
      cases hinvalid
  have hrecord : RaisesOnly (· = .OSError) (recover (write_manifest write value) fun error => do
      restore_active (active_target w)
      raise error) :=
    .recover (write_manifest_raises value) fun error herror =>
      .bind (restore_active_raises _) fun _ => .raise herror
  refine wp_bind_of hactivate (fun _ w' _ => ?_) (fun e _ h e' he => ?_) (fun _ _ e' he => ?_)
  · exact wp_mono (hrecord fates w') fun o _ h e he => Or.inl (h e he)
  · cases he
    exact h e rfl
  · cases he

/-- With every named version there, no rollback is refused for a missing one. -/
theorem Retained.rollback_not_missing (hw : Retained w) (fates : Stage → Fate) :
    (rollback fates w).1 ≠ .raised (.RuntimeError "graph_artifact_missing") := by
  have hraises : wp rollback fates (fun o _ => ∀ e, o = .raised e →
      e ≠ .RuntimeError "graph_artifact_missing") w := by
    unfold rollback
    rw [wp_read_bind]
    cases hold : manifest w with
    | none =>
      intro e he
      cases he
      simp
    | some old =>
      rw [Option.bind_some]
      cases hprevious : python_or old.previousGraphVersion none with
      | none =>
        intro e he
        cases he
        simp
      | some previous =>
        have hnamed : old.previousGraphVersion = some previous := python_or_none hprevious
        have hpresent := hw.present hold (Or.inr hnamed)
        have ⟨entry, counts, hentry, hvalid⟩ := hpresent
        simp only [hentry]
        refine wp_ofExcept_bind (fun _ _ => ?_) (fun error hinvalid => ?_)
        · refine wp_bind_of (activate_and_record_raises hpresent) (fun _ _ _ e he => ?_)
            (fun e _ h e' he => ?_) (fun _ _ e he => ?_)
          · cases he
          · cases he
            rcases h e rfl with rfl | rfl
            · simp
            · simp
          · cases he
        · rw [hvalid] at hinvalid
          cases hinvalid
  intro hmissing
  exact hraises _ hmissing rfl

end

/-- The condition under which an operation keeps the versions its manifest
names. -/
def OperationRetains (w : World) : Operation → Prop
  | .ingest run fates => IngestionRetains run fates w
  | .rollback _ => True
  | .restart => True

theorem retained_empty : Retained .empty := by
  intro value hvalue
  cases hvalue

theorem Operates.retained {w w' : World} {op : Operation} (h : Operates w op w')
    (hcond : OperationRetains w op) (hw : Retained w) : Retained w' := by
  cases op with
  | ingest run fates => exact h.executed.retained hw h.1 hcond
  | rollback fates => exact h.rolledBack.retained hw
  | restart =>
    obtain ⟨-, rfl⟩ := h
    exact hw

theorem first_build_retains : IngestionRetains first_build (raising []) .empty := by
  intro _ _ _
  refine ⟨fun _ old version hold => ?_, fun _ => ⟨?_, fun version hactive => ?_⟩⟩
  · cases hold
  · unfold Spares
    decide
  · cases hactive

def v2_build : Ingestion := ingestion_of "20250108T000000Z-0d0d0d0d" "s2" (by decide)

def v2_built : World := (Operation.ingest v2_build (raising [])).apply first_built

def v2_rolled_back : World := (Operation.rollback (raising [])).apply v2_built

def v3_build : Ingestion := ingestion_of "20250115T000000Z-0e0e0e0e" "s3" (by decide)

def v3_built : World := (Operation.ingest v3_build (raising [])).apply v2_rolled_back

theorem v3_runs : Fresh first_built v2_build.ingestion_id ∧
    Fresh v2_rolled_back v3_build.ingestion_id ∧
    v3_built.stored_manifest.bind (·.previousGraphVersion) = some first_build.ingestion_id ∧
    version_named v3_built first_build.ingestion_id = none ∧
    (rollback (raising []) v3_built).1 = .raised (.RuntimeError "graph_artifact_missing") := by
  decide +kernel

end lagraph.knowledge
