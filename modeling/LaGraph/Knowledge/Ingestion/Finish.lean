import LaGraph.Knowledge.Ingestion.Prune
import LaGraph.Knowledge.Ingestion.Record

open foundation foundation.Faulty

namespace lagraph.knowledge

variable {run : Ingestion} {snapshot : KnowledgeSnapshot} {old : Option Manifest}
  {fates : Stage → Fate} {w : World}

/-- The versions a finished build has begun to remove. -/
def Ingestion.removals (run : Ingestion) (fates : Stage → Fate) (names : List String) :
    List String :=
  if fates (.fsync_manifest .completed) = .passes then
    pruned fates names run.settings.knowledge_graph_versions_to_keep
  else []

/-- What a recorded build that raised has met. -/
def RaisedAfterRecord (run : Ingestion) (fates : Stage → Fate) (names : List String) : Prop :=
  fates (.fsync_manifest .completed) = .raises ∧ fates .restore_active = .raises ∨
    fates (.fsync_manifest .completed) = .passes ∧
      through fates (prune_stages names run.settings.knowledge_graph_versions_to_keep) = .raises

/-- The ways the second half of a build ends. -/
inductive FinishEnd (run : Ingestion) (snapshot : KnowledgeSnapshot) (old : Option Manifest)
    (fates : Stage → Fate) (w : World) : Outcome Failure Unit → World → Prop
  | refused {o : Outcome Failure Unit} (hstopped : Stopped o)
      (hnot : ¬ Switches run.ingestion_id fates w) : FinishEnd run snapshot old fates w o w
  | left {o : Outcome Failure Unit} (hstopped : Stopped o)
      (hswitches : Switches run.ingestion_id fates w) (hleft : LinkLeft .completed fates) :
      FinishEnd run snapshot old fates w o (w.linked run.ingestion_id)
  | restored {o : Outcome Failure Unit} (stored : Bool) (hstopped : Stopped o)
      (hswitches : Switches run.ingestion_id fates w)
      (hrestored : LinkRestored .completed fates stored)
      (hdied : o = .died → fates .fsync_restored = .dies) :
      FinishEnd run snapshot old fates w o (w.reverted
        (if stored then some (run.completed_manifest snapshot old) else w.stored_manifest))
  | recorded {o : Outcome Failure Unit} {w' : World}
      (hswitches : Switches run.ingestion_id fates w) (hrecorded : LinkRecorded .completed fates)
      (hraised : (∃ error, o = .raised error) ↔ RaisedAfterRecord run fates w.names)
      (hactive : w'.active = .link ["versions", run.ingestion_id])
      (hstored : w'.stored_manifest = some (run.completed_manifest snapshot old))
      (hindex : w'.index = w.index)
      (huntouched : ∀ name, name ∉ run.removals fates w.names →
        version_named w' name = version_named w name)
      (hworn : ∀ name, Worn w w' name) : FinishEnd run snapshot old fates w o w'

/-- An activation that stopped ends the build. -/
theorem RecordEnd.finishEnd {o : Outcome Failure Unit} {w' : World} (hstopped : Stopped o)
    (h : RecordEnd .completed run.ingestion_id (run.completed_manifest snapshot old) fates w o w') :
    FinishEnd run snapshot old fates w o w' := by
  cases h with
  | refused hstopped hnot => exact .refused hstopped hnot
  | left hstopped hswitches hleft => exact .left hstopped hswitches hleft
  | restored stored hstopped hswitches hrestored hdied =>
    exact .restored stored hstopped hswitches hrestored hdied
  | unsynced _ hswitches hrecorded hsync hraised =>
    refine .recorded hswitches hrecorded ?_ rfl rfl rfl (fun _ _ => rfl) (fun _ => Worn.refl _)
    rw [hraised, RaisedAfterRecord]
    simp [hsync]
  | recorded _ _ _ => exact absurd rfl (hstopped ())

/-- A finished pruning, with or without the staging directory, is a recorded
build; it raised only if the pruning did. -/
theorem PruneEnd.recorded {o o' : Outcome Failure Unit} {w₁ w' : World}
    (hprune : PruneEnd run.settings.knowledge_graph_versions_to_keep fates
      (w.recorded run.ingestion_id (run.completed_manifest snapshot old)) o w₁)
    (hswitches : Switches run.ingestion_id fates w) (hrecorded : LinkRecorded .completed fates)
    (hsync : fates (.fsync_manifest .completed) = .passes)
    (ho : (∃ error, o' = .raised error) ↔ ∃ error, o = .raised error)
    (hw : ∃ staging, w' = { w₁ with staging }) : FinishEnd run snapshot old fates w o' w' := by
  obtain ⟨staging, rfl⟩ := hw
  refine .recorded hswitches hrecorded ?_ hprune.active
    hprune.stored_manifest hprune.index (fun name hname => ?_) hprune.worn
  · rw [ho, hprune.follows.raised_iff, RaisedAfterRecord, hsync]
    simp only [reduceCtorEq, false_and, true_and, false_or]
    rfl
  · rw [Ingestion.removals, if_pos hsync] at hname
    exact hprune.untouched name hname

/-- The end of a build once its manifest is stored and synced. -/
theorem finish_pruning_spec (hswitches : Switches run.ingestion_id fates w)
    (hrecorded : LinkRecorded .completed fates)
    (hsync : fates (.fsync_manifest .completed) = .passes) :
    wp (do
      prune_versions run.settings.knowledge_graph_versions_to_keep
      recover (step .remove_staging .OSError) (fun _ => pure ())
      change fun w => { w with staging := w.staging.filter (· ≠ run.ingestion_id) }) fates
      (FinishEnd run snapshot old fates w)
      (w.recorded run.ingestion_id (run.completed_manifest snapshot old)) := by
  refine wp_bind_of (prune_versions_spec _) (fun _ w₁ hprune => ?_) (fun error w₁ hprune => ?_)
    (fun w₁ hprune => ?_)
  · have hquiet : wp (recover (step .remove_staging .OSError) (fun _ => pure ()) : Action Unit)
        fates (fun o w₂ => w₂ = w₁ ∧ ∀ error, o ≠ .raised error) w₁ := by
      rw [wp_recover, wp_step]
      exact ⟨fun _ => ⟨rfl, by simp⟩, fun _ => ⟨rfl, by simp⟩, fun _ => ⟨rfl, by simp⟩⟩
    refine wp_bind_of hquiet (fun _ w₂ hw₂ => ?_) (fun error w₂ hw₂ => absurd rfl (hw₂.2 error))
      (fun w₂ hw₂ => ?_)
    · obtain ⟨rfl, -⟩ := hw₂
      have hreturned {a : Unit} : (∃ error : Failure, Outcome.returned () = .raised error) ↔
          ∃ error : Failure, Outcome.returned a = .raised error := by simp
      exact hprune.recorded hswitches hrecorded hsync hreturned ⟨_, rfl⟩
    · obtain ⟨rfl, -⟩ := hw₂
      exact hprune.recorded hswitches hrecorded hsync (by simp) ⟨_, rfl⟩
  · exact hprune.recorded hswitches hrecorded hsync Iff.rfl ⟨_, rfl⟩
  · exact hprune.recorded hswitches hrecorded hsync Iff.rfl ⟨_, rfl⟩

theorem finish_version_spec :
    wp (finish_version run snapshot old) fates (FinishEnd run snapshot old fates w) w := by
  refine wp_bind_of activate_and_record_spec (fun a w₁ hend => ?_)
    (fun _ _ hend => hend.finishEnd stopped_raised) (fun _ hend => hend.finishEnd stopped_died)
  cases hend with
  | refused hstopped _ => exact absurd rfl (hstopped a)
  | left hstopped _ _ => exact absurd rfl (hstopped a)
  | restored _ hstopped _ _ _ => exact absurd rfl (hstopped a)
  | unsynced hstopped _ _ _ _ => exact absurd rfl (hstopped a)
  | recorded hswitches hrecorded hsync => exact finish_pruning_spec hswitches hrecorded hsync

end lagraph.knowledge
