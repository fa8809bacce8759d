import LaGraph.Knowledge.Agreement

open foundation foundation.Faulty

namespace lagraph.knowledge

variable {run : Ingestion} {snapshot : KnowledgeSnapshot} {fates : Stage → Fate} {w w' : World}

theorem ingestionAgrees_build (hsource : run.source = .ok snapshot)
    (hskips : skips run snapshot w = false) (hstarts : Starts fates) :
    IngestionAgrees run fates w ↔ (¬ Reaches run fates w → Readable w) ∧ (Reaches run fates w →
      through fates (SETTLE_STAGES ++ prune_stages (run.ingestion_id :: w.names)
        run.settings.knowledge_graph_versions_to_keep) = .passes ∧
      (through fates [.replace_manifest .completed, .fsync_manifest .completed] = .passes ∨
        PriorAgrees w)) := by
  unfold IngestionAgrees
  rw [hsource]
  simp [hskips, hstarts]

/-- A version that is not the stored one disagrees with its link. -/
theorem not_agrees_new (hfresh : Fresh w run.ingestion_id)
    (hactive : w'.active = .link ["versions", run.ingestion_id])
    (hstored : stored_active w' = (manifest w).bind (·.activeGraphVersion)) : ¬ Agrees w' := by
  rw [agrees_link hactive, hstored]
  exact not_carried_of_fresh hfresh

theorem stored_active_of_build {value : Manifest} {old : Option Manifest}
    (hstored : w'.stored_manifest = some value)
    (hvalue : BuildManifest run snapshot old value) :
    stored_active w' = old.bind (·.activeGraphVersion) := by
  rw [stored_active, hstored, Option.bind_some, hvalue.active]

theorem not_mem_prune_stages {k : Stage} {names : List String} {keep : Nat}
    (hlist : k ≠ .list_versions) (hfiles : ∀ name, k ≠ .remove_files name)
    (hdirectory : ∀ name, k ≠ .remove_directory name) : k ∉ prune_stages names keep := by
  simp only [prune_stages, removal_stages, List.mem_cons, List.mem_flatMap, List.not_mem_nil,
    or_false, not_or, not_exists, not_and]
  exact ⟨hlist, fun name _ => ⟨hfiles name, hdirectory name⟩⟩

/-- The unchanged path writes the active version it has read. -/
theorem ReconcileEnd.agrees {old : Manifest} (h : ReconcileEnd run snapshot old w w')
    (hagrees : Agrees w) (hold : manifest w = some old) (hskips : skips run snapshot w = true) :
    Agrees w' := by
  have hstored : stored_active w = old.activeGraphVersion := by
    rw [stored_active, stored_of_manifest hold, Option.bind_some]
  cases h with
  | unwritten hindex => exact hagrees
  | failed hvalue =>
    refine (agrees_same_link hagrees ?_).mpr ?_
    · rfl
    · subst hvalue
      exact hstored.symm
  | unchanged hindex =>
    refine (agrees_same_link hagrees ?_).mpr ?_
    · rfl
    obtain ⟨-, -, -, -, -, -, hvalid⟩ := skips_spec hskips
    obtain ⟨parts, htarget⟩ := Option.isSome_iff_exists.mp hvalid
    obtain ⟨version, -, hlink, hname, -⟩ := active_target_some htarget
    have hversion := (agrees_link hlink).mp hagrees
    rw [hversion]
    change python_or (some (python_str old.activeGraphVersion)) _ = some version
    rw [← hstored, hversion]
    exact python_or_some (valid_version_name_ne_empty hname) _

/-- When a single fault hit the manifest write of a build, its failure has been
recorded. -/
theorem restored_single_fault {value : Manifest} {stored : Bool} {old : Option Manifest}
    (hsingle : SingleFault fates)
    (hwrite : stored = false ∧ fates (.replace_manifest .completed) = .raises ∨
      stored = true ∧ fates (.replace_manifest .completed) = .passes ∧
        fates (.fsync_manifest .completed) = .raises)
    (hvalue : BuildManifest run snapshot old value ∨
      value = run.completed_manifest snapshot old ∧ stored = true ∧
        (fates .fsync_restored = .dies ∨ ¬ FailureRecorded fates)) :
    BuildManifest run snapshot old value ∧
      through fates [.replace_manifest .completed, .fsync_manifest .completed] ≠ .passes := by
  have hfails : through fates [.replace_manifest .completed, .fsync_manifest .completed] ≠
      .passes := by
    rw [Ne, through_eq_passes]
    intro hall
    rcases hwrite with ⟨-, hreplace⟩ | ⟨-, -, hsync⟩
    · simp [hreplace] at hall
    · simp [hsync] at hall
  refine ⟨?_, hfails⟩
  rcases hvalue with hbuild | ⟨-, -, hdies | hunrecorded⟩
  · exact hbuild
  · exact absurd hdies (hsingle.survives _)
  · exact absurd (hsingle.through_disjoint hfails (by simp)) hunrecorded

theorem synced_of_recorded (hsingle : SingleFault fates)
    (hsync : fates (.fsync_manifest .completed) ≠ .raises ∨ fates .restore_active ≠ .passes) :
    fates (.fsync_manifest .completed) = .passes := by
  by_contra hfails
  cases hsync with
  | inl hne => exact hne (hsingle.raises hfails)
  | inr hrestore => exact absurd (hsingle.unique _ _ hfails hrestore) (by simp)

/-- A pruning that failed would have had its failure recorded. -/
theorem pruned_of_recorded {names : List String} (hsingle : SingleFault fates)
    (hsynced : fates (.fsync_manifest .completed) = .passes)
    (hunless : RaisedAfterRecord run fates names → ¬ FailureRecorded fates) :
    through fates (prune_stages names run.settings.knowledge_graph_versions_to_keep) =
      .passes := by
  by_contra hfails
  refine hunless (Or.inr ⟨hsynced, hsingle.through_raises hfails⟩) ?_
  refine hsingle.through_disjoint hfails fun k hk hmem => ?_
  simp only [List.mem_cons, List.not_mem_nil, or_false] at hmem
  rcases hmem with rfl | rfl
  · exact not_mem_prune_stages (by simp) (by simp) (by simp) hk
  · exact not_mem_prune_stages (by simp) (by simp) (by simp) hk

theorem Executed.agrees_iff (h : Executed run fates w w') (hagrees : Agrees w)
    (hfresh : Fresh w run.ingestion_id) (hsingle : SingleFault fates) :
    Agrees w' ↔ IngestionAgrees run fates w := by
  cases h with
  | @source_failed _ failure hsource hend =>
    unfold IngestionAgrees
    rw [hsource]
    rcases hend with ⟨rfl, hstops⟩ | ⟨rfl, hpasses⟩
    · exact iff_of_true hagrees (Or.inl hstops)
    · refine (agrees_same_link hagrees ?_).trans ?_
      · rfl
      simp only [stored_active, Option.bind_some, source_failure_manifest_active]
      simp [hpasses, Readable, stored_active]
  | reconciled hsource hskips hold hend =>
    refine iff_of_true (hend.agrees hagrees hold hskips) ?_
    unfold IngestionAgrees
    rw [hsource]
    exact Or.inl hskips
  | unstarted hsource hskips hstarts =>
    refine iff_of_true hagrees ?_
    unfold IngestionAgrees
    rw [hsource]
    exact Or.inr (Or.inl hstarts)
  | abandoned hsource hskips hstarts hnot hactive hstored hvalue hframe =>
    rw [ingestionAgrees_build hsource hskips hstarts, agrees_same_link hagrees hactive,
      stored_active_of_build hstored hvalue]
    simp [hnot, Readable]
  | left hsource hskips hstarts hreaches hleft hactive hstored hvalue hframe hnew =>
    rw [ingestionAgrees_build hsource hskips hstarts]
    refine iff_of_false (not_agrees_new hfresh hactive (stored_active_of_build hstored hvalue)) ?_
    intro hcondition
    have hsettled := (through_append_eq_passes.mp (hcondition.2 hreaches).1).1
    exact (linkLeft_iff hsingle).mp hleft hsettled
  | restored hsource hskips hstarts hreaches hrestored hactive hstored hvalue hframe hnew =>
    obtain ⟨hsettled, hrestore, hwrite⟩ := hrestored
    obtain ⟨hbuild, hfails⟩ := restored_single_fault hsingle hwrite hvalue
    rw [ingestionAgrees_build hsource hskips hstarts,
      agrees_reverted hagrees hactive (stored_active_of_build hstored hbuild)]
    have hprune : through fates (prune_stages (run.ingestion_id :: w.names)
        run.settings.knowledge_graph_versions_to_keep) = .passes :=
      hsingle.through_disjoint hfails (by simp [not_mem_prune_stages])
    simp [hreaches, hfails, through_append_eq_passes, hsettled, hprune]
  | recorded hsource hskips hstarts hreaches hrecorded hunless hactive hstored hframe hnew =>
    rw [ingestionAgrees_build hsource hskips hstarts, agrees_link hactive, stored_active, hstored,
      Option.bind_some, completed_manifest_active]
    obtain ⟨hsettled, hreplace, hsync⟩ := hrecorded
    have hsynced := synced_of_recorded hsingle hsync
    have hprune := pruned_of_recorded hsingle hsynced hunless
    simp [hreaches, through_append_eq_passes, hsettled, hprune, through_cons_of_passes hreplace,
      through_singleton, hsynced]
  | regressed hsource hskips hstarts hreaches hrecorded hraised hfailure hactive hstored hframe
      hnew =>
    rw [ingestionAgrees_build hsource hskips hstarts]
    refine iff_of_false (not_agrees_new hfresh hactive
      (stored_active_of_build hstored (Or.inr ⟨_, rfl⟩))) ?_
    intro hcondition
    have hprune := (through_append_eq_passes.mp (hcondition.2 hreaches).1).2
    rcases hraised with ⟨hsync, hrestore⟩ | ⟨-, hraised⟩
    · exact absurd (hsingle.eq_of_raises hsync hrestore) (by simp)
    · rw [hprune] at hraised
      cases hraised

end lagraph.knowledge
