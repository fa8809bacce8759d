import LaGraph.Knowledge.Provenance.Ingestion

open foundation foundation.Faulty

namespace lagraph.knowledge

section

variable {fates : Stage → Fate} {w w' : World} {old : Manifest} {previous : String}

/-- A link that was put back, or removed, under the unchanged manifest. -/
theorem Described.reverted (hw : Described w) : Described (w.reverted w.stored_manifest) := by
  refine ⟨fun value origin parts hold hclaims htarget => ?_, hw.index⟩
  cases hprior : active_target w with
  | none =>
    obtain ⟨version, -, hlink, -⟩ := active_target_some htarget
    rw [World.reverted, hprior] at hlink
    cases hlink
  | some prior =>
    obtain ⟨version, rfl, hlink, -⟩ := active_target_some hprior
    have hsame : w.reverted w.stored_manifest = w := by
      rw [World.reverted, hprior, Option.elim_some, ← hlink]
    rw [hsame] at hold htarget ⊢
    exact hw.claims value origin parts hold hclaims htarget

/-- A link that was removed leaves nothing to describe. -/
theorem Described.removed (hw : Described w) (hvalid : has_valid_active_graph w = false)
    (stored : Option Manifest) : Described (w.reverted stored) := by
  refine ⟨fun value origin parts hold hclaims htarget => ?_, hw.index⟩
  obtain ⟨version, -, hlink, -⟩ := active_target_some htarget
  have hnone : active_target w = none := by simpa [has_valid_active_graph] using hvalid
  rw [World.reverted, hnone] at hlink
  cases hlink

/-- A recorded rollback between versions of one origin. -/
theorem Described.rolled_back (hw : Described w)
    (horigin : ∀ entry origin, version_named w previous = some entry → old.Claims origin →
      entry.origin = origin) : Described (w.recorded previous (old.rolled_back previous)) := by
  refine ⟨fun value origin parts hold hclaims htarget => ?_, hw.index⟩
  obtain rfl : old.rolled_back previous = value := Option.some.inj (stored_of_manifest hold)
  obtain ⟨version, rfl, hlink, -, entry, counts, hentry, -⟩ := active_target_some htarget
  obtain rfl : previous = version := by
    have hparts : ["versions", previous] = ["versions", version] := ActiveEntry.link.inj hlink
    simpa using hparts
  exact ⟨previous, rfl, htarget, entry, hentry, horigin entry origin hentry hclaims⟩

/-- A rollback that meets its condition keeps the manifest true of the active
version. -/
theorem RolledBack.described (h : RolledBack fates w w') (hw : Described w)
    (hcond : RollbackDescribes fates w) : Described w' := by
  cases h with
  | refused hnot => exact hw
  | @attempted o _ old previous hto hend =>
    cases hend with
    | refused hstopped hnot => exact hw
    | left hstopped hswitches hleft =>
      rcases hcond old previous hto hswitches with ⟨hrecorded, -⟩ | ⟨stored, hrestored, -⟩
      · exact absurd hrecorded hleft.not_recorded
      · exact absurd hrestored hleft.not_restored
    | restored stored hstopped hswitches hrestored hdied =>
      rcases hcond old previous hto hswitches with ⟨hrecorded, -⟩ | ⟨stored', hrestored', hinvalid⟩
      · exact absurd hrecorded hrestored.not_recorded
      obtain rfl := hrestored.unique hrestored'
      cases stored with
      | false => exact hw.reverted
      | true => exact hw.removed (hinvalid rfl) _
    | unsynced hstopped hswitches hrecorded hsync hraised =>
      rcases hcond old previous hto hswitches with ⟨-, horigin⟩ | ⟨stored, hrestored, -⟩
      · exact hw.rolled_back horigin
      · exact absurd hrecorded hrestored.not_recorded
    | recorded hswitches hrecorded hsync =>
      rcases hcond old previous hto hswitches with ⟨-, horigin⟩ | ⟨stored, hrestored, -⟩
      · exact hw.rolled_back horigin
      · exact absurd hrecorded hrestored.not_recorded

end

/-- The condition under which an operation keeps the manifest true of the active
version. -/
def OperationDescribes (w : World) : Operation → Prop
  | .ingest run fates => IngestionDescribes run fates w
  | .rollback fates => RollbackDescribes fates w
  | .restart => True

theorem described_empty : Described .empty := by
  refine ⟨fun old origin parts hold => ?_, by simp [World.empty]⟩
  cases hold

theorem Operates.described {w w' : World} {op : Operation} (h : Operates w op w')
    (hcond : OperationDescribes w op) (hw : Described w) : Described w' := by
  cases op with
  | ingest run fates => exact h.executed.described hw h.1 hcond
  | rollback fates => exact h.rolledBack.described hw hcond
  | restart =>
    obtain ⟨-, rfl⟩ := h
    exact hw

/-- What the index holds of the active version after the unchanged path. -/
theorem reconciled_rows {run : Ingestion} {snapshot : KnowledgeSnapshot} {version : String}
    {w : World} {index : List IndexedVersion}
    (hindex : index = w.index ∧
        has_version w version run.settings.knowledge_processing_fingerprint = true ∨
      ∃ passages, index = (rebuild_version w (run.rows snapshot version passages)).index) :
    ∃ rows ∈ index, rows.graph_version = version := by
  rcases hindex with ⟨rfl, hversion⟩ | ⟨passages, rfl⟩
  · obtain ⟨rows, hrows, hmatches⟩ := List.any_eq_true.mp hversion
    simp only [Bool.and_eq_true, decide_eq_true_eq] at hmatches
    exact ⟨rows, hrows, hmatches.1.1⟩
  · exact ⟨run.rows snapshot version passages, List.mem_cons_self, rfl⟩

/-- From described directories, an ingestion that completes on the unchanged path
has an active version of its own origin. -/
theorem Executed.builtFrom {run : Ingestion} {snapshot : KnowledgeSnapshot}
    {fates : Stage → Fate} {w w' : World} (h : Executed run fates w w') (hw : Described w)
    (hfresh : Fresh w run.ingestion_id) (hcompletes : CompletesUnchanged run snapshot w w') :
    ∃ version, BuiltFrom w' version (run.origin snapshot) := by
  obtain ⟨hsource, hskips, value, hstored, hid, hcompleted⟩ := hcompletes
  obtain ⟨old, hold, -⟩ := skips_spec hskips
  have hend := h.reconcileEnd hsource hskips hold
  have hdescribed := hend.described hw hskips hold
  obtain ⟨version, hnamed, hversion⟩ := hw.skipped hskips hold
  have hstr : python_str old.activeGraphVersion = version := by
    rw [hnamed]
    rfl
  cases hend with
  | unwritten hindex =>
    obtain rfl : old = value := Option.some.inj ((stored_of_manifest hold).symm.trans hstored)
    exact absurd hid (hfresh.stored old (stored_of_manifest hold)).2.2
  | failed hvalue =>
    obtain rfl := Option.some.inj hstored
    subst hvalue
    cases hcompleted
  | unchanged hindex =>
    rw [hstr] at hindex
    obtain ⟨entry, hentry, horigin⟩ := hversion.2
    refine ⟨version, ⟨hversion.1, entry, hentry, horigin⟩,
      unchanged_manifest_active hnamed hversion.ne_empty, reconciled_rows hindex,
      fun rows hrows hrow => ?_⟩
    rw [← horigin]
    refine hdescribed.index rows hrows entry ?_
    rw [hrow]
    exact hentry

/-- In a run of an installation whose operations meet their conditions, whenever
an ingestion completes on the unchanged path, the active version and its index
were built from what the ingestion would build from. -/
theorem unchanged_runs_describe {trace : List (Transition World Operation)} {w' : World}
    (hrun : Run Operates .empty trace w')
    (hcond : ∀ e ∈ trace, OperationDescribes e.before e.label) :
    ∀ e ∈ trace, ∀ run fates snapshot, e.label = .ingest run fates →
      CompletesUnchanged run snapshot e.before e.after →
      ∃ version, BuiltFrom e.after version (run.origin snapshot) := by
  obtain ⟨-, hall⟩ := hrun.invariant described_empty hcond
    fun a op b hstep hmeets hdescribed => hstep.described hmeets hdescribed
  intro e he run fates snapshot hlabel hcompletes
  obtain ⟨hdescribed, hstep⟩ := hall e he
  rw [hlabel] at hstep
  exact hstep.executed.builtFrom hdescribed hstep.1 hcompletes

/-- A build that meets no fault in an installation without an active version. -/
theorem first_build_describes {run : Ingestion} {snapshot : KnowledgeSnapshot}
    (hsource : run.source = .ok snapshot) : IngestionDescribes run (raising []) .empty := by
  have hpasses (k : Stage) : raising [] k = .passes := if_neg (by simp)
  unfold IngestionDescribes
  rw [hsource]
  refine Or.inr (Or.inr ⟨fun _ parts htarget => ?_, fun _ => Or.inl ?_⟩)
  · cases htarget
  refine ⟨⟨?_, hpasses _, Or.inl (by simp [hpasses])⟩, fun hraised => ?_⟩
  · exact through_eq_passes.mpr fun k _ => hpasses k
  · have hprune : through (raising []) (prune_stages (run.ingestion_id :: World.empty.names)
        run.settings.knowledge_graph_versions_to_keep) = .passes :=
      through_eq_passes.mpr fun k _ => hpasses k
    simp [RaisedAfterRecord, hpasses, hprune] at hraised

/-- An ingestion of the sources `s1` on the next day. -/
def s1_again : Ingestion := ingestion_of "20250102T000000Z-0b0b0b0b" "s1" (by decide)

/-- The directories after an ingestion of unchanged sources. -/
def s1_skipped : World := (Operation.ingest s1_again (raising [])).apply first_built

/-- The ingestion and status that the stored manifest reports. -/
def reported (w : World) : Option (String × IngestionStatus) :=
  w.stored_manifest.map fun value => (value.lastIngestion.ingestionId, value.lastIngestion.status)

theorem s1_again_runs : Fresh first_built s1_again.ingestion_id ∧
    skips s1_again ⟨"s1", []⟩ first_built = true ∧
    reported s1_skipped = some (s1_again.ingestion_id, .completed) := by
  decide +kernel

theorem completes_of_reports {run : Ingestion} {snapshot : KnowledgeSnapshot} {w w' : World}
    (hsource : run.source = .ok snapshot) (hskips : skips run snapshot w = true)
    (hreports : reported w' = some (run.ingestion_id, .completed)) :
    CompletesUnchanged run snapshot w w' := by
  obtain ⟨value, hstored, hpair⟩ := Option.map_eq_some_iff.mp hreports
  rw [Prod.mk.injEq] at hpair
  exact ⟨hsource, hskips, value, hstored, hpair.1, hpair.2⟩

/-- The second ingestion of unchanged sources finds a version built from them. -/
theorem unchanged_runs_describe_again :
    ∃ version, BuiltFrom s1_skipped version (s1_again.origin ⟨"s1", []⟩) := by
  obtain ⟨hfresh, hskips, hreports⟩ := s1_again_runs
  have hskip : Operates first_built (.ingest s1_again (raising [])) s1_skipped := ⟨hfresh, rfl⟩
  have hcond : ∀ e ∈ [(⟨.empty, .ingest first_build (raising []), first_built⟩ :
      Transition World Operation), ⟨first_built, .ingest s1_again (raising []), s1_skipped⟩],
      OperationDescribes e.before e.label := by
    rw [List.forall_mem_cons, List.forall_mem_singleton]
    exact ⟨@first_build_describes first_build ⟨"s1", []⟩ rfl, Or.inl hskips⟩
  have hrun : Run Operates .empty [⟨.empty, .ingest first_build (raising []), first_built⟩,
      ⟨first_built, .ingest s1_again (raising []), s1_skipped⟩] s1_skipped :=
    (Run.nil.snoc first_build_operates).snoc hskip
  have hcompletes : CompletesUnchanged s1_again ⟨"s1", []⟩ first_built s1_skipped :=
    completes_of_reports rfl hskips hreports
  have hmem : ⟨first_built, .ingest s1_again (raising []), s1_skipped⟩ ∈
      [(⟨.empty, .ingest first_build (raising []), first_built⟩ : Transition World Operation),
        ⟨first_built, .ingest s1_again (raising []), s1_skipped⟩] :=
    List.mem_cons_of_mem _ List.mem_cons_self
  have hbuilt := unchanged_runs_describe hrun hcond _ hmem s1_again (raising []) ⟨"s1", []⟩ rfl
  dsimp only at hbuilt
  exact hbuilt hcompletes

/-- The extractor fails on the sources `s2`. -/
def s2_failed_build : Ingestion :=
  { ingestion_of "20250102T000000Z-0b0b0b0b" "s2" (by decide) with
    graphify := .error "graphify_build_failed" }

def s2_failed : World := (Operation.ingest s2_failed_build (raising [])).apply first_built

def s2_again : Ingestion := ingestion_of "20250103T000000Z-0c0c0c0c" "s2" (by decide)

def s2_skipped : World := (Operation.ingest s2_again (raising [])).apply s2_failed

theorem s2_again_runs : Fresh first_built s2_failed_build.ingestion_id ∧
    Fresh s2_failed s2_again.ingestion_id ∧ skips s2_again ⟨"s2", []⟩ s2_failed = true ∧
    reported s2_skipped = some (s2_again.ingestion_id, .completed) ∧
    active_target s2_skipped = some ["versions", "20250101T000000Z-0a0a0a0a"] ∧
    (version_named s2_skipped "20250101T000000Z-0a0a0a0a").map (·.origin.source_version) =
      some "s1" := by
  decide +kernel

/-- A build of `s1`, a failed build of `s2`, and an ingestion of `s2` that skips
the build and reports completion with the graph of `s1` active. -/
theorem failed_build_misdescribes :
    Run Operates .empty
      [⟨.empty, .ingest first_build (raising []), first_built⟩,
       ⟨first_built, .ingest s2_failed_build (raising []), s2_failed⟩,
       ⟨s2_failed, .ingest s2_again (raising []), s2_skipped⟩] s2_skipped ∧
    CompletesUnchanged s2_again ⟨"s2", []⟩ s2_failed s2_skipped ∧
    ¬ ∃ version, BuiltFrom s2_skipped version (s2_again.origin ⟨"s2", []⟩) := by
  obtain ⟨hfresh, hfresh', hskips, hreports, htarget, hname⟩ := s2_again_runs
  have hfail : Operates first_built (.ingest s2_failed_build (raising [])) s2_failed := ⟨hfresh, rfl⟩
  have hskip : Operates s2_failed (.ingest s2_again (raising [])) s2_skipped := ⟨hfresh', rfl⟩
  refine ⟨((Run.nil.snoc first_build_operates).snoc hfail).snoc hskip,
    completes_of_reports rfl hskips hreports, ?_⟩
  intro hbuilt
  obtain ⟨version, hactive, -⟩ := hbuilt
  have hparts := hactive.parts htarget
  obtain rfl : "20250101T000000Z-0a0a0a0a" = version := by simpa using hparts
  obtain ⟨-, entry, hentry, horigin⟩ := hactive
  rw [hentry, Option.map_some, horigin] at hname
  exact absurd hname (by decide)

end lagraph.knowledge
