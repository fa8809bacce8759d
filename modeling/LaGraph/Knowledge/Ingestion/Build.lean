import LaGraph.Knowledge.Ingestion

open foundation foundation.Faulty

namespace lagraph.knowledge

variable {run : Ingestion} {snapshot : KnowledgeSnapshot} {fates : Stage → Fate} {w : World}

/-- The steps of a build up to the publication of its version. -/
def BUILD_STAGES : List Stage :=
  [.make_staging, .copy_sources, .progress .buildingGraph, .run_graphify, .make_publish,
   .progress .indexing, .build_index, .seal_publish, .move_version, .fsync_versions]

/-- The version a build publishes. -/
def Ingestion.version (run : Ingestion) (snapshot : KnowledgeSnapshot) (graph : GraphFile) :
    GraphVersion :=
  { name := run.ingestion_id, graph, origin := run.origin snapshot }

/-- What a build needs besides steps that go through: a fresh staging directory,
a valid graph, an indexed snapshot and an unused version name. -/
structure Buildable (run : Ingestion) (w : World) (graph : GraphFile) (passages : Nat) : Prop where
  fresh_staging : run.ingestion_id ∉ w.staging
  generated : run.graphify = .ok graph
  valid : ∃ counts, validate_graph graph = .ok counts
  indexed : run.passages = some passages
  unused : version_named w run.ingestion_id = none

/-- The build publishes its version. -/
def Publishes (run : Ingestion) (fates : Stage → Fate) (w : World) : Prop :=
  (∃ graph passages, Buildable run w graph passages) ∧ through fates BUILD_STAGES = .passes

/-- How far the versions and the index have come when a build ends. -/
structure BuildProgress (run : Ingestion) (snapshot : KnowledgeSnapshot) (w w' : World) :
    Prop where
  active : w'.active = w.active
  stored_manifest : w'.stored_manifest = w.stored_manifest
  versions : w'.versions = w.versions ∨ ∃ graph counts, validate_graph graph = .ok counts ∧
    version_named w run.ingestion_id = none ∧
    w'.versions = run.version snapshot graph :: w.versions
  index : w'.index = w.index ∨ ∃ passages,
    w'.index = (rebuild_version w (run.rows snapshot run.ingestion_id passages)).index

/-- The ways a build ends: its version is published, or it stops on the way. -/
inductive BuildEnd (run : Ingestion) (snapshot : KnowledgeSnapshot) (fates : Stage → Fate)
    (w : World) : Outcome Failure Unit → World → Prop
  | published {w' : World} {graph : GraphFile} {passages : Nat}
      (hbuildable : Buildable run w graph passages)
      (hstages : through fates BUILD_STAGES = .passes)
      (hversions : w'.versions = run.version snapshot graph :: w.versions)
      (hindex : w'.index =
        (rebuild_version w (run.rows snapshot run.ingestion_id passages)).index)
      (hprogress : BuildProgress run snapshot w w') : BuildEnd run snapshot fates w (.returned ()) w'
  | stopped {o : Outcome Failure Unit} {w' : World} (hstopped : Stopped o)
      (hnot : ¬ Publishes run fates w) (hprogress : BuildProgress run snapshot w w') :
      BuildEnd run snapshot fates w o w'

theorem BuildEnd.at_stage {k : Stage} {o : Outcome Failure Unit} {w' : World}
    (hmem : k ∈ BUILD_STAGES) (hk : fates k ≠ .passes) (hstopped : Stopped o)
    (hprogress : BuildProgress run snapshot w w') : BuildEnd run snapshot fates w o w' := by
  refine .stopped hstopped ?_ hprogress
  intro hpublishes
  exact hk (through_eq_passes.mp hpublishes.2 k hmem)

theorem BuildEnd.not_buildable {o : Outcome Failure Unit} {w' : World}
    (hnot : ∀ graph passages, ¬ Buildable run w graph passages) (hstopped : Stopped o)
    (hprogress : BuildProgress run snapshot w w') : BuildEnd run snapshot fates w o w' := by
  refine .stopped hstopped ?_ hprogress
  intro hpublishes
  obtain ⟨graph, passages, hbuildable⟩ := hpublishes.1
  exact hnot graph passages hbuildable

/-- The ways rebuilding the index ends: the version's rows are replaced, or it
stops with the index as it was. -/
inductive IndexEnd (stage : Stage) (run : Ingestion) (snapshot : KnowledgeSnapshot)
    (graph_version : String) (fates : Stage → Fate) (w : World) :
    Outcome Failure Unit → World → Prop
  | rebuilt {passages : Nat} (hstage : fates stage = .passes)
      (hpassages : run.passages = some passages) :
      IndexEnd stage run snapshot graph_version fates w (.returned ())
        (rebuild_version w (run.rows snapshot graph_version passages))
  | stopped {o : Outcome Failure Unit} (hstopped : Stopped o)
      (hnot : fates stage ≠ .passes ∨ run.passages = none) :
      IndexEnd stage run snapshot graph_version fates w o w

theorem rebuild_index_spec {stage : Stage} {graph_version : String} :
    wp (rebuild_index stage run snapshot graph_version) fates
      (IndexEnd stage run snapshot graph_version fates w) w := by
  refine wp_step_bind (fun hstage => ?_) (fun hstage o ho => .stopped ho (Or.inl hstage))
  cases hpassages : run.passages with
  | none => exact .stopped stopped_raised (Or.inr hpassages)
  | some passages => exact .rebuilt hstage hpassages

/-- A failure to index a build is reported under another name. -/
theorem rebuild_index_renamed_spec {stage : Stage} {graph_version : String} {error : Failure} :
    wp (recover (rebuild_index stage run snapshot graph_version) (fun _ => raise error)) fates
      (IndexEnd stage run snapshot graph_version fates w) w := by
  refine wp_recover_of rebuild_index_spec (fun _ _ h => h) (fun e w' h => ?_) (fun _ h => h)
  cases h with
  | stopped _ hnot => exact .stopped stopped_raised hnot

theorem version_named_congr {w w' : World} (h : w'.versions = w.versions) (name : String) :
    version_named w' name = version_named w name := by
  rw [version_named, version_named, h]

theorem rebuild_version_index_congr {w w' : World} (h : w'.index = w.index)
    (rows : IndexedVersion) : (rebuild_version w' rows).index = (rebuild_version w rows).index := by
  rw [rebuild_version, rebuild_version, h]

/-- The second half of a build, from a world in which only the staging directory
is new. -/
theorem publish_version_spec {staged : World} {graph : GraphFile} {counts : Nat × Nat}
    (hstaging : run.ingestion_id ∉ w.staging) (hgenerated : run.graphify = .ok graph)
    (hvalid : validate_graph graph = .ok counts)
    (hstages : through fates
      [.make_staging, .copy_sources, .progress .buildingGraph, .run_graphify] = .passes)
    (hactive : staged.active = w.active) (hstored : staged.stored_manifest = w.stored_manifest)
    (hversions : staged.versions = w.versions) (hindex : staged.index = w.index) :
    wp (publish_version run snapshot graph) fates (BuildEnd run snapshot fates w) staged := by
  have hstaged : BuildProgress run snapshot w staged :=
    ⟨hactive, hstored, Or.inl hversions, Or.inl hindex⟩
  refine wp_step_bind (fun hmake => ?_)
    (fun h o ho => .at_stage (by simp [BUILD_STAGES]) h ho hstaged)
  refine wp_step_bind (fun hreport => ?_)
    (fun h o ho => .at_stage (by simp [BUILD_STAGES]) h ho hstaged)
  have hindexed {o : Outcome Failure Unit} {w' : World} (ho : Stopped o)
      (h : IndexEnd .build_index run snapshot run.ingestion_id fates staged o w') :
      BuildEnd run snapshot fates w o w' := by
    cases h with
    | rebuilt _ _ => exact absurd rfl (ho ())
    | stopped hstopped hnot =>
      cases hnot with
      | inl hstage => exact .at_stage (by simp [BUILD_STAGES]) hstage hstopped hstaged
      | inr hnone =>
        refine .not_buildable (fun _ _ hb => ?_) hstopped hstaged
        have hsome := hb.indexed
        rw [hnone] at hsome
        cases hsome
  refine wp_bind_of rebuild_index_renamed_spec (fun _ w₁ h => ?_)
    (fun _ _ h => hindexed stopped_raised h) (fun _ h => hindexed stopped_died h)
  cases h with
  | stopped hstopped _ => exact absurd rfl (hstopped ())
  | @rebuilt passages hindexes hpassages =>
  have hrows := rebuild_version_index_congr hindex (run.rows snapshot run.ingestion_id passages)
  have hrebuilt : BuildProgress run snapshot w
      (rebuild_version staged (run.rows snapshot run.ingestion_id passages)) :=
    ⟨hactive, hstored, Or.inl hversions, Or.inr ⟨passages, hrows⟩⟩
  refine wp_step_bind (fun hseal => ?_)
    (fun h o ho => .at_stage (by simp [BUILD_STAGES]) h ho hrebuilt)
  rw [wp_read_bind]
  have hnamed : version_named
      (rebuild_version staged (run.rows snapshot run.ingestion_id passages)) run.ingestion_id =
      version_named w run.ingestion_id := version_named_congr hversions _
  rw [hnamed]
  refine wp_raiseIf_bind (fun hunused => ?_)
    (fun hused => .not_buildable (fun _ _ hb => hused hb.unused) stopped_raised hrebuilt)
  rw [not_not] at hunused
  refine wp_step_bind (fun hmove => ?_)
    (fun h o ho => .at_stage (by simp [BUILD_STAGES]) h ho hrebuilt)
  rw [wp_change_bind]
  have hadded : run.version snapshot graph :: staged.versions =
      run.version snapshot graph :: w.versions := by rw [hversions]
  have hmoved : BuildProgress run snapshot w
      { rebuild_version staged (run.rows snapshot run.ingestion_id passages) with
        versions := run.version snapshot graph :: staged.versions } :=
    ⟨hactive, hstored, Or.inr ⟨graph, counts, hvalid, hunused, hadded⟩,
      Or.inr ⟨passages, hrows⟩⟩
  refine wp_step_of (fun hsync => ?_)
    (fun h o ho => .at_stage (by simp [BUILD_STAGES]) h ho hmoved)
  refine .published ⟨hstaging, hgenerated, ⟨counts, hvalid⟩, hpassages, hunused⟩ ?_
    hadded hrows hmoved
  rw [show BUILD_STAGES = [.make_staging, .copy_sources, .progress .buildingGraph,
    .run_graphify] ++ [.make_publish, .progress .indexing, .build_index, .seal_publish,
    .move_version, .fsync_versions] from rfl, through_append_of_passes hstages,
    through_eq_passes]
  simp [hmake, hreport, hindexes, hseal, hmove, hsync]

theorem build_version_spec :
    wp (build_version run snapshot) fates (BuildEnd run snapshot fates w) w := by
  have hstart : BuildProgress run snapshot w w := ⟨rfl, rfl, Or.inl rfl, Or.inl rfl⟩
  have hstaged : BuildProgress run snapshot w { w with staging := run.ingestion_id :: w.staging } :=
    ⟨rfl, rfl, Or.inl rfl, Or.inl rfl⟩
  unfold build_version
  simp only [wp_read_bind]
  refine wp_raiseIf_bind (fun hstaging => ?_)
    (fun h => .not_buildable (fun _ _ hb => hb.fresh_staging h) stopped_raised hstart)
  refine wp_step_bind (fun hmake => ?_)
    (fun h o ho => .at_stage (by simp [BUILD_STAGES]) h ho hstart)
  rw [wp_change_bind]
  refine wp_step_bind (fun hcopy => ?_)
    (fun h o ho => .at_stage (by simp [BUILD_STAGES]) h ho hstaged)
  refine wp_step_bind (fun hreport => ?_)
    (fun h o ho => .at_stage (by simp [BUILD_STAGES]) h ho hstaged)
  refine wp_step_bind (fun hrun => ?_)
    (fun h o ho => .at_stage (by simp [BUILD_STAGES]) h ho hstaged)
  cases hgraphify : run.graphify with
  | error code =>
    refine .not_buildable (fun _ _ hb => ?_) stopped_raised hstaged
    have hgenerated := hb.generated
    rw [hgraphify] at hgenerated
    cases hgenerated
  | ok graph =>
    refine wp_ofExcept_bind (fun counts hvalid => ?_) (fun error hinvalid => ?_)
    · refine publish_version_spec hstaging hgraphify hvalid ?_ rfl rfl rfl rfl
      rw [through_eq_passes]
      simp [hmake, hcopy, hreport, hrun]
    · refine .not_buildable (fun _ _ hb => ?_) stopped_raised hstaged
      have hgenerated := hb.generated
      obtain ⟨counts, hcounts⟩ := hb.valid
      rw [hgraphify] at hgenerated
      cases hgenerated
      rw [hinvalid] at hcounts
      cases hcounts

end lagraph.knowledge
