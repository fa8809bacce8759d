import LaGraph.Knowledge.Ingestion.Build
import LaGraph.Knowledge.Ingestion.Finish

open foundation foundation.Faulty

namespace lagraph.knowledge

variable {run : Ingestion} {snapshot : KnowledgeSnapshot} {old : Option Manifest}
  {fates : Stage → Fate} {w : World}

/-- The identifier occurs nowhere in the knowledge directories. -/
structure Fresh (w : World) (id : String) : Prop where
  active : w.active ≠ .link ["versions", id]
  versions : version_named w id = none
  index : ∀ rows ∈ w.index, rows.graph_version ≠ id
  stored : ∀ value, w.stored_manifest = some value →
    value.activeGraphVersion ≠ some id ∧ value.previousGraphVersion ≠ some id ∧
      value.lastIngestion.ingestionId ≠ id

instance (w : World) (id : String) : Decidable (Fresh w id) :=
  decidable_of_iff (w.active ≠ .link ["versions", id] ∧ version_named w id = none ∧
      (∀ rows ∈ w.index, rows.graph_version ≠ id) ∧
      ∀ value ∈ w.stored_manifest, value.activeGraphVersion ≠ some id ∧
        value.previousGraphVersion ≠ some id ∧ value.lastIngestion.ingestionId ≠ id)
    ⟨fun h => ⟨h.1, h.2.1, h.2.2.1, h.2.2.2⟩,
      fun h => ⟨h.active, h.versions, h.index, h.stored⟩⟩

/-- The manifests of a build that has not completed. -/
def BuildManifest (run : Ingestion) (snapshot : KnowledgeSnapshot) (old : Option Manifest)
    (value : Manifest) : Prop :=
  value = run.running_manifest snapshot old ∨ ∃ code, value = run.failed_manifest snapshot old code

theorem BuildManifest.active {value : Manifest} {old : Option Manifest}
    (h : BuildManifest run snapshot old value) :
    value.activeGraphVersion = old.bind (·.activeGraphVersion) := by
  cases h with
  | inl hrunning =>
    subst hrunning
    rfl
  | inr hfailed =>
    obtain ⟨code, rfl⟩ := hfailed
    rfl

theorem completed_manifest_active (old : Option Manifest) :
    (run.completed_manifest snapshot old).activeGraphVersion = some run.ingestion_id :=
  python_or_some (valid_version_name_ne_empty run.valid_id) _

/-- The versions and the index after a build that may have published its version
and has then begun to remove those in `gone`. -/
structure VersionFrame (run : Ingestion) (snapshot : KnowledgeSnapshot) (gone : List String)
    (w w' : World) : Prop where
  kept : ∀ name, name ≠ run.ingestion_id → name ∉ gone →
    version_named w' name = version_named w name
  worn : ∀ name, name ≠ run.ingestion_id → Worn w w' name
  origin : ∀ entry, version_named w' run.ingestion_id = some entry →
    entry.origin = run.origin snapshot
  index : w'.index = w.index ∨ ∃ passages,
    w'.index = (rebuild_version w (run.rows snapshot run.ingestion_id passages)).index

/-- A valid version behind an unchanged link was there and valid before. -/
theorem VersionFrame.active_target {gone : List String} {w' : World} {parts : List String}
    (h : VersionFrame run snapshot gone w w') (hfresh : Fresh w run.ingestion_id)
    (hactive : w'.active = w.active) (htarget : active_target w' = some parts) :
    active_target w = some parts := by
  obtain ⟨version, rfl, hlink, hname, entry, counts, hentry, hvalid⟩ := active_target_some htarget
  rw [hactive] at hlink
  have hother : version ≠ run.ingestion_id := by
    intro hsame
    subst hsame
    exact hfresh.active hlink
  obtain ⟨before, hbefore, -, hgraph⟩ := h.worn version hother entry hentry
  cases hgraph with
  | inl hsame =>
    rw [hsame] at hvalid
    exact active_target_of_valid hlink hname hbefore hvalid
  | inr hmissing =>
    rw [hmissing] at hvalid
    cases hvalid

/-- The new version is there with a valid graph. -/
def NewVersion (run : Ingestion) (snapshot : KnowledgeSnapshot) (w' : World) : Prop :=
  ∃ graph counts, validate_graph graph = .ok counts ∧
    version_named w' run.ingestion_id = some (run.version snapshot graph)

theorem version_named_new {w' : World} {graph : GraphFile}
    (hversions : w'.versions = run.version snapshot graph :: w.versions) :
    version_named w' run.ingestion_id = some (run.version snapshot graph) := by
  rw [version_named, hversions]
  exact List.find?_cons_of_pos (by simp [Ingestion.version])

theorem version_named_other {w' : World} {graph : GraphFile} {name : String}
    (hversions : w'.versions = run.version snapshot graph :: w.versions)
    (hname : name ≠ run.ingestion_id) : version_named w' name = version_named w name := by
  rw [version_named, hversions]
  exact List.find?_cons_of_neg (by simp [Ingestion.version, Ne.symm hname])

/-- A build that stopped on the way has at most added its own version. -/
theorem versionFrame_of_progress {w' : World} (hfresh : Fresh w run.ingestion_id)
    (hversions : w'.versions = w.versions ∨ ∃ graph,
      w'.versions = run.version snapshot graph :: w.versions)
    (hindex : w'.index = w.index ∨ ∃ passages,
      w'.index = (rebuild_version w (run.rows snapshot run.ingestion_id passages)).index) :
    VersionFrame run snapshot [] w w' := by
  have hother (name : String) (hname : name ≠ run.ingestion_id) :
      version_named w' name = version_named w name := by
    cases hversions with
    | inl hsame => exact version_named_congr hsame name
    | inr hnew =>
      obtain ⟨graph, hnew⟩ := hnew
      exact version_named_other hnew hname
  refine ⟨fun name hname _ => hother name hname, fun name hname => ?_, fun entry hentry => ?_,
    hindex⟩
  · intro entry hentry
    rw [hother name hname] at hentry
    exact Worn.refl name entry hentry
  · cases hversions with
    | inl hsame =>
      rw [version_named_congr hsame, hfresh.versions] at hentry
      cases hentry
    | inr hnew =>
      obtain ⟨graph, hnew⟩ := hnew
      rw [version_named_new hnew] at hentry
      cases hentry
      rfl

/-- The world after the publication of the version. -/
structure Published (run : Ingestion) (snapshot : KnowledgeSnapshot) (w w₁ : World) : Prop where
  active : w₁.active = w.active
  stored_manifest : w₁.stored_manifest = some (run.running_manifest snapshot (manifest w))
  versions : ∃ graph counts, validate_graph graph = .ok counts ∧
    w₁.versions = run.version snapshot graph :: w.versions
  index : ∃ passages,
    w₁.index = (rebuild_version w (run.rows snapshot run.ingestion_id passages)).index

theorem Published.names {w₁ : World} (h : Published run snapshot w w₁) :
    w₁.names = run.ingestion_id :: w.names := by
  obtain ⟨graph, counts, -, hversions⟩ := h.versions
  rw [World.names, hversions, List.map_cons]
  rfl

theorem Published.newVersion {w₁ : World} (h : Published run snapshot w w₁) :
    NewVersion run snapshot w₁ := by
  obtain ⟨graph, counts, hvalid, hversions⟩ := h.versions
  exact ⟨graph, counts, hvalid, version_named_new hversions⟩

theorem Published.version_named {w₁ : World} (h : Published run snapshot w w₁) {name : String}
    (hname : name ≠ run.ingestion_id) : version_named w₁ name = version_named w name := by
  obtain ⟨graph, counts, -, hversions⟩ := h.versions
  exact version_named_other hversions hname

/-- The versions and the index once the published version is followed by the
removal of others. -/
theorem Published.frame {w₁ w' : World} {gone : List String} (h : Published run snapshot w w₁)
    (huntouched : ∀ name, name ∉ gone → lagraph.knowledge.version_named w' name =
      lagraph.knowledge.version_named w₁ name)
    (hworn : ∀ name, Worn w₁ w' name) (hindex : w'.index = w₁.index) :
    VersionFrame run snapshot gone w w' := by
  refine ⟨fun name hname hgone => ?_, fun name hname => ?_, fun entry hentry => ?_, ?_⟩
  · rw [huntouched name hgone, h.version_named hname]
  · intro entry hentry
    obtain ⟨before, hbefore, hrest⟩ := hworn name entry hentry
    rw [h.version_named hname] at hbefore
    exact ⟨before, hbefore, hrest⟩
  · obtain ⟨before, hbefore, horigin, -⟩ := hworn _ entry hentry
    obtain ⟨graph, counts, -, hnew⟩ := h.newVersion
    rw [hnew, Option.some.injEq] at hbefore
    subst hbefore
    exact horigin.symm
  · obtain ⟨passages, hpassages⟩ := h.index
    exact Or.inr ⟨passages, hindex.trans hpassages⟩

/-- The target of `active` does not see the new version. -/
theorem Published.active_target {w₁ : World} (h : Published run snapshot w w₁)
    (hfresh : Fresh w run.ingestion_id) : active_target w₁ = active_target w := by
  unfold lagraph.knowledge.active_target
  rw [h.active]
  split
  · rename_i name hactive
    have hname : name ≠ run.ingestion_id := by
      rintro rfl
      exact hfresh.active hactive
    rw [h.version_named hname]
  · rfl

/-- The build of the run begins and gets as far as replacing the link. -/
structure Reaches (run : Ingestion) (fates : Stage → Fate) (w : World) : Prop where
  begins : fates (.fsync_manifest .running) = .passes
  publishes : Publishes run fates w
  free : w.active ≠ .occupied
  replaces : through fates [.make_link, .replace_active] = .passes

/-- The run gets past its running manifest. -/
def Starts (fates : Stage → Fate) : Prop :=
  through fates [.progress .validating, .progress .converting, .replace_manifest .running] = .passes

/-- The failure of a build that raised is recorded. -/
def FailureRecorded (fates : Stage → Fate) : Prop :=
  through fates [.move_failed, .replace_manifest .failed] = .passes

/-- The ways the unchanged path ends. -/
inductive ReconcileEnd (run : Ingestion) (snapshot : KnowledgeSnapshot) (old : Manifest)
    (w : World) : World → Prop
  | unwritten {index : List IndexedVersion}
      (hindex : index = w.index ∨ ∃ passages, index =
        (rebuild_version w
          (run.rows snapshot (python_str old.activeGraphVersion) passages)).index) :
      ReconcileEnd run snapshot old w { w with index }
  | failed {value : Manifest}
      (hvalue : value = run.failed_manifest snapshot (some old) "source_index_build_failed") :
      ReconcileEnd run snapshot old w { w with stored_manifest := some value }
  | unchanged {index : List IndexedVersion}
      (hindex : index = w.index ∧ has_version w (python_str old.activeGraphVersion)
          run.settings.knowledge_processing_fingerprint = true ∨
        ∃ passages, index = (rebuild_version w
          (run.rows snapshot (python_str old.activeGraphVersion) passages)).index) :
      ReconcileEnd run snapshot old w
        { w with index, stored_manifest := some (run.unchanged_manifest snapshot old) }

/-- Everything an ingestion can leave behind, with what led there. -/
inductive Executed (run : Ingestion) (fates : Stage → Fate) (w : World) : World → Prop
  | source_failed {w' : World} {failure : SourceFailure} (hsource : run.source = .error failure)
      (hend : w' = w ∧ through fates
          [.progress .validating, .replace_manifest .source_failure] ≠ .passes ∨
        w' = { w with stored_manifest := some (source_failure_manifest run.settings
          run.ingestion_id run.started run.completed failure (manifest w)) } ∧ through fates
          [.progress .validating, .replace_manifest .source_failure] = .passes) :
      Executed run fates w w'
  | reconciled {w' : World} {snapshot : KnowledgeSnapshot} {old : Manifest}
      (hsource : run.source = .ok snapshot) (hskips : skips run snapshot w = true)
      (hold : manifest w = some old) (hend : ReconcileEnd run snapshot old w w') :
      Executed run fates w w'
  | unstarted {snapshot : KnowledgeSnapshot} (hsource : run.source = .ok snapshot)
      (hskips : skips run snapshot w = false) (hstarts : ¬ Starts fates) : Executed run fates w w
  | abandoned {w' : World} {snapshot : KnowledgeSnapshot} {value : Manifest}
      (hsource : run.source = .ok snapshot) (hskips : skips run snapshot w = false)
      (hstarts : Starts fates) (hnot : ¬ Reaches run fates w) (hactive : w'.active = w.active)
      (hstored : w'.stored_manifest = some value)
      (hvalue : BuildManifest run snapshot (manifest w) value)
      (hframe : VersionFrame run snapshot [] w w') : Executed run fates w w'
  | left {w' : World} {snapshot : KnowledgeSnapshot} {value : Manifest}
      (hsource : run.source = .ok snapshot) (hskips : skips run snapshot w = false)
      (hstarts : Starts fates) (hreaches : Reaches run fates w) (hleft : LinkLeft .completed fates)
      (hactive : w'.active = .link ["versions", run.ingestion_id])
      (hstored : w'.stored_manifest = some value)
      (hvalue : BuildManifest run snapshot (manifest w) value)
      (hframe : VersionFrame run snapshot [] w w') (hnew : NewVersion run snapshot w') :
      Executed run fates w w'
  | restored {w' : World} {snapshot : KnowledgeSnapshot} {value : Manifest} {stored : Bool}
      (hsource : run.source = .ok snapshot) (hskips : skips run snapshot w = false)
      (hstarts : Starts fates) (hreaches : Reaches run fates w)
      (hrestored : LinkRestored .completed fates stored)
      (hactive : w'.active = (active_target w).elim .absent .link)
      (hstored : w'.stored_manifest = some value)
      (hvalue : BuildManifest run snapshot (manifest w) value ∨
        value = run.completed_manifest snapshot (manifest w) ∧ stored = true ∧
          (fates .fsync_restored = .dies ∨ ¬ FailureRecorded fates))
      (hframe : VersionFrame run snapshot [] w w') (hnew : NewVersion run snapshot w') :
      Executed run fates w w'
  | recorded {w' : World} {snapshot : KnowledgeSnapshot}
      (hsource : run.source = .ok snapshot) (hskips : skips run snapshot w = false)
      (hstarts : Starts fates) (hreaches : Reaches run fates w) (hrecorded : LinkRecorded .completed fates)
      (hunless : RaisedAfterRecord run fates (run.ingestion_id :: w.names) →
        ¬ FailureRecorded fates)
      (hactive : w'.active = .link ["versions", run.ingestion_id])
      (hstored : w'.stored_manifest = some (run.completed_manifest snapshot (manifest w)))
      (hframe : VersionFrame run snapshot (run.removals fates (run.ingestion_id :: w.names)) w w')
      (hnew : run.ingestion_id ∉ run.removals fates (run.ingestion_id :: w.names) →
        NewVersion run snapshot w') : Executed run fates w w'
  | regressed {w' : World} {snapshot : KnowledgeSnapshot} {code : String}
      (hsource : run.source = .ok snapshot) (hskips : skips run snapshot w = false)
      (hstarts : Starts fates) (hreaches : Reaches run fates w) (hrecorded : LinkRecorded .completed fates)
      (hraised : RaisedAfterRecord run fates (run.ingestion_id :: w.names))
      (hfailure : FailureRecorded fates)
      (hactive : w'.active = .link ["versions", run.ingestion_id])
      (hstored : w'.stored_manifest = some (run.failed_manifest snapshot (manifest w) code))
      (hframe : VersionFrame run snapshot (run.removals fates (run.ingestion_id :: w.names)) w w')
      (hnew : run.ingestion_id ∉ run.removals fates (run.ingestion_id :: w.names) →
        NewVersion run snapshot w') : Executed run fates w w'

/-- An ingestion whose sources are unchanged only reconciles. -/
theorem Executed.reconcileEnd {old : Manifest} {w' : World} (h : Executed run fates w w')
    (hsource : run.source = .ok snapshot) (hskips : skips run snapshot w = true)
    (hold : manifest w = some old) : ReconcileEnd run snapshot old w w' := by
  have hno {other : KnowledgeSnapshot} (hother : run.source = .ok other) :
      skips run other w ≠ false := by
    obtain rfl : other = snapshot := Except.ok.inj (hother.symm.trans hsource)
    simp [hskips]
  cases h with
  | @reconciled _ other old' hother _ hold' hend =>
    obtain rfl : other = snapshot := Except.ok.inj (hother.symm.trans hsource)
    obtain rfl : old' = old := Option.some.inj (hold'.symm.trans hold)
    exact hend
  | source_failed hother _ =>
    rw [hsource] at hother
    cases hother
  | unstarted hother hskips _ => exact absurd hskips (hno hother)
  | abandoned hother hskips _ _ _ _ _ _ => exact absurd hskips (hno hother)
  | left hother hskips _ _ _ _ _ _ _ _ => exact absurd hskips (hno hother)
  | restored hother hskips _ _ _ _ _ _ _ _ => exact absurd hskips (hno hother)
  | recorded hother hskips _ _ _ _ _ _ _ _ => exact absurd hskips (hno hother)
  | regressed hother hskips _ _ _ _ _ _ _ _ _ => exact absurd hskips (hno hother)

/-- What recording a failure changes. -/
inductive FailureEnd (run : Ingestion) (snapshot : KnowledgeSnapshot) (old : Option Manifest)
    (fates : Stage → Fate) (w w' : World) : Prop
  | kept (hnot : ¬ FailureRecorded fates) (hactive : w'.active = w.active)
      (hversions : w'.versions = w.versions) (hindex : w'.index = w.index)
      (hstored : w'.stored_manifest = w.stored_manifest)
  | recorded {code : String} (hrecorded : FailureRecorded fates) (hactive : w'.active = w.active)
      (hversions : w'.versions = w.versions) (hindex : w'.index = w.index)
      (hstored : w'.stored_manifest = some (run.failed_manifest snapshot old code))

theorem record_failure_spec {error : Failure} :
    wp (record_failure run snapshot old error) fates
      (fun _ w' => FailureEnd run snapshot old fates w w') w := by
  refine wp_step_bind (fun hmove => ?_) (fun hmove o _ => .kept ?_ rfl rfl rfl rfl)
  · rw [wp_change_bind]
    have hsame : ∀ w₁ : World, w₁ = (if run.ingestion_id ∈ w.staging then
        { w with staging := w.staging.filter (· ≠ run.ingestion_id),
                 failed := run.ingestion_id :: w.failed } else w) →
        w₁.active = w.active ∧ w₁.versions = w.versions ∧ w₁.index = w.index ∧
          w₁.stored_manifest = w.stored_manifest := by
      intro w₁ hw₁
      rw [hw₁]
      split <;> exact ⟨rfl, rfl, rfl, rfl⟩
    obtain ⟨hactive, hversions, hindex, hstored⟩ := hsame _ rfl
    refine wp_mono write_manifest_spec fun o w' hend => ?_
    cases hend with
    | kept hreplace _ =>
      refine .kept (fun hrecorded => hreplace ?_) hactive hversions hindex hstored
      exact through_eq_passes.mp hrecorded _ (by simp)
    | stored hreplace _ =>
      refine .recorded ?_ hactive hversions hindex rfl
      rw [FailureRecorded, through_cons_of_passes hmove, through_cons_of_passes hreplace,
        through_nil]
  · rw [FailureRecorded, through_cons_of_not_passes hmove]
    exact hmove

/-- The world after a build and, if it raised, its handler. -/
inductive Handled (run : Ingestion) (snapshot : KnowledgeSnapshot) (old : Option Manifest)
    (fates : Stage → Fate) (o : Outcome Failure Unit) (w w' : World) : Prop
  | quiet (hquiet : ¬ ∃ error, o = .raised error) (hsame : w' = w)
  | failure (hraised : ∃ error, o = .raised error)
      (hend : FailureEnd run snapshot old fates w w')

theorem Handled.frame {o : Outcome Failure Unit} {w' : World}
    (h : Handled run snapshot old fates o w w') :
    w'.active = w.active ∧ w'.versions = w.versions ∧ w'.index = w.index := by
  cases h with
  | quiet _ hsame =>
    subst hsame
    exact ⟨rfl, rfl, rfl⟩
  | failure _ hend =>
    cases hend with
    | kept _ hactive hversions hindex _ => exact ⟨hactive, hversions, hindex⟩
    | recorded _ hactive hversions hindex _ => exact ⟨hactive, hversions, hindex⟩

theorem Handled.stored_manifest {o : Outcome Failure Unit} {w' : World}
    (h : Handled run snapshot old fates o w w') :
    w'.stored_manifest = w.stored_manifest ∧
        ((∃ error, o = .raised error) → ¬ FailureRecorded fates) ∨
      (∃ error, o = .raised error) ∧ FailureRecorded fates ∧
        ∃ code, w'.stored_manifest = some (run.failed_manifest snapshot old code) := by
  cases h with
  | quiet hquiet hsame =>
    subst hsame
    exact Or.inl ⟨rfl, fun hraised => absurd hraised hquiet⟩
  | failure hraised hend =>
    cases hend with
    | kept hnot _ _ _ hstored => exact Or.inl ⟨hstored, fun _ => hnot⟩
    | @recorded code hrecorded _ _ _ hstored => exact Or.inr ⟨hraised, hrecorded, code, hstored⟩

/-- A build that has stored no manifest but its running one leaves that or a
failed one. -/
theorem Handled.buildManifest {o : Outcome Failure Unit} {w' : World}
    (h : Handled run snapshot old fates o w w')
    (hrunning : w.stored_manifest = some (run.running_manifest snapshot old)) :
    ∃ value, w'.stored_manifest = some value ∧ BuildManifest run snapshot old value := by
  rcases h.stored_manifest with ⟨hsame, -⟩ | ⟨-, -, code, hfailed⟩
  · exact ⟨_, hsame.trans hrunning, Or.inl rfl⟩
  · exact ⟨_, hfailed, Or.inr ⟨code, rfl⟩⟩

theorem Published.switches_iff {w₁ : World} (h : Published run snapshot w w₁) :
    Switches run.ingestion_id fates w₁ ↔
      w.active ≠ .occupied ∧ through fates [.make_link, .replace_active] = .passes := by
  obtain ⟨graph, counts, hvalid, hnamed⟩ := h.newVersion
  rw [Switches, Activatable, h.active]
  constructor
  · intro hswitches
    exact ⟨hswitches.1.2, hswitches.2⟩
  · intro hfree
    exact ⟨⟨⟨_, counts, hnamed, hvalid⟩, hfree.1⟩, hfree.2⟩

theorem NewVersion.congr {w₁ w' : World} (h : NewVersion run snapshot w₁)
    (hnamed : version_named w' run.ingestion_id = version_named w₁ run.ingestion_id) :
    NewVersion run snapshot w' := by
  obtain ⟨graph, counts, hvalid, hnew⟩ := h
  exact ⟨graph, counts, hvalid, hnamed.trans hnew⟩

/-- From the published version to the end of the run. -/
theorem Published.executed {w₁ w₂ w' : World} {o : Outcome Failure Unit}
    (h : Published run snapshot w w₁) (hsource : run.source = .ok snapshot)
    (hskips : skips run snapshot w = false) (hstarts : Starts fates)
    (hfresh : Fresh w run.ingestion_id) (hbegins : fates (.fsync_manifest .running) = .passes)
    (hpublishes : Publishes run fates w)
    (hfinish : FinishEnd run snapshot (manifest w) fates w₁ o w₂)
    (hhandled : Handled run snapshot (manifest w) fates o w₂ w') : Executed run fates w w' := by
  obtain ⟨hactive, hversions, hindex⟩ := hhandled.frame
  have hreaches (hswitches : Switches run.ingestion_id fates w₁) : Reaches run fates w := by
    obtain ⟨hfree, hreplaces⟩ := h.switches_iff.mp hswitches
    exact ⟨hbegins, hpublishes, hfree, hreplaces⟩
  have hframe {gone : List String}
      (huntouched : ∀ name, name ∉ gone → lagraph.knowledge.version_named w₂ name =
        lagraph.knowledge.version_named w₁ name)
      (hworn : ∀ name, Worn w₁ w₂ name) (hindex₂ : w₂.index = w₁.index) :
      VersionFrame run snapshot gone w w' := by
    refine h.frame (fun name hname => ?_) (fun name entry hentry => ?_) (hindex.trans hindex₂)
    · rw [version_named_congr hversions, huntouched name hname]
    · rw [version_named_congr hversions] at hentry
      exact hworn name entry hentry
  cases hfinish with
  | refused hstopped hnot =>
    obtain ⟨value, hstored, hvalue⟩ := hhandled.buildManifest h.stored_manifest
    exact .abandoned hsource hskips hstarts
      (fun hr => hnot (h.switches_iff.mpr ⟨hr.free, hr.replaces⟩))
      (hactive.trans h.active) hstored hvalue
      (hframe (fun _ _ => rfl) (fun _ => Worn.refl _) rfl)
  | left hstopped hswitches hleft =>
    obtain ⟨value, hstored, hvalue⟩ := hhandled.buildManifest h.stored_manifest
    refine .left hsource hskips hstarts (hreaches hswitches) hleft hactive hstored hvalue
      (hframe (fun _ _ => rfl) (fun _ => Worn.refl _) rfl) ?_
    exact h.newVersion.congr (version_named_congr hversions _)
  | restored stored hstopped hswitches hrestored hdied =>
    have hvalue : ∃ value, w'.stored_manifest = some value ∧
        (BuildManifest run snapshot (manifest w) value ∨
          value = run.completed_manifest snapshot (manifest w) ∧ stored = true ∧
            (fates .fsync_restored = .dies ∨ ¬ FailureRecorded fates)) := by
      rcases hhandled.stored_manifest with ⟨hsame, hunless⟩ | ⟨-, -, code, hfailed⟩
      · cases stored with
        | false => exact ⟨_, hsame.trans h.stored_manifest, Or.inl (Or.inl rfl)⟩
        | true =>
          refine ⟨_, hsame, Or.inr ⟨rfl, rfl, ?_⟩⟩
          cases o with
          | returned a => exact absurd rfl (hstopped a)
          | raised error => exact Or.inr (hunless ⟨error, rfl⟩)
          | died => exact Or.inl (hdied rfl)
      · exact ⟨_, hfailed, Or.inl (Or.inr ⟨code, rfl⟩)⟩
    obtain ⟨value, hstored, hvalue⟩ := hvalue
    refine .restored hsource hskips hstarts (hreaches hswitches) hrestored ?_ hstored hvalue
      (hframe (fun _ _ => rfl) (fun _ => Worn.refl _) rfl)
      (h.newVersion.congr (version_named_congr hversions _))
    rw [hactive, World.reverted, h.active_target hfresh]
  | recorded hswitches hrecorded hraised hactive₂ hstored₂ hindex₂ huntouched hworn =>
    rw [h.names] at hraised huntouched
    have hnew (hkept : run.ingestion_id ∉ run.removals fates (run.ingestion_id :: w.names)) :
        NewVersion run snapshot w' := by
      refine h.newVersion.congr ?_
      rw [version_named_congr hversions, huntouched _ hkept]
    rcases hhandled.stored_manifest with ⟨hsame, hunless⟩ | ⟨ho, hfailure, code, hfailed⟩
    · exact .recorded hsource hskips hstarts (hreaches hswitches) hrecorded
        (fun hr => hunless (hraised.mpr hr)) (hactive.trans hactive₂) (hsame.trans hstored₂)
        (hframe huntouched hworn hindex₂) hnew
    · exact .regressed hsource hskips hstarts (hreaches hswitches) hrecorded (hraised.mp ho)
        hfailure (hactive.trans hactive₂) hfailed (hframe huntouched hworn hindex₂) hnew

/-- A build that published has the shape `Published` asks for. -/
theorem BuildEnd.published_of {w₁ : World} {o : Outcome Failure Unit} (hreturned : ¬ Stopped o)
    (h : BuildEnd run snapshot fates
      { w with stored_manifest := some (run.running_manifest snapshot (manifest w)) } o w₁) :
    Publishes run fates w ∧ Published run snapshot w w₁ := by
  cases h with
  | stopped hstopped _ _ => exact absurd hstopped hreturned
  | @published _ graph passages hbuildable hstages hversions hindex hprogress =>
    obtain ⟨hstaging, hgenerated, ⟨counts, hvalid⟩, hindexed, hunused⟩ := hbuildable
    refine ⟨⟨⟨graph, passages, hstaging, hgenerated, ⟨counts, hvalid⟩, hindexed, hunused⟩,
      hstages⟩, hprogress.active, hprogress.stored_manifest, ⟨graph, counts, hvalid, hversions⟩,
      passages, hindex⟩

/-- A build that stopped before it published. -/
theorem BuildEnd.abandoned {w₂ w' : World} {o : Outcome Failure Unit} (hstopped : Stopped o)
    (h : BuildEnd run snapshot fates
      { w with stored_manifest := some (run.running_manifest snapshot (manifest w)) } o w₂)
    (hsource : run.source = .ok snapshot) (hskips : skips run snapshot w = false)
    (hstarts : Starts fates) (hfresh : Fresh w run.ingestion_id)
    (hhandled : Handled run snapshot (manifest w) fates o w₂ w') : Executed run fates w w' := by
  cases h with
  | published _ _ _ _ _ => exact absurd rfl (hstopped ())
  | stopped _ hnot hprogress =>
    obtain ⟨hactive, hversions, hindex⟩ := hhandled.frame
    obtain ⟨value, hstored, hvalue⟩ := hhandled.buildManifest hprogress.stored_manifest
    refine .abandoned hsource hskips hstarts (fun hreaches => hnot ?_)
      (hactive.trans hprogress.active) hstored hvalue (versionFrame_of_progress hfresh ?_ ?_)
    · obtain ⟨⟨graph, passages, hbuildable⟩, hstages⟩ := hreaches.publishes
      exact ⟨⟨graph, passages, hbuildable.fresh_staging, hbuildable.generated, hbuildable.valid,
        hbuildable.indexed, hbuildable.unused⟩, hstages⟩
    · rw [hversions]
      cases hprogress.versions with
      | inl hsame => exact Or.inl hsame
      | inr hnew =>
        obtain ⟨graph, counts, -, -, hnew⟩ := hnew
        exact Or.inr ⟨graph, hnew⟩
    · rw [hindex]
      exact hprogress.index

/-- The build of a run, from its running manifest on. -/
theorem build_spec (hsource : run.source = .ok snapshot) (hskips : skips run snapshot w = false)
    (hstarts : Starts fates) (hfresh : Fresh w run.ingestion_id)
    (hbegins : fates (.fsync_manifest .running) = .passes) :
    wp (recover
      (do
        build_version run snapshot
        finish_version run snapshot (manifest w))
      (record_failure run snapshot (manifest w))) fates (fun _ w' => Executed run fates w w')
      { w with stored_manifest := some (run.running_manifest snapshot (manifest w)) } := by
  have hbody : wp (do
      build_version run snapshot
      finish_version run snapshot (manifest w)) fates (fun o w₂ => ∀ w',
        Handled run snapshot (manifest w) fates o w₂ w' → Executed run fates w w')
      { w with stored_manifest := some (run.running_manifest snapshot (manifest w)) } := by
    refine wp_bind_of build_version_spec (fun a w₁ hend => ?_)
      (fun error w₂ hend w' => hend.abandoned stopped_raised hsource hskips hstarts hfresh)
      (fun w₂ hend w' => hend.abandoned stopped_died hsource hskips hstarts hfresh)
    obtain ⟨hpublishes, hpublished⟩ := hend.published_of (fun h => h a rfl)
    refine wp_mono finish_version_spec fun o w₂ hfinish w' hhandled => ?_
    exact hpublished.executed hsource hskips hstarts hfresh hbegins hpublishes hfinish hhandled
  refine wp_recover_of hbody (fun a w₂ h => h w₂ (.quiet (by simp) rfl)) (fun error w₂ h => ?_)
    (fun w₂ h => h w₂ (.quiet (by simp) rfl))
  exact wp_mono record_failure_spec fun _ w' hend => h w' (.failure ⟨error, rfl⟩ hend)

/-- The index of the active version, rebuilt; a failure to do so is recorded. -/
theorem reconcile_index_spec {old : Manifest} :
    wp (recover
      (do
        rebuild_index .reconcile_index run snapshot (python_str old.activeGraphVersion)
        pure true)
      (fun _ => do
        write_manifest .reconcile_failure
          (run.failed_manifest snapshot (some old) "source_index_build_failed")
        pure false)) fates
      (fun o w' => (o = .returned true ∧ ∃ passages, w' = rebuild_version w
          (run.rows snapshot (python_str old.activeGraphVersion) passages)) ∨
        o ≠ .returned true ∧ ReconcileEnd run snapshot old w w') w := by
  have hbody : wp (do
      rebuild_index .reconcile_index run snapshot (python_str old.activeGraphVersion)
      pure true) fates (fun o w' => (o = .returned true ∧ ∃ passages, w' = rebuild_version w
          (run.rows snapshot (python_str old.activeGraphVersion) passages)) ∨
        Stopped o ∧ w' = w) w := by
    refine wp_bind_of rebuild_index_spec (fun _ w' hend => ?_) (fun error w' hend => ?_)
      (fun w' hend => ?_)
    · cases hend with
      | rebuilt _ _ => exact Or.inl ⟨rfl, _, rfl⟩
      | stopped hstopped _ => exact absurd rfl (hstopped ())
    · cases hend with
      | stopped _ _ => exact Or.inr ⟨stopped_raised, rfl⟩
    · cases hend with
      | stopped _ _ => exact Or.inr ⟨stopped_died, rfl⟩
  refine wp_recover_of hbody (fun rebuilt w' h => ?_) (fun error w' h => ?_) (fun w' h => ?_)
  · rcases h with hrebuilt | ⟨hstopped, -⟩
    · exact Or.inl hrebuilt
    · exact absurd rfl (hstopped rebuilt)
  · rcases h with ⟨herror, -⟩ | ⟨-, rfl⟩
    · cases herror
    · have hend {o : Outcome Failure Unit} {o' : Outcome Failure Bool} {w₁ : World}
          (hwrite : WriteEnd .reconcile_failure
            (run.failed_manifest snapshot (some old) "source_index_build_failed") fates w' o w₁)
          (ho' : o' ≠ .returned true) : o' ≠ .returned true ∧ ReconcileEnd run snapshot old w' w₁ := by
        refine ⟨ho', ?_⟩
        cases hwrite with
        | kept _ _ => exact .unwritten (Or.inl rfl)
        | stored _ _ => exact .failed rfl
      exact wp_bind_of write_manifest_spec
        (fun _ _ h => Or.inr (hend h (fun hreturned => by cases hreturned)))
        (fun _ _ h => Or.inr (hend h (by simp))) (fun _ h => Or.inr (hend h (by simp)))
  · rcases h with ⟨hdied, -⟩ | ⟨-, rfl⟩
    · cases hdied
    · exact Or.inr ⟨by simp, .unwritten (Or.inl rfl)⟩

theorem reconcile_spec {old : Manifest} :
    wp (reconcile run snapshot old) fates (fun _ w' => ReconcileEnd run snapshot old w w') w := by
  refine wp_step_bind (fun hopen => ?_) (fun _ _ _ => .unwritten (Or.inl rfl))
  rw [wp_read_bind]
  by_cases hversion : has_version w (python_str old.activeGraphVersion)
      run.settings.knowledge_processing_fingerprint = true
  · rw [if_pos hversion]
    refine wp_mono write_manifest_spec fun o w' hend => ?_
    cases hend with
    | kept _ _ => exact .unwritten (Or.inl rfl)
    | stored _ _ => exact .unchanged (Or.inl ⟨rfl, hversion⟩)
  · rw [if_neg hversion]
    refine wp_bind_of reconcile_index_spec (fun rebuilt w₁ h => ?_) (fun error w₁ h => ?_)
      (fun w₁ h => ?_)
    · rcases h with ⟨hrebuilt, passages, rfl⟩ | ⟨hrebuilt, hend⟩
      · obtain rfl : rebuilt = true := by simpa using hrebuilt
        rw [if_pos rfl]
        refine wp_mono write_manifest_spec fun o w' hend => ?_
        cases hend with
        | kept _ _ => exact .unwritten (Or.inr ⟨passages, rfl⟩)
        | stored _ _ => exact .unchanged (Or.inr ⟨passages, rfl⟩)
      · have hfalse : rebuilt = false := by simpa using hrebuilt
        rw [hfalse]
        exact hend
    · rcases h with ⟨hrebuilt, -⟩ | ⟨-, hend⟩
      · cases hrebuilt
      · exact hend
    · rcases h with ⟨hrebuilt, -⟩ | ⟨-, hend⟩
      · cases hrebuilt
      · exact hend

/-- What the unchanged path has checked. -/
theorem skips_spec (h : skips run snapshot w = true) : ∃ old, manifest w = some old ∧
    run.force = false ∧ old.sourceVersion = some snapshot.source_version ∧
    old.graphifyVersion = run.settings.graphify_package_version ∧
    old.processingFingerprint = some run.settings.knowledge_processing_fingerprint ∧
    has_valid_active_graph w = true := by
  unfold skips at h
  cases hold : manifest w with
  | none =>
    rw [hold] at h
    cases h
  | some old =>
    rw [hold] at h
    simp only [Bool.and_eq_true, Bool.not_eq_true', decide_eq_true_eq, and_assoc] at h
    exact ⟨old, rfl, h⟩

theorem unstarted_spec (hsource : run.source = .ok snapshot) {k : Stage}
    (hmem : k = .progress .validating ∨ k = .progress .converting) (hk : fates k ≠ .passes) :
    Executed run fates w w := by
  cases hskips : skips run snapshot w with
  | true =>
    obtain ⟨old, hold, -⟩ := skips_spec hskips
    exact .reconciled hsource hskips hold (.unwritten (Or.inl rfl))
  | false =>
    refine .unstarted hsource hskips fun hstarts => hk (through_eq_passes.mp hstarts k ?_)
    cases hmem with
    | inl hvalidating => simp [hvalidating]
    | inr hconverting => simp [hconverting]

/-- A running manifest that could not be written, or not be synced, ends the
run. -/
theorem WriteEnd.unbuilt {o : Outcome Failure Unit} {w' : World} (hstopped : Stopped o)
    (h : WriteEnd .running (run.running_manifest snapshot (manifest w)) fates w o w')
    (hreport : fates (.progress .validating) = .passes)
    (hconvert : fates (.progress .converting) = .passes) (hsource : run.source = .ok snapshot)
    (hskips : skips run snapshot w = false) (hfresh : Fresh w run.ingestion_id) :
    Executed run fates w w' := by
  cases h with
  | kept hreplace _ =>
    exact .unstarted hsource hskips fun hstarts =>
      hreplace (through_eq_passes.mp hstarts _ (by simp))
  | stored hreplace ho =>
    have hstarts : Starts fates := by
      rw [Starts, through_cons_of_passes hreport, through_cons_of_passes hconvert,
        through_cons_of_passes hreplace, through_nil]
    refine .abandoned hsource hskips hstarts (fun hreaches => ?_) rfl rfl (Or.inl rfl)
      (versionFrame_of_progress hfresh (Or.inl rfl) (Or.inl rfl))
    rw [hreaches.begins] at ho
    cases o with
    | returned a => exact hstopped a rfl
    | raised error => exact ho
    | died => exact ho

/-- Everything an ingestion can do. -/
theorem execute_spec (hfresh : Fresh w run.ingestion_id) :
    wp (execute run) fates (fun _ w' => Executed run fates w w') w := by
  unfold execute
  rw [wp_read_bind]
  cases hsource : run.source with
  | error failure =>
    refine wp_step_bind (fun hreport => ?_) (fun hreport _ _ => .source_failed hsource (Or.inl
      ⟨rfl, by rwa [through_cons_of_not_passes hreport]⟩))
    refine wp_mono write_manifest_spec fun o w' hend => ?_
    cases hend with
    | kept hreplace _ =>
      refine .source_failed hsource (Or.inl ⟨rfl, ?_⟩)
      rwa [through_cons_of_passes hreport, through_cons_of_not_passes hreplace]
    | stored hreplace _ =>
      refine .source_failed hsource (Or.inr ⟨rfl, ?_⟩)
      rw [through_cons_of_passes hreport, through_cons_of_passes hreplace, through_nil]
  | ok snapshot =>
    refine wp_step_bind (fun hreport => ?_)
      (fun hreport _ _ => unstarted_spec hsource (Or.inl rfl) hreport)
    refine wp_step_bind (fun hconvert => ?_)
      (fun hconvert _ _ => unstarted_spec hsource (Or.inr rfl) hconvert)
    cases hskips : skips run snapshot w with
    | true =>
      obtain ⟨old, hold, -⟩ := skips_spec hskips
      rw [hold]
      exact wp_mono reconcile_spec fun _ w' hend => .reconciled hsource hskips hold hend
    | false =>
      have hbuild : wp (do
          write_manifest .running (run.running_manifest snapshot (manifest w))
          recover
            (do
              build_version run snapshot
              finish_version run snapshot (manifest w))
            (record_failure run snapshot (manifest w))) fates
          (fun _ w' => Executed run fates w w') w := by
        refine wp_bind_of write_manifest_spec (fun _ w₁ hend => ?_)
          (fun _ _ hend => hend.unbuilt stopped_raised hreport hconvert hsource hskips hfresh)
          (fun _ hend => hend.unbuilt stopped_died hreport hconvert hsource hskips hfresh)
        cases hend with
        | kept hreplace ho => exact absurd ho.returned hreplace
        | stored hreplace ho =>
          refine build_spec hsource hskips ?_ hfresh ho.returned
          rw [Starts, through_cons_of_passes hreport, through_cons_of_passes hconvert,
            through_cons_of_passes hreplace, through_nil]
      revert hbuild
      cases manifest w with
      | none => exact id
      | some old => exact id

end lagraph.knowledge
