import LaGraph.Knowledge.Operations

open foundation foundation.Faulty

namespace lagraph.knowledge

section

variable {run : Ingestion} {snapshot : KnowledgeSnapshot} {fates : Stage → Fate} {w w' : World}

/-- The manifest gives the sources, the extractor and the configuration of the
origin. -/
def Manifest.Claims (value : Manifest) (origin : Origin) : Prop :=
  value.sourceVersion = some origin.source_version ∧
    value.graphifyVersion = origin.graphify_version ∧
    value.processingFingerprint = some origin.processing_fingerprint

/-- The link leads to a valid version of that name, built from the origin. -/
def ActiveVersion (w : World) (version : String) (origin : Origin) : Prop :=
  active_target w = some ["versions", version] ∧
    ∃ entry, version_named w version = some entry ∧ entry.origin = origin

/-- The rows of the index were built from the origin. -/
def IndexedVersion.From (rows : IndexedVersion) (origin : Origin) : Prop :=
  rows.source_version = origin.source_version ∧
    rows.processing_fingerprint = origin.processing_fingerprint

/-- What a manifest claims is what the version behind a valid link was built
from, and so is what the index holds of a version. -/
structure Described (w : World) : Prop where
  claims : ∀ old origin parts, manifest w = some old → old.Claims origin →
    active_target w = some parts →
    ∃ version, old.activeGraphVersion = some version ∧ ActiveVersion w version origin
  index : ∀ rows ∈ w.index, ∀ entry, version_named w rows.graph_version = some entry →
    rows.From entry.origin

/-- The run takes the unchanged path and reports that it has completed. -/
structure CompletesUnchanged (run : Ingestion) (snapshot : KnowledgeSnapshot) (w w' : World) :
    Prop where
  source : run.source = .ok snapshot
  skips : skips run snapshot w = true
  reports : ∃ value, w'.stored_manifest = some value ∧
    value.lastIngestion.ingestionId = run.ingestion_id ∧
    value.lastIngestion.status = .completed

/-- The manifest names the version the link leads to, and that version and its
rows in the source index were built from the origin. -/
structure BuiltFrom (w : World) (version : String) (origin : Origin) : Prop where
  active : ActiveVersion w version origin
  named : w.stored_manifest.bind (·.activeGraphVersion) = some version
  indexed : ∃ rows ∈ w.index, rows.graph_version = version
  index : ∀ rows ∈ w.index, rows.graph_version = version → rows.From origin

/-- The version behind the link, if it is valid, is of the origin the run would
build from, and it is the one the manifest read at the start names. -/
def CarriesOver (run : Ingestion) (snapshot : KnowledgeSnapshot) (w : World) : Prop :=
  ∀ parts, active_target w = some parts → ∃ version,
    (manifest w).bind (·.activeGraphVersion) = some version ∧
      ActiveVersion w version (run.origin snapshot)

/-- The condition under which an ingestion keeps the manifest true of the active
version. -/
def IngestionDescribes (run : Ingestion) (fates : Stage → Fate) (w : World) : Prop :=
  match run.source with
  | .error _ => True
  | .ok snapshot => skips run snapshot w = true ∨ ¬ Starts fates ∨
    (¬ Reaches run fates w → CarriesOver run snapshot w) ∧ (Reaches run fates w →
      LinkRecorded .completed fates ∧
        (RaisedAfterRecord run fates (run.ingestion_id :: w.names) → ¬ FailureRecorded fates) ∨
      ∃ stored, LinkRestored .completed fates stored ∧ CarriesOver run snapshot w ∧
        (has_valid_active_graph w = true → stored = true →
          fates .fsync_restored ≠ .dies ∧ FailureRecorded fates))

/-- The condition under which a rollback keeps the manifest true of the active
version. -/
def RollbackDescribes (fates : Stage → Fate) (w : World) : Prop :=
  ∀ old previous, RollsBackTo w old previous → Switches previous fates w →
    LinkRecorded .rolled_back fates ∧
      (∀ entry origin, version_named w previous = some entry → old.Claims origin →
        entry.origin = origin) ∨
    ∃ stored, LinkRestored .rolled_back fates stored ∧
      (stored = true → has_valid_active_graph w = false)

theorem manifest_of_claims {settings : Settings} {id started : String} {status : IngestionStatus}
    {completed error active : Option String} {old : Option Manifest} {origin : Origin}
    (h : (manifest_of settings snapshot id status started completed error old active).Claims
      origin) : origin = ⟨snapshot.source_version, settings.graphify_package_version,
        settings.knowledge_processing_fingerprint⟩ := by
  obtain ⟨hsource, hgraphify, hfingerprint⟩ := h
  cases origin
  simp only [manifest_of, Option.some.injEq] at hsource hgraphify hfingerprint
  rw [hsource, hgraphify, hfingerprint]

theorem BuildManifest.claims {value : Manifest} {old : Option Manifest} {origin : Origin}
    (h : BuildManifest run snapshot old value) (hclaims : value.Claims origin) :
    origin = run.origin snapshot := by
  cases h with
  | inl hrunning =>
    subst hrunning
    exact manifest_of_claims hclaims
  | inr hfailed =>
    obtain ⟨code, rfl⟩ := hfailed
    exact manifest_of_claims hclaims

theorem ActiveVersion.parts {version : String} {origin : Origin} {parts : List String}
    (h : ActiveVersion w version origin) (hparts : active_target w = some parts) :
    parts = ["versions", version] :=
  Option.some.inj (hparts.symm.trans h.1)

end

variable {run : Ingestion} {snapshot : KnowledgeSnapshot} {fates : Stage → Fate} {w w' : World}
  {gone : List String}

/-- The rows a build writes are of its own version, and no others change. -/
theorem Described.frame_index (hw : Described w) (hfresh : Fresh w run.ingestion_id)
    (hframe : VersionFrame run snapshot gone w w') : ∀ rows ∈ w'.index, ∀ entry,
      version_named w' rows.graph_version = some entry → rows.From entry.origin := by
  have hkept {rows : IndexedVersion} (hrows : rows ∈ w.index) (entry : GraphVersion)
      (hentry : version_named w' rows.graph_version = some entry) : rows.From entry.origin := by
    have hother : rows.graph_version ≠ run.ingestion_id := hfresh.index rows hrows
    obtain ⟨before, hbefore, horigin, -⟩ := hframe.worn _ hother entry hentry
    rw [← horigin]
    exact hw.index rows hrows before hbefore
  intro rows hrows entry hentry
  cases hframe.index with
  | inl hsame =>
    rw [hsame] at hrows
    exact hkept hrows entry hentry
  | inr hrebuilt =>
    obtain ⟨passages, hrebuilt⟩ := hrebuilt
    rw [hrebuilt, rebuild_version, List.mem_cons, List.mem_filter] at hrows
    cases hrows with
    | inl hnew =>
      subst hnew
      rw [hframe.origin entry hentry]
      exact ⟨rfl, rfl⟩
    | inr hold => exact hkept hold.1 entry hentry

/-- The version a build carries over is still the active one. -/
theorem CarriesOver.active {parts : List String} {version : String}
    (h : ActiveVersion w version (run.origin snapshot)) (hfresh : Fresh w run.ingestion_id)
    (hframe : VersionFrame run snapshot gone w w') (hactive : w'.active = w.active)
    (htarget : active_target w' = some parts) : ActiveVersion w' version (run.origin snapshot) := by
  have hparts := h.parts (hframe.active_target hfresh hactive htarget)
  subst hparts
  obtain ⟨other, hother, hlink, -, entry, counts, hentry, -⟩ := active_target_some htarget
  obtain rfl : version = other := by simpa using hother
  refine ⟨htarget, entry, hentry, ?_⟩
  have hnew : version ≠ run.ingestion_id := by
    intro hsame
    subst hsame
    exact hfresh.active (hactive.symm.trans hlink)
  obtain ⟨before, hbefore, horigin, -⟩ := hframe.worn version hnew entry hentry
  obtain ⟨-, entry', hentry', horigin'⟩ := h
  rw [hbefore, Option.some.injEq] at hentry'
  subst hentry'
  rw [← horigin, horigin']

/-- An uncompleted build whose link is the old one, or none. -/
theorem Described.carried {value : Manifest} (hw : Described w) (hfresh : Fresh w run.ingestion_id)
    (hcarries : CarriesOver run snapshot w) (hstored : w'.stored_manifest = some value)
    (hvalue : BuildManifest run snapshot (manifest w) value)
    (hframe : VersionFrame run snapshot gone w w')
    (hactive : active_target w' ≠ none → w'.active = w.active) : Described w' := by
  refine ⟨fun old origin parts hold hclaims htarget => ?_, hw.frame_index hfresh hframe⟩
  obtain rfl : old = value := by
    rw [stored_of_manifest hold, Option.some.injEq] at hstored
    exact hstored
  have hsame := hactive (by simp [htarget])
  obtain ⟨version, hnamed, hversion⟩ :=
    hcarries parts (hframe.active_target hfresh hsame htarget)
  rw [hvalue.claims hclaims]
  exact ⟨version, hvalue.active.trans hnamed,
    CarriesOver.active hversion hfresh hframe hsame htarget⟩

/-- With no valid version behind the link there is nothing to describe. -/
theorem Described.unlinked (hw : Described w) (hfresh : Fresh w run.ingestion_id)
    (hframe : VersionFrame run snapshot gone w w') (htarget : active_target w' = none) :
    Described w' := by
  refine ⟨fun old origin parts hold hclaims hparts => ?_, hw.frame_index hfresh hframe⟩
  rw [htarget] at hparts
  cases hparts

/-- The target of a link that has been put back. -/
theorem active_of_restored {parts : List String}
    (hactive : w'.active = (active_target w).elim .absent .link)
    (htarget : active_target w' = some parts) : w'.active = w.active := by
  cases hprior : active_target w with
  | none =>
    rw [hprior] at hactive
    obtain ⟨version, -, hlink, -⟩ := active_target_some htarget
    rw [hactive] at hlink
    cases hlink
  | some prior =>
    rw [hprior] at hactive
    obtain ⟨version, rfl, hlink, -⟩ := active_target_some hprior
    rw [hlink, hactive]
    rfl

/-- On the unchanged path the manifest claims what the run would build from, so
the active version is of that origin. -/
theorem Described.skipped {old : Manifest} (hw : Described w)
    (hskips : skips run snapshot w = true) (hold : manifest w = some old) :
    ∃ version, old.activeGraphVersion = some version ∧
      ActiveVersion w version (run.origin snapshot) := by
  obtain ⟨old', hold', -, hsource, hgraphify, hfingerprint, hvalid⟩ := skips_spec hskips
  obtain rfl : old' = old := Option.some.inj (hold'.symm.trans hold)
  obtain ⟨parts, htarget⟩ := Option.isSome_iff_exists.mp hvalid
  exact hw.claims old' _ parts hold ⟨hsource, hgraphify, hfingerprint⟩ htarget

/-- Rebuilding the rows of a version from its own origin. -/
theorem Described.rebuilt_index {version : String} {passages : Nat} (hw : Described w)
    (hversion : ActiveVersion w version (run.origin snapshot)) :
    ∀ rows ∈ (rebuild_version w (run.rows snapshot version passages)).index, ∀ entry,
      version_named w rows.graph_version = some entry → rows.From entry.origin := by
  intro rows hrows entry hentry
  rw [rebuild_version, List.mem_cons, List.mem_filter] at hrows
  cases hrows with
  | inl hnew =>
    subst hnew
    obtain ⟨-, active, hactive, horigin⟩ := hversion
    have hsame : entry = active := Option.some.inj (hentry.symm.trans hactive)
    rw [hsame, horigin]
    exact ⟨rfl, rfl⟩
  | inr hkept => exact hw.index rows hkept.1 entry hentry

theorem unchanged_manifest_active {old : Manifest} {version : String}
    (hnamed : old.activeGraphVersion = some version) (hne : version ≠ "") :
    (run.unchanged_manifest snapshot old).activeGraphVersion = some version := by
  change python_or (some (python_str old.activeGraphVersion)) _ = some version
  rw [hnamed]
  exact python_or_some hne _

theorem unchanged_manifest_claims {old : Manifest} {origin : Origin}
    (h : (run.unchanged_manifest snapshot old).Claims origin) : origin = run.origin snapshot := by
  have hclaims : (manifest_of run.settings snapshot run.ingestion_id .completed run.started
      (some run.completed) none (some old) (some (python_str old.activeGraphVersion))).Claims
      origin := h
  exact manifest_of_claims hclaims

theorem ActiveVersion.ne_empty {version : String} {origin : Origin}
    (h : ActiveVersion w version origin) : version ≠ "" := by
  obtain ⟨other, hother, -, hname, -⟩ := active_target_some h.1
  obtain rfl : version = other := by simpa using hother
  exact valid_version_name_ne_empty hname

theorem ReconcileEnd.described {old : Manifest} (h : ReconcileEnd run snapshot old w w')
    (hw : Described w) (hskips : skips run snapshot w = true) (hold : manifest w = some old) :
    Described w' := by
  obtain ⟨version, hnamed, hversion⟩ := hw.skipped hskips hold
  have hstr : python_str old.activeGraphVersion = version := by
    rw [hnamed]
    rfl
  -- every manifest of this path claims the origin of the run and names `version`
  have hclaims {value : Manifest} {index : List IndexedVersion}
      (hvalue : ∀ origin, value.Claims origin → origin = run.origin snapshot)
      (hactive : value.activeGraphVersion = some version) :
      ∀ (old' : Manifest) origin parts,
        manifest { w with index, stored_manifest := some value } = some old' →
        old'.Claims origin →
        active_target { w with index, stored_manifest := some value } = some parts →
        ∃ version, old'.activeGraphVersion = some version ∧
          ActiveVersion { w with index, stored_manifest := some value } version origin := by
    intro old' origin parts hold' hclaims' htarget
    obtain rfl : value = old' := Option.some.inj (stored_of_manifest hold')
    rw [hvalue origin hclaims']
    exact ⟨version, hactive, hversion⟩
  cases h with
  | unwritten hindex =>
    refine ⟨hw.claims, ?_⟩
    rcases hindex with rfl | ⟨passages, rfl⟩
    · exact hw.index
    · rw [hstr]
      exact hw.rebuilt_index hversion
  | @failed value hvalue =>
    refine ⟨hclaims (fun origin hclaims' => ?_) ?_, hw.index⟩
    · subst hvalue
      exact manifest_of_claims hclaims'
    · subst hvalue
      exact hnamed
  | unchanged hindex =>
    refine ⟨hclaims (fun origin hclaims' => unchanged_manifest_claims hclaims')
      (unchanged_manifest_active hnamed hversion.ne_empty), ?_⟩
    rcases hindex with ⟨rfl, -⟩ | ⟨passages, rfl⟩
    · exact hw.index
    · rw [hstr]
      exact hw.rebuilt_index hversion

/-- A completed build describes the version it has activated. -/
theorem Described.recorded (hw : Described w) (hfresh : Fresh w run.ingestion_id)
    (hactive : w'.active = .link ["versions", run.ingestion_id])
    (hstored : w'.stored_manifest = some (run.completed_manifest snapshot (manifest w)))
    (hframe : VersionFrame run snapshot gone w w') : Described w' := by
  refine ⟨fun old origin parts hold hclaims htarget => ?_, hw.frame_index hfresh hframe⟩
  obtain rfl : old = run.completed_manifest snapshot (manifest w) := by
    rw [stored_of_manifest hold, Option.some.injEq] at hstored
    exact hstored
  obtain ⟨version, rfl, hlink, -, entry, counts, hentry, -⟩ := active_target_some htarget
  obtain rfl : run.ingestion_id = version := by
    rw [hactive] at hlink
    simpa using hlink
  refine ⟨run.ingestion_id, completed_manifest_active _, htarget, entry, hentry, ?_⟩
  rw [manifest_of_claims hclaims]
  exact hframe.origin entry hentry

theorem ingestionDescribes_build (hsource : run.source = .ok snapshot)
    (hskips : skips run snapshot w = false) (hstarts : Starts fates)
    (h : IngestionDescribes run fates w) :
    (¬ Reaches run fates w → CarriesOver run snapshot w) ∧ (Reaches run fates w →
      LinkRecorded .completed fates ∧
        (RaisedAfterRecord run fates (run.ingestion_id :: w.names) → ¬ FailureRecorded fates) ∨
      ∃ stored, LinkRestored .completed fates stored ∧ CarriesOver run snapshot w ∧
        (has_valid_active_graph w = true → stored = true →
          fates .fsync_restored ≠ .dies ∧ FailureRecorded fates)) := by
  unfold IngestionDescribes at h
  rw [hsource] at h
  simpa [hskips, hstarts] using h

/-- An ingestion that meets its condition keeps the manifest true of the active
version. -/
theorem Executed.described (h : Executed run fates w w') (hw : Described w)
    (hfresh : Fresh w run.ingestion_id) (hcond : IngestionDescribes run fates w) :
    Described w' := by
  cases h with
  | @source_failed _ failure hsource hend =>
    rcases hend with ⟨rfl, -⟩ | ⟨rfl, -⟩
    · exact hw
    · refine ⟨fun old origin parts hold hclaims htarget => ?_, hw.index⟩
      obtain rfl := Option.some.inj (stored_of_manifest hold)
      cases hbefore : manifest w with
      | none =>
        rw [hbefore] at hclaims
        cases hclaims.1
      | some before =>
        rw [hbefore] at hclaims
        exact hw.claims before origin parts hbefore hclaims htarget
  | reconciled hsource hskips hold hend => exact hend.described hw hskips hold
  | unstarted hsource hskips hstarts => exact hw
  | abandoned hsource hskips hstarts hnot hactive hstored hvalue hframe =>
    have hcarries := (ingestionDescribes_build hsource hskips hstarts hcond).1 hnot
    exact hw.carried hfresh hcarries hstored hvalue hframe fun _ => hactive
  | left hsource hskips hstarts hreaches hleft hactive hstored hvalue hframe hnew =>
    have hbuild := (ingestionDescribes_build hsource hskips hstarts hcond).2 hreaches
    rcases hbuild with ⟨hrecorded, -⟩ | ⟨stored, hrestored, -⟩
    · exact absurd hrecorded hleft.not_recorded
    · exact absurd hrestored hleft.not_restored
  | @restored _ _ value stored hsource hskips hstarts hreaches hrestored hactive hstored hvalue
      hframe hnew =>
    have hbuild := (ingestionDescribes_build hsource hskips hstarts hcond).2 hreaches
    rcases hbuild with ⟨hrecorded, -⟩ | ⟨stored', hrestored', hcarries, hrecords⟩
    · exact absurd hrecorded hrestored.not_recorded
    obtain rfl := hrestored.unique hrestored'
    have hback (hsome : active_target w' ≠ none) : w'.active = w.active := by
      obtain ⟨parts, htarget⟩ := Option.ne_none_iff_exists'.mp hsome
      exact active_of_restored hactive htarget
    rcases hvalue with hbuild | ⟨-, hwritten, hlost⟩
    · exact hw.carried hfresh hcarries hstored hbuild hframe hback
    · by_cases hvalid : has_valid_active_graph w = true
      · obtain ⟨hlives, hfailure⟩ := hrecords hvalid hwritten
        cases hlost with
        | inl hdies => exact absurd hdies hlives
        | inr hnot => exact absurd hfailure hnot
      · refine hw.unlinked hfresh hframe ?_
        cases htarget : active_target w' with
        | none => rfl
        | some parts =>
          have hprior := hframe.active_target hfresh (hback (by simp [htarget])) htarget
          rw [has_valid_active_graph, hprior] at hvalid
          exact absurd rfl hvalid
  | recorded hsource hskips hstarts hreaches hrecorded hunless hactive hstored hframe hnew =>
    exact hw.recorded hfresh hactive hstored hframe
  | regressed hsource hskips hstarts hreaches hrecorded hraised hfailure hactive hstored hframe
      hnew =>
    have hbuild := (ingestionDescribes_build hsource hskips hstarts hcond).2 hreaches
    rcases hbuild with ⟨-, hunless⟩ | ⟨stored, hrestored, -⟩
    · exact absurd hfailure (hunless hraised)
    · exact absurd hrecorded hrestored.not_recorded

end lagraph.knowledge
