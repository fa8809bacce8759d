import LaGraph.Knowledge.Operations

open foundation foundation.Faulty

namespace lagraph.knowledge

section

variable {run : Ingestion} {snapshot : KnowledgeSnapshot} {fates : Stage → Fate} {w w' : World}

/-- The version directory is there with a valid graph. -/
def Present (w : World) (version : String) : Prop :=
  ∃ entry counts, version_named w version = some entry ∧ validate_graph entry.graph = .ok counts

/-- The manifest names the version as active or as previous. -/
def Manifest.Names (value : Manifest) (version : String) : Prop :=
  value.activeGraphVersion = some version ∨ value.previousGraphVersion = some version

/-- Every version the stored manifest names is there. -/
def Retained (w : World) : Prop :=
  ∀ value, w.stored_manifest = some value → ∀ version, value.Names version → Present w version

/-- The pruning of the build does not begin to remove the version. -/
def Spares (run : Ingestion) (fates : Stage → Fate) (w : World) (version : String) : Prop :=
  version ∉ run.removals fates (run.ingestion_id :: w.names)

/-- The condition under which an ingestion keeps the versions its manifest
names. -/
def IngestionRetains (run : Ingestion) (fates : Stage → Fate) (w : World) : Prop :=
  match run.source with
  | .error _ => True
  | .ok snapshot =>
    if skips run snapshot w then (manifest w).bind (·.activeGraphVersion) ≠ none
    else Starts fates → Reaches run fates w → LinkRecorded .completed fates →
      (RaisedAfterRecord run fates (run.ingestion_id :: w.names) ∧ FailureRecorded fates →
        ∀ old version, manifest w = some old → old.Names version → Spares run fates w version) ∧
      (¬ (RaisedAfterRecord run fates (run.ingestion_id :: w.names) ∧ FailureRecorded fates) →
        Spares run fates w run.ingestion_id ∧ ∀ version,
          (manifest w).bind (·.activeGraphVersion) = some version → Spares run fates w version)

theorem BuildManifest.names {value : Manifest} {old : Option Manifest} {version : String}
    (h : BuildManifest run snapshot old value) (hnames : value.Names version) :
    ∃ before, old = some before ∧ before.Names version := by
  have hsame : value.activeGraphVersion = old.bind (·.activeGraphVersion) ∧
      value.previousGraphVersion = old.bind (·.previousGraphVersion) := by
    cases h with
    | inl hrunning =>
      subst hrunning
      exact ⟨rfl, rfl⟩
    | inr hfailed =>
      obtain ⟨code, rfl⟩ := hfailed
      exact ⟨rfl, rfl⟩
  rw [Manifest.Names, hsame.1, hsame.2] at hnames
  cases old with
  | none => simp at hnames
  | some before => exact ⟨before, rfl, hnames⟩

theorem completed_manifest_names {old : Option Manifest} {version : String}
    (hnames : (run.completed_manifest snapshot old).Names version) :
    version = run.ingestion_id ∨ old.bind (·.activeGraphVersion) = some version := by
  cases hnames with
  | inl hactive =>
    rw [completed_manifest_active, Option.some.injEq] at hactive
    exact Or.inl hactive.symm
  | inr hprevious =>
    have hgiven : (python_or (some run.ingestion_id) none).isSome = true := by
      rw [python_or_some (valid_version_name_ne_empty run.valid_id)]
      rfl
    rw [Ingestion.completed_manifest, manifest_of, if_pos hgiven] at hprevious
    exact Or.inr hprevious

theorem Retained.present {old : Manifest} {version : String} (hw : Retained w)
    (hold : manifest w = some old) (hnames : old.Names version) : Present w version :=
  hw old (stored_of_manifest hold) version hnames

/-- A version the manifest names is not the one a run is about to build. -/
theorem Fresh.ne_named {old : Manifest} {version : String} (hfresh : Fresh w run.ingestion_id)
    (hold : manifest w = some old) (hnames : old.Names version) : version ≠ run.ingestion_id := by
  obtain ⟨hactive, hprevious, -⟩ := hfresh.stored old (stored_of_manifest hold)
  intro hsame
  subst hsame
  cases hnames with
  | inl hnamed => exact hactive hnamed
  | inr hnamed => exact hprevious hnamed

/-- A named version that a build has not begun to remove is there after it. -/
theorem Retained.kept {gone : List String} {old : Manifest} {version : String} (hw : Retained w)
    (hfresh : Fresh w run.ingestion_id) (hframe : VersionFrame run snapshot gone w w')
    (hold : manifest w = some old) (hnames : old.Names version) (hgone : version ∉ gone) :
    Present w' version := by
  obtain ⟨entry, counts, hentry, hvalid⟩ := hw.present hold hnames
  refine ⟨entry, counts, ?_, hvalid⟩
  rw [hframe.kept version (hfresh.ne_named hold hnames) hgone]
  exact hentry

theorem NewVersion.present (h : NewVersion run snapshot w') : Present w' run.ingestion_id := by
  obtain ⟨graph, counts, hvalid, hnew⟩ := h
  exact ⟨_, counts, hnew, hvalid⟩

end

variable {run : Ingestion} {snapshot : KnowledgeSnapshot} {fates : Stage → Fate} {w w' : World}

/-- A build that leaves a manifest of its own names only what was named. -/
theorem Retained.uncompleted {gone : List String} {value : Manifest} (hw : Retained w)
    (hfresh : Fresh w run.ingestion_id) (hframe : VersionFrame run snapshot gone w w')
    (hstored : w'.stored_manifest = some value)
    (hvalue : BuildManifest run snapshot (manifest w) value)
    (hspares : ∀ old version, manifest w = some old → old.Names version → version ∉ gone) :
    Retained w' := by
  intro stored hsome version hnames
  obtain rfl : value = stored := Option.some.inj (hstored.symm.trans hsome)
  obtain ⟨before, hold, hbefore⟩ := hvalue.names hnames
  exact hw.kept hfresh hframe hold hbefore (hspares before version hold hbefore)

/-- A build that leaves its completed manifest names its version and the one that
was active. -/
theorem Retained.completed {gone : List String} (hw : Retained w)
    (hfresh : Fresh w run.ingestion_id) (hframe : VersionFrame run snapshot gone w w')
    (hstored : w'.stored_manifest = some (run.completed_manifest snapshot (manifest w)))
    (hnew : Present w' run.ingestion_id)
    (hspares : ∀ version, (manifest w).bind (·.activeGraphVersion) = some version →
      version ∉ gone) : Retained w' := by
  intro stored hsome version hnames
  obtain rfl := Option.some.inj (hstored.symm.trans hsome)
  rcases completed_manifest_names hnames with rfl | hactive
  · exact hnew
  · obtain ⟨old, hold, hnamed⟩ := Option.bind_eq_some_iff.mp hactive
    exact hw.kept hfresh hframe hold (Or.inl hnamed) (hspares version hactive)

/-- The unchanged path names what was named, given that an active version was. -/
theorem ReconcileEnd.retained {old : Manifest} (h : ReconcileEnd run snapshot old w w')
    (hw : Retained w) (hold : manifest w = some old) (hactive : old.activeGraphVersion ≠ none) :
    Retained w' := by
  cases h with
  | unwritten hindex => exact hw
  | @failed value hvalue =>
    intro stored hsome version hnames
    obtain rfl : value = stored := Option.some.inj hsome
    subst hvalue
    exact hw.present hold hnames
  | unchanged hindex =>
    intro stored hsome version hnames
    obtain rfl := Option.some.inj hsome
    obtain ⟨active, hnamed⟩ := Option.ne_none_iff_exists'.mp hactive
    refine hw.present hold ?_
    cases hnames with
    | inl hunchanged =>
      change python_or (some (python_str old.activeGraphVersion)) old.activeGraphVersion = _
        at hunchanged
      rw [hnamed, python_str, Option.getD_some, python_or] at hunchanged
      rw [ite_self] at hunchanged
      exact Or.inl (hnamed.trans hunchanged)
    | inr hprevious => exact Or.inr hprevious

theorem ingestionRetains_build (hsource : run.source = .ok snapshot)
    (hskips : skips run snapshot w = false) (hstarts : Starts fates)
    (hreaches : Reaches run fates w) (hrecorded : LinkRecorded .completed fates)
    (h : IngestionRetains run fates w) :
    (RaisedAfterRecord run fates (run.ingestion_id :: w.names) ∧ FailureRecorded fates →
      ∀ old version, manifest w = some old → old.Names version → Spares run fates w version) ∧
    (¬ (RaisedAfterRecord run fates (run.ingestion_id :: w.names) ∧ FailureRecorded fates) →
      Spares run fates w run.ingestion_id ∧ ∀ version,
        (manifest w).bind (·.activeGraphVersion) = some version → Spares run fates w version) := by
  unfold IngestionRetains at h
  rw [hsource] at h
  simp only [hskips, Bool.false_eq_true, if_false] at h
  exact h hstarts hreaches hrecorded

/-- An ingestion that meets its condition keeps the versions its manifest
names. -/
theorem Executed.retained (h : Executed run fates w w') (hw : Retained w)
    (hfresh : Fresh w run.ingestion_id) (hcond : IngestionRetains run fates w) : Retained w' := by
  have hnothing : ∀ (old : Manifest) (version : String), manifest w = some old →
      old.Names version → version ∉ ([] : List String) := fun _ _ _ _ => List.not_mem_nil
  cases h with
  | @source_failed _ failure hsource hend =>
    rcases hend with ⟨rfl, -⟩ | ⟨rfl, -⟩
    · exact hw
    · intro stored hsome version hnames
      obtain rfl := Option.some.inj hsome
      cases hold : manifest w with
      | none =>
        rw [hold] at hnames
        rcases hnames with hactive | hprevious
        · cases hactive
        · cases hprevious
      | some old =>
        rw [hold] at hnames
        exact hw.present hold hnames
  | reconciled hsource hskips hold hend =>
    refine hend.retained hw hold ?_
    unfold IngestionRetains at hcond
    rw [hsource] at hcond
    simpa [hskips, hold] using hcond
  | unstarted hsource hskips hstarts => exact hw
  | abandoned hsource hskips hstarts hnot hactive hstored hvalue hframe =>
    exact hw.uncompleted hfresh hframe hstored hvalue hnothing
  | left hsource hskips hstarts hreaches hleft hactive hstored hvalue hframe hnew =>
    exact hw.uncompleted hfresh hframe hstored hvalue hnothing
  | restored hsource hskips hstarts hreaches hrestored hactive hstored hvalue hframe hnew =>
    rcases hvalue with hbuild | ⟨hcompleted, -⟩
    · exact hw.uncompleted hfresh hframe hstored hbuild hnothing
    · subst hcompleted
      exact hw.completed hfresh hframe hstored hnew.present fun _ _ => List.not_mem_nil
  | recorded hsource hskips hstarts hreaches hrecorded hunless hactive hstored hframe hnew =>
    obtain ⟨-, hspares⟩ := ingestionRetains_build hsource hskips hstarts hreaches hrecorded hcond
    obtain ⟨hself, hprior⟩ := hspares fun hboth => hunless hboth.1 hboth.2
    exact hw.completed hfresh hframe hstored (hnew hself).present hprior
  | regressed hsource hskips hstarts hreaches hrecorded hraised hfailure hactive hstored hframe
      hnew =>
    obtain ⟨hspares, -⟩ := ingestionRetains_build hsource hskips hstarts hreaches hrecorded hcond
    exact hw.uncompleted hfresh hframe hstored (Or.inr ⟨_, rfl⟩) (hspares ⟨hraised, hfailure⟩)

end lagraph.knowledge
