import LaGraph.Knowledge.Operations

open foundation foundation.Faulty

namespace lagraph.knowledge

variable {run : Ingestion} {snapshot : KnowledgeSnapshot} {fates : Stage → Fate} {w w' : World}

/-- The version the stored manifest names as active. -/
def stored_active (w : World) : Option String :=
  w.stored_manifest.bind (·.activeGraphVersion)

/-- The link points at exactly the version the stored manifest names as active;
both absent counts. -/
def Agrees (w : World) : Prop :=
  ∀ parts, w.active = .link parts ↔ ∃ version, stored_active w = some version ∧
    parts = ["versions", version]

/-- What an operation reads as the active version is what is stored: a manifest
that names one has not outgrown the reading limit. -/
def Readable (w : World) : Prop :=
  (manifest w).bind (·.activeGraphVersion) = stored_active w

/-- Putting the link back, or removing it, agrees with a manifest that carries
over the active version read at the start. -/
def PriorAgrees (w : World) : Prop :=
  if has_valid_active_graph w then Readable w else (manifest w).bind (·.activeGraphVersion) = none

/-- The condition under which an ingestion with a single fault keeps the link and
the manifest in agreement. -/
def IngestionAgrees (run : Ingestion) (fates : Stage → Fate) (w : World) : Prop :=
  match run.source with
  | .error _ =>
    through fates [.progress .validating, .replace_manifest .source_failure] ≠ .passes ∨ Readable w
  | .ok snapshot => skips run snapshot w = true ∨ ¬ Starts fates ∨
    (¬ Reaches run fates w → Readable w) ∧ (Reaches run fates w →
      through fates (SETTLE_STAGES ++ prune_stages (run.ingestion_id :: w.names)
        run.settings.knowledge_graph_versions_to_keep) = .passes ∧
      (through fates [.replace_manifest .completed, .fsync_manifest .completed] = .passes ∨
        PriorAgrees w))

/-- The condition under which a rollback with a single fault keeps them in
agreement. -/
def RollbackAgrees (fates : Stage → Fate) (w : World) : Prop :=
  ∀ old previous, RollsBackTo w old previous → Switches previous fates w →
    (through fates SETTLE_STAGES = .passes ∨ stored_active w = some previous) ∧
    (fates (.replace_manifest .rolled_back) = .passes ∨ has_valid_active_graph w = true ∨
      stored_active w = none) ∧
    (fates (.fsync_manifest .rolled_back) = .passes ∨
      has_valid_active_graph w = true ∧ stored_active w = some previous)

theorem agrees_link {version : String} (hactive : w.active = .link ["versions", version]) :
    Agrees w ↔ stored_active w = some version := by
  unfold Agrees
  rw [hactive]
  constructor
  · intro h
    obtain ⟨other, hother, hparts⟩ := (h ["versions", version]).mp rfl
    have hsame : version = other := by simpa using hparts
    rw [hother, hsame]
  · intro h parts
    constructor
    · intro hparts
      exact ⟨version, h, by simpa using hparts.symm⟩
    · intro hparts
      obtain ⟨other, hother, rfl⟩ := hparts
      rw [h, Option.some.injEq] at hother
      rw [hother]

theorem agrees_unlinked (hactive : ∀ parts, w.active ≠ .link parts) :
    Agrees w ↔ stored_active w = none := by
  constructor
  · intro h
    cases hstored : stored_active w with
    | none => rfl
    | some version =>
      exact absurd ((h ["versions", version]).mpr ⟨version, hstored, rfl⟩) (hactive _)
  · intro h parts
    constructor
    · intro hparts
      exact absurd hparts (hactive parts)
    · intro hparts
      obtain ⟨version, hversion, -⟩ := hparts
      rw [h] at hversion
      cases hversion

/-- With the link where it was, the agreement lasts exactly when the manifest
names the same version. -/
theorem agrees_same_link (hagrees : Agrees w) (hactive : w'.active = w.active) :
    Agrees w' ↔ stored_active w' = stored_active w := by
  by_cases hlink : ∃ parts, w.active = .link parts
  · obtain ⟨parts, hparts⟩ := hlink
    obtain ⟨version, hversion, rfl⟩ := (hagrees parts).mp hparts
    rw [agrees_link (hactive.trans hparts), hversion]
  · have hunlinked (parts : List String) : w.active ≠ .link parts := fun h => hlink ⟨parts, h⟩
    rw [(agrees_unlinked hunlinked).mp hagrees]
    exact agrees_unlinked fun parts => by rw [hactive]; exact hunlinked parts

/-- A fresh identifier is not the active version a build carries over. -/
theorem not_carried_of_fresh {id : String} (hfresh : Fresh w id) :
    (manifest w).bind (·.activeGraphVersion) ≠ some id := by
  cases hold : manifest w with
  | none => simp
  | some old => exact (hfresh.stored old (stored_of_manifest hold)).1

/-- Restoring the link agrees with a carried-over manifest exactly under
`PriorAgrees`. -/
theorem agrees_reverted (hagrees : Agrees w)
    (hactive : w'.active = (active_target w).elim .absent .link)
    (hstored : stored_active w' = (manifest w).bind (·.activeGraphVersion)) :
    Agrees w' ↔ PriorAgrees w := by
  cases htarget : active_target w with
  | none =>
    rw [htarget] at hactive
    have hvalid : has_valid_active_graph w = false := by rw [has_valid_active_graph, htarget]; rfl
    rw [agrees_unlinked (fun parts => by rw [hactive]; simp), hstored, PriorAgrees,
      if_neg (by simp [hvalid])]
  | some parts =>
    obtain ⟨version, rfl, hlink, -⟩ := active_target_some htarget
    rw [htarget] at hactive
    have hvalid : has_valid_active_graph w = true := by rw [has_valid_active_graph, htarget]; rfl
    rw [agrees_same_link hagrees (hactive.trans hlink.symm), hstored, PriorAgrees, if_pos hvalid,
      Readable]

/-- Behind the replaced link a single fault leaves the new link exactly where it
hits the activation. -/
theorem linkLeft_iff {write : ManifestWrite} (hsingle : SingleFault fates) :
    LinkLeft write fates ↔ through fates SETTLE_STAGES ≠ .passes := by
  constructor
  · intro hleft
    rcases hleft with hsettle | ⟨hwrite, hdies | hrestore⟩
    · exact hsettle
    · exact absurd hdies (hsingle.survives _)
    · exact absurd (hsingle.unique _ _ hwrite hrestore) (by simp)
  · exact Or.inl

end lagraph.knowledge
