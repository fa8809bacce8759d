import LaGraph.Knowledge.Ingestion

open foundation foundation.Faulty

namespace lagraph.knowledge

variable {fates : Stage → Fate} {w : World}

/-- The steps that remove versions in turn. -/
def removal_stages (names : List String) : List Stage :=
  names.flatMap fun name => [.remove_files name, .remove_directory name]

/-- The versions whose removal has begun when the first step fails. -/
def touched (fates : Stage → Fate) : List String → List String
  | [] => []
  | name :: names =>
    if fates (.remove_files name) = .passes then
      name :: if fates (.remove_directory name) = .passes then touched fates names else []
    else []

/-- A version is what it was, has lost its files, or is gone. -/
def Worn (w w' : World) (name : String) : Prop :=
  ∀ entry, version_named w' name = some entry → ∃ before, version_named w name = some before ∧
    before.origin = entry.origin ∧ (entry.graph = before.graph ∨ entry.graph = .missing)

/-- What removing versions leaves alone, and how far it has come. -/
structure RemovalEnd (names : List String) (fates : Stage → Fate) (w : World)
    (o : Outcome Failure Unit) (w' : World) : Prop where
  follows : Follows (through fates (removal_stages names)) o
  active : w'.active = w.active
  stored_manifest : w'.stored_manifest = w.stored_manifest
  index : w'.index = w.index
  untouched : ∀ name, name ∉ touched fates names → version_named w' name = version_named w name
  worn : ∀ name, Worn w w' name

theorem Worn.refl (name : String) : Worn w w name :=
  fun entry hentry => ⟨entry, hentry, rfl, Or.inl rfl⟩

theorem Worn.trans {w₁ w₂ : World} {name : String} (h : Worn w w₁ name) (h' : Worn w₁ w₂ name) :
    Worn w w₂ name := by
  intro entry hentry
  obtain ⟨middle, hmiddle, horigin, hgraph⟩ := h' entry hentry
  obtain ⟨before, hbefore, horigin', hgraph'⟩ := h middle hmiddle
  refine ⟨before, hbefore, horigin'.trans horigin, ?_⟩
  cases hgraph with
  | inl hsame => rwa [hsame]
  | inr hmissing => exact Or.inr hmissing

/-- The world with the files of a version removed. -/
def World.gutted (w : World) (name : String) : World :=
  { w with versions := w.versions.map fun version =>
      if version.name = name then { version with graph := .missing } else version }

/-- The world without a version. -/
def World.without (w : World) (name : String) : World :=
  { w with versions := w.versions.filter (·.name ≠ name) }

theorem version_named_gutted (name other : String) :
    version_named (w.gutted name) other = (version_named w other).map fun version =>
      if other = name then { version with graph := .missing } else version := by
  simp only [version_named, World.gutted, List.find?_map]
  have hcomp : ((fun version : GraphVersion => decide (version.name = other)) ∘
      fun version => if version.name = name then { version with graph := .missing } else version) =
      fun version => decide (version.name = other) := by
    funext version
    simp only [Function.comp]
    split <;> rfl
  rw [hcomp]
  cases hfound : w.versions.find? (fun version => decide (version.name = other)) with
  | none => rfl
  | some version =>
    have hname : version.name = other := by simpa using List.find?_some hfound
    rw [Option.map_some, Option.map_some, hname]

theorem version_named_without_self (name : String) :
    version_named (w.without name) name = none := by
  simp [version_named, World.without]

theorem version_named_without {name other : String} (hne : other ≠ name) :
    version_named (w.without name) other = version_named w other := by
  simp only [version_named, World.without, List.find?_filter]
  congr 1
  funext version
  by_cases hname : version.name = other
  · simp [hname, hne]
  · simp [hname]

theorem worn_gutted (name other : String) : Worn w (w.gutted name) other := by
  intro entry hentry
  rw [version_named_gutted] at hentry
  cases hnamed : version_named w other with
  | none =>
    rw [hnamed] at hentry
    cases hentry
  | some before =>
    rw [hnamed, Option.map_some, Option.some.injEq] at hentry
    refine ⟨before, rfl, ?_, ?_⟩
    · subst hentry
      split <;> rfl
    · subst hentry
      split
      · exact Or.inr rfl
      · exact Or.inl rfl

theorem worn_without (name other : String) : Worn w (w.without name) other := by
  intro entry hentry
  by_cases hother : other = name
  · rw [hother, version_named_without_self] at hentry
    cases hentry
  · rw [version_named_without hother] at hentry
    exact Worn.refl other entry hentry

/-- The ways the removal of one version ends. -/
inductive RemoveEnd (name : String) (fates : Stage → Fate) (w : World) :
    Outcome Failure Unit → World → Prop
  | kept {o : Outcome Failure Unit} (hfiles : fates (.remove_files name) ≠ .passes)
      (ho : Follows (fates (.remove_files name)) o) : RemoveEnd name fates w o w
  | gutted {o : Outcome Failure Unit} (hfiles : fates (.remove_files name) = .passes)
      (hdirectory : fates (.remove_directory name) ≠ .passes)
      (ho : Follows (fates (.remove_directory name)) o) :
      RemoveEnd name fates w o (w.gutted name)
  | removed (hfiles : fates (.remove_files name) = .passes)
      (hdirectory : fates (.remove_directory name) = .passes) :
      RemoveEnd name fates w (.returned ()) ((w.gutted name).without name)

theorem remove_version_spec (name : String) :
    wp (remove_version name) fates (RemoveEnd name fates w) w := by
  refine wp_step_bind_follows (fun hfiles => ?_) (fun hfiles o ho => .kept hfiles ho)
  rw [wp_change_bind]
  refine wp_step_bind_follows (fun hdirectory => ?_)
    (fun hdirectory o ho => .gutted hfiles hdirectory ho)
  exact .removed hfiles hdirectory

/-- The removal of one version within that of several, when it stops there. -/
theorem RemoveEnd.removalEnd {name : String} {names : List String} {o : Outcome Failure Unit}
    {w' : World} (h : RemoveEnd name fates w o w') (hstopped : Stopped o) :
    RemovalEnd (name :: names) fates w o w' := by
  have hstages : removal_stages (name :: names) =
    .remove_files name :: .remove_directory name :: removal_stages names := rfl
  cases h with
  | kept hfiles ho =>
    refine ⟨?_, rfl, rfl, rfl, fun _ _ => rfl, fun _ => Worn.refl _⟩
    rwa [hstages, through_cons_of_not_passes hfiles]
  | gutted hfiles hdirectory ho =>
    refine ⟨?_, rfl, rfl, rfl, fun other hother => ?_, worn_gutted name⟩
    · rwa [hstages, through_cons_of_passes hfiles, through_cons_of_not_passes hdirectory]
    · rw [touched, if_pos hfiles, if_neg hdirectory, List.mem_singleton] at hother
      rw [version_named_gutted]
      simp only [if_neg hother, Option.map_id']
  | removed _ _ => exact absurd rfl (hstopped ())

/-- Removing versions one after another. -/
theorem remove_versions_spec (names : List String) :
    wp (forEach remove_version names) fates (RemovalEnd names fates w) w := by
  induction names generalizing w with
  | nil =>
    exact ⟨trivial, rfl, rfl, rfl, fun _ _ => rfl, fun _ => Worn.refl _⟩
  | cons name names ih =>
    refine wp_bind_of (remove_version_spec name) (fun _ w₁ hend => ?_)
      (fun _ _ hend => hend.removalEnd stopped_raised) (fun _ hend => hend.removalEnd stopped_died)
    cases hend with
    | kept hfiles ho => exact absurd ho.returned hfiles
    | gutted _ hdirectory ho => exact absurd ho.returned hdirectory
    | removed hfiles hdirectory =>
      refine wp_mono ih fun o w' hrest => ?_
      refine ⟨?_, hrest.active, hrest.stored_manifest, hrest.index, fun other hother => ?_,
        fun other => ?_⟩
      · have hstages : removal_stages (name :: names) =
          .remove_files name :: .remove_directory name :: removal_stages names := rfl
        rw [hstages, through_cons_of_passes hfiles, through_cons_of_passes hdirectory]
        exact hrest.follows
      · rw [touched, if_pos hfiles, if_pos hdirectory, List.mem_cons, not_or] at hother
        rw [hrest.untouched other hother.2, version_named_without hother.1, version_named_gutted]
        simp only [if_neg hother.1, Option.map_id']
      · exact ((worn_gutted name other).trans (worn_without name other)).trans (hrest.worn other)

/-- The steps of pruning. -/
def prune_stages (names : List String) (keep : Nat) : List Stage :=
  .list_versions :: removal_stages (pruned_names names keep)

/-- The versions whose removal pruning begins. -/
def pruned (fates : Stage → Fate) (names : List String) (keep : Nat) : List String :=
  if fates .list_versions = .passes then touched fates (pruned_names names keep) else []

/-- The names of the version directories. -/
def World.names (w : World) : List String :=
  w.versions.map (·.name)

/-- What pruning leaves alone, and how it ends. -/
structure PruneEnd (keep : Nat) (fates : Stage → Fate) (w : World) (o : Outcome Failure Unit)
    (w' : World) : Prop where
  follows : Follows (through fates (prune_stages w.names keep)) o
  active : w'.active = w.active
  stored_manifest : w'.stored_manifest = w.stored_manifest
  index : w'.index = w.index
  untouched : ∀ name, name ∉ pruned fates w.names keep → version_named w' name = version_named w name
  worn : ∀ name, Worn w w' name

theorem prune_versions_spec (keep : Nat) :
    wp (prune_versions keep) fates (PruneEnd keep fates w) w := by
  refine wp_step_bind_follows (fun hlist => ?_) (fun hlist o ho => ?_)
  · rw [wp_read_bind]
    refine wp_mono (remove_versions_spec _) fun o w' hend => ?_
    refine ⟨?_, hend.active, hend.stored_manifest, hend.index, ?_, hend.worn⟩
    · rw [prune_stages, through_cons_of_passes hlist]
      exact hend.follows
    · rw [pruned, if_pos hlist]
      exact hend.untouched
  · refine ⟨?_, rfl, rfl, rfl, fun _ _ => rfl, fun _ => Worn.refl _⟩
    rwa [prune_stages, through_cons_of_not_passes hlist]

end lagraph.knowledge
