import LaGraph.Foundation.Locked.Serial
import LaGraph.Knowledge.State

open foundation

namespace lagraph.knowledge.state

variable {root : List String} {isoformat : Moment → String} {files files' files'' : Files}

/-- The generation of the active pointer; zero where there is none. -/
def Files.generation (files : Files) : Nat :=
  files.active.elim 0 (·.generation)

/-- The active pointer names a stored manifest of its project. -/
def Files.PointerNames (root : List String) (isoformat : Moment → String) (files : Files) : Prop :=
  ∀ pointer, files.active = some pointer → ∃ manifest,
    files.load_manifest root isoformat pointer.graph_version.text = .ok manifest ∧
      manifest.project_id = pointer.project_id

/-- What writers do to the files: no directory or manifest goes or changes, and the
pointer moves on to stored manifests only. -/
structure Extends (root : List String) (isoformat : Moment → String) (files files' : Files) :
    Prop where
  directories : files.directories ⊆ files'.directories
  manifests : ∀ directory manifest, files.manifests directory = some manifest →
    files'.manifests directory = some manifest
  generation : files.generation ≤ files'.generation
  names : files.PointerNames root isoformat → files'.PointerNames root isoformat

theorem Extends.refl (files : Files) : Extends root isoformat files files :=
  ⟨List.Subset.refl _, fun _ _ h => h, Nat.le_refl _, id⟩

theorem Extends.trans (h : Extends root isoformat files files')
    (h' : Extends root isoformat files' files'') : Extends root isoformat files files'' where
  directories := List.Subset.trans h.directories h'.directories
  manifests directory manifest hstored :=
    h'.manifests directory manifest (h.manifests directory manifest hstored)
  generation := Nat.le_trans h.generation h'.generation
  names hnames := h'.names (h.names hnames)

/-- A path that can be walked leads where it resolves to. -/
theorem resolve_of_walk {base names directory : List String}
    (h : files.walk base names = some directory) : resolve base names = directory := by
  induction names generalizing base with
  | nil => exact Option.some.inj h
  | cons name names ih =>
    rw [Files.walk] at h
    rw [resolve]
    split at h
    · rename_i hup
      rw [if_pos hup]
      exact ih h
    · rename_i hup
      rw [if_neg hup]
      split at h
      · exact ih h
      · cases h

theorem walk_mono (hsub : files.directories ⊆ files'.directories)
    {base names directory : List String} (h : files.walk base names = some directory) :
    files'.walk base names = some directory := by
  induction names generalizing base with
  | nil => exact h
  | cons name names ih =>
    rw [Files.walk] at h ⊢
    split at h
    · rename_i hup
      rw [if_pos hup]
      exact ih h
    · rename_i hup
      rw [if_neg hup]
      split at h
      · rename_i hmem
        rw [if_pos (hsub hmem)]
        exact ih h
      · cases h

/-- A stored manifest is still loaded after more was stored. -/
theorem load_manifest_mono (hsub : files.directories ⊆ files'.directories)
    (hkept : ∀ directory manifest, files.manifests directory = some manifest →
      files'.manifests directory = some manifest) {graph_version : String}
    {manifest : GraphBuildManifest}
    (h : files.load_manifest root isoformat graph_version = .ok manifest) :
    files'.load_manifest root isoformat graph_version = .ok manifest := by
  unfold Files.load_manifest at h ⊢
  split at h
  · cases h
  · rename_i hnull
    rw [if_neg hnull]
    split at h
    · cases h
    · rename_i directory hwalk
      have hwalk' : files'.version_directory root graph_version = some directory :=
        walk_mono hsub hwalk
      rw [hwalk']
      split at h
      · rename_i stored hstored
        simp only [hkept directory stored hstored]
        exact h
      · split at h
        · cases h
        · cases h

/-- More directories and manifests, and the same pointer. -/
theorem extends_of_stored (hsub : files.directories ⊆ files'.directories)
    (hkept : ∀ directory manifest, files.manifests directory = some manifest →
      files'.manifests directory = some manifest) (hactive : files'.active = files.active) :
    Extends root isoformat files files' := by
  refine ⟨hsub, hkept, ?_, ?_⟩
  · rw [Files.generation, Files.generation, hactive]
  · intro hnames pointer hpointer
    obtain ⟨manifest, hload, hproject⟩ := hnames pointer (hactive ▸ hpointer)
    exact ⟨manifest, load_manifest_mono hsub hkept hload, hproject⟩

/-- What a call promises: a pointer that is set follows the one expected, and a call
that is refused leaves everything as it was. -/
def Call.post (call : Call) (entered : Files) :
    Except StateError (Option (List String)) → Files → Prop
  | .ok _, leaving =>
    match call with
    | .save_manifest _ => True
    | .compare_and_set_active _ expected_generation =>
      (entered.generation : Int) = expected_generation ∧
        leaving.generation = entered.generation + 1
  | .error e, leaving => e ≠ .OSError → leaving = entered

/-- Directories are made without touching a manifest or the pointer. -/
theorem make_directories_keeps (base names : List String) (files : Files) :
    (make_directories root base names).Keeps (Extends root isoformat)
      (fun outcome files' => files'.manifests = files.manifests ∧ files'.active = files.active ∧
        (outcome = .ok (resolve base names) ∨ outcome = .error .OSError)) files := by
  induction names generalizing base files with
  | nil => exact ⟨rfl, rfl, Or.inl rfl⟩
  | cons name names ih =>
    rw [make_directories, resolve]
    split
    · exact ih base.dropLast files
    · refine Program.Keeps.observe_bind (Extends.refl files) ?_
      refine Program.Keeps.raiseIf_bind (fun _ => ⟨rfl, rfl, Or.inr rfl⟩) fun _ => ?_
      refine Program.Keeps.change_bind ?_ ?_
      · exact extends_of_stored (List.subset_cons_self _ _) (fun _ _ h => h) rfl
      · exact ih (base ++ [name])
          { files with directories := (base ++ [name]) :: files.directories }

/-- A manifest already stored where a version leads can be reached on the way the
version spells. -/
def Files.Finds (root : List String) (files : Files) (graph_version : String) : Prop :=
  (files.manifests (version_location root graph_version)).isSome →
    (files.version_directory root graph_version).isSome

/-- A version that is found absent has nothing stored where it leads. -/
theorem free_of_not_exists {graph_version : String} (hfinds : files.Finds root graph_version)
    (habsent : ¬ files.target_exists root graph_version = true) :
    files.manifests (version_location root graph_version) = none := by
  by_contra hstored
  obtain ⟨manifest, hmanifest⟩ := Option.ne_none_iff_exists'.mp hstored
  obtain ⟨directory, hwalk⟩ := Option.isSome_iff_exists.mp (hfinds (by simp [hmanifest]))
  have hlocation : version_location root graph_version = directory := resolve_of_walk hwalk
  rw [hlocation] at hmanifest
  apply habsent
  simp [Files.target_exists, hwalk, hmanifest]

theorem write_manifest_keeps {value : GraphBuildManifest}
    (hfree : files.manifests (version_location root value.graph_version.text) = none) :
    (write_manifest root value).Keeps (Extends root isoformat)
      (fun outcome files' => match outcome with
        | .ok _ => True
        | .error e => e ≠ .OSError → files' = files) files := by
  unfold write_manifest
  refine Program.Keeps.raiseIf_bind (fun _ _ => rfl) fun _ => ?_
  refine Program.Keeps.bind (make_directories_keeps _ _ files) ?_ ?_
  · rintro directory made ⟨hmanifests, hactive, hdirectory | hbad⟩
    · cases hdirectory
      refine Program.Keeps.observe_bind (Extends.refl made) ?_
      refine Program.Keeps.raiseIf_bind (fun _ hne => absurd rfl hne) fun _ => ⟨?_, trivial⟩
      refine extends_of_stored (List.Subset.refl _) (fun other manifest hother => ?_) rfl
      have hne : other ≠ version_location root value.graph_version.text := by
        rintro rfl
        rw [hmanifests, hfree] at hother
        cases hother
      rw [← hother]
      exact Function.update_of_ne hne _ _
    · cases hbad
  · rintro e made ⟨-, -, hbad | herror⟩ hne
    · cases hbad
    · cases herror
      exact absurd rfl hne

theorem save_manifest_keeps {value : GraphBuildManifest}
    (hfinds : files.Finds root value.graph_version.text) :
    (save_manifest root isoformat value).Keeps (Extends root isoformat)
      (Call.post (.save_manifest value) files) files := by
  unfold save_manifest
  refine Program.Keeps.observe_bind (Extends.refl files) ?_
  by_cases hexists : files.target_exists root value.graph_version.text = true
  · rw [if_pos hexists]
    refine Program.Keeps.observe_bind (Extends.refl files) ?_
    refine Program.Keeps.ofExcept_bind (fun _ _ _ => rfl) fun current _ => ?_
    exact Program.Keeps.raiseIf_bind (fun _ _ => rfl) fun _ => trivial
  · rw [if_neg hexists]
    refine Program.Keeps.bind (write_manifest_keeps (free_of_not_exists hfinds hexists)) ?_ ?_
    · intro _ _ _
      trivial
    · exact fun e made h => h

theorem compare_and_set_active_keeps {pointer : ActivePointer} {expected_generation : Int} :
    (compare_and_set_active root isoformat pointer expected_generation).Keeps
      (Extends root isoformat)
      (Call.post (.compare_and_set_active pointer expected_generation) files) files := by
  unfold compare_and_set_active
  refine Program.Keeps.observe_bind (Extends.refl files) ?_
  refine Program.Keeps.ofExcept_bind (fun _ _ _ => rfl) fun current hcurrent => ?_
  have hgeneration : (current.elim 0 fun active => (active.generation : Int)) =
      files.generation := by
    unfold Files.load_active at hcurrent
    split at hcurrent
    · cases hcurrent
    · split at hcurrent
      · rename_i hnone
        cases hcurrent
        rw [Files.generation, hnone]
        rfl
      · rename_i active hsome
        split at hcurrent
        · cases hcurrent
          rw [Files.generation, hsome]
          rfl
        · cases hcurrent
  refine Program.Keeps.raiseIf_bind (fun _ _ => rfl) fun hexpected => ?_
  refine Program.Keeps.raiseIf_bind (fun _ _ => rfl) fun hnext => ?_
  refine Program.Keeps.observe_bind (Extends.refl files) ?_
  refine Program.Keeps.ofExcept_bind (fun _ _ _ => rfl) fun manifest hload => ?_
  refine Program.Keeps.raiseIf_bind (fun _ _ => rfl) fun hproject => ?_
  refine Program.Keeps.observe_bind (Extends.refl files) ?_
  refine Program.Keeps.raiseIf_bind (fun _ hne => absurd rfl hne) fun _ => ?_
  rw [hgeneration, not_not] at hexpected
  rw [not_not] at hnext hproject
  have hraised : pointer.generation = files.generation + 1 := by
    omega
  refine ⟨⟨List.Subset.refl _, fun _ _ h => h, ?_, ?_⟩, hexpected, hraised⟩
  · change files.generation ≤ pointer.generation
    omega
  · intro _ active hactive
    cases hactive
    refine ⟨manifest, load_manifest_mono ?_ ?_ hload, hproject⟩
    · exact fun _ h => h
    · exact fun _ _ h => h

/-- A save that takes the lock finds the manifest that is already stored where its
version leads. -/
def FindsStored (root : List String) (e : Transition Repository (LockEvent Call)) : Prop :=
  ∀ i value, e.label = .acquire i →
    e.before.callers[i]? = some ⟨.save_manifest value, .waiting⟩ →
      e.before.shared.Finds root value.graph_version.text

theorem entersKept_of_findsStored {e : Transition Repository (LockEvent Call)}
    (h : FindsStored root e) :
    Guarded.EntersKept (Call.body root isoformat) (Extends root isoformat) Call.post e := by
  intro i call hlabel hat
  cases call with
  | save_manifest value => exact save_manifest_keeps (h i value hlabel hat)
  | compare_and_set_active pointer expected_generation => exact compare_and_set_active_keeps

/-- Writers raise the generation one at a time, only one of those that expect the
same generation, and nobody changes what is published. -/
structure KeepsState (root : List String) (isoformat : Moment → String)
    (trace : List (Transition Repository (LockEvent Call))) (s : Repository) : Prop where
  raised : ∀ i pointer expected entered leaving value,
    s.Done i (.compare_and_set_active pointer expected) entered leaving (.ok value) →
      leaving.generation = entered.generation + 1
  once : ∀ i j pointer other expected entered leaving entered' leaving' value value',
    s.Done i (.compare_and_set_active pointer expected) entered leaving (.ok value) →
      s.Done j (.compare_and_set_active other expected) entered' leaving' (.ok value') → i = j
  names : s.shared.PointerNames root isoformat ∧
    ∀ e ∈ trace, e.before.shared.PointerNames root isoformat
  immutable : ∀ e ∈ trace, ∀ directory manifest,
    e.before.shared.manifests directory = some manifest →
      e.after.shared.manifests directory = some manifest
  refused : ∀ i call entered leaving e, s.Done i call entered leaving (.error e) →
    e ≠ .OSError → leaving.active = entered.active ∧ leaving.manifests = entered.manifests

theorem names_of_run {s s' : Repository} {trace : List (Transition Repository (LockEvent Call))}
    (hnames : s.shared.PointerNames root isoformat)
    (hrun : Run (fun a e b => a.step root isoformat e = some b) s trace s')
    (hextends : ∀ e ∈ trace, Extends root isoformat e.before.shared e.after.shared) :
    s'.shared.PointerNames root isoformat ∧
      ∀ e ∈ trace, e.before.shared.PointerNames root isoformat := by
  have hstep : ∀ (a : Repository) (l : LockEvent Call) (b : Repository),
      a.step root isoformat l = some b → Extends root isoformat a.shared b.shared →
        a.shared.PointerNames root isoformat → b.shared.PointerNames root isoformat :=
    fun _ _ _ _ hkept hbefore => hkept.names hbefore
  obtain ⟨hend, hall⟩ := @Run.invariant _ _ _ _ _ _
    (fun a : Repository => a.shared.PointerNames root isoformat)
    (fun e => Extends root isoformat e.before.shared e.after.shared) hrun hnames hextends hstep
  exact ⟨hend, fun e he => (hall e he).1⟩

/-- Of two calls that succeed one after the other, the second expects more. -/
theorem expected_lt {pointer other : ActivePointer} {expected expected' : Int}
    {entered leaving entered' leaving' : Files} {value value' : Option (List String)}
    (h : Call.post (.compare_and_set_active pointer expected) entered (.ok value) leaving)
    (h' : Call.post (.compare_and_set_active other expected') entered' (.ok value') leaving')
    (hextends : Extends root isoformat leaving entered') : expected < expected' := by
  have hgeneration := hextends.generation
  have hfirst : (entered.generation : Int) = expected ∧
    leaving.generation = entered.generation + 1 := h
  have hsecond : (entered'.generation : Int) = expected' ∧
    leaving'.generation = entered'.generation + 1 := h'
  omega

/-- The repository's promises hold in every interleaving of writers whose saves find
what is already stored where their versions lead. -/
theorem writers_keep_state {s s' : Repository}
    {trace : List (Transition Repository (LockEvent Call))} (hstart : s.callers = [])
    (hnames : s.shared.PointerNames root isoformat)
    (hrun : Run (fun a e b => a.step root isoformat e = some b) s trace s')
    (hfinds : ∀ e ∈ trace, FindsStored root e) : KeepsState root isoformat trace s' := by
  have hfailure : ∀ call d d', Call.post call d (.error .OSError) d' :=
    fun _ _ _ hne => absurd rfl hne
  have henters : ∀ e ∈ trace,
      Guarded.EntersKept (Call.body root isoformat) (Extends root isoformat) Call.post e :=
    fun e he => entersKept_of_findsStored (hfinds e he)
  obtain ⟨hserial, hextends⟩ := Guarded.serial_of_run hstart Extends.refl
    (fun _ _ _ => Extends.trans) hfailure hrun henters
  refine ⟨?_, ?_, names_of_run hnames hrun hextends, ?_, ?_⟩
  · intro i pointer expected entered leaving value hdone
    exact (hserial.finished i _ _ _ _ hdone).1.2
  · intro i j pointer other expected entered leaving entered' leaving' value value' hi hj
    by_contra hne
    have hpost := (hserial.finished i _ _ _ _ hi).1
    have hpost' := (hserial.finished j _ _ _ _ hj).1
    rcases hserial.ordered i j _ _ _ _ _ _ _ _ hne hi hj with hfirst | hsecond
    · exact absurd (expected_lt hpost hpost' hfirst) (lt_irrefl _)
    · exact absurd (expected_lt hpost' hpost hsecond) (lt_irrefl _)
  · intro e he directory manifest hstored
    exact (hextends e he).manifests directory manifest hstored
  · intro i call entered leaving e hdone hne
    have hsame : leaving = entered := (hserial.finished i _ _ _ _ hdone).1 hne
    rw [hsame]
    exact ⟨rfl, rfl⟩

section Example

/-- A manifest of project `p`. -/
def sample_manifest (graph_version source_version : String)
    (hversion : 1 ≤ graph_version.length ∧ graph_version.length ≤ 128)
    (hsource : 1 ≤ source_version.length ∧ source_version.length ≤ 256) : GraphBuildManifest where
  project_id := ⟨"p", by decide, by decide⟩
  graph_version := ⟨graph_version, hversion.1, hversion.2⟩
  source_version := ⟨source_version, hsource.1, hsource.2⟩
  created_at := ⟨0, some 0⟩
  graphify_format := ⟨"graph.json", rfl, "1.0", by decide, none⟩
  artifact :=
    ⟨"graph.json", "0123456789abcdef0123456789abcdef0123456789abcdef0123456789abcdef", 10,
      by decide +kernel, by decide +kernel, by decide⟩
  counts := ⟨1, 0, 1⟩
  warnings := []
  warnings_le := by decide

def first_manifest : GraphBuildManifest :=
  sample_manifest "v" "s" (by decide) (by decide)

/-- A version that leads through a directory `x` and back. -/
def detour_manifest : GraphBuildManifest :=
  sample_manifest "x/../v" "t" (by decide) (by decide)

/-- A project directory with nothing in it. -/
def empty_repository : Repository where
  shared := { directories := [["r"]], manifests := fun _ => none, active := none }
  callers := []

/-- A call that arrives, takes the lock and goes on for some actions. -/
def taking_turns (i : Nat) (call : Call) (actions : Nat) : List (LockEvent Call) :=
  .arrive call :: .acquire i :: List.replicate actions (.advance i)

/-- Two saves one after the other; the second is seen to replace the first. -/
def detour : List (LockEvent Call) :=
  taking_turns 0 (.save_manifest first_manifest) 8 ++
    taking_turns 1 (.save_manifest detour_manifest) 9

/-- A published manifest is changed through a version whose path leaves a directory
that is not there. -/
theorem published_manifest_replaced :
    ∃ trace s', Run (fun a e b => Repository.step ["r"] (fun _ => "") a e = some b)
      empty_repository trace s' ∧ ¬ KeepsState ["r"] (fun _ => "") trace s' := by
  refine ⟨_, _, @Run.of_follow _ _ _ _ _ _ detour rfl, fun h => ?_⟩
  have hkept : some detour_manifest = some first_manifest :=
    h.immutable _ (@List.mem_of_getElem? _ _ 20 _ rfl) ["r", "versions", "v"] first_manifest rfl
  have hsource : "t" = "s" := congrArg (fun m => m.source_version.text) (Option.some.inj hkept)
  exact absurd hsource (by decide)

/-- A pointer of project `p` to version `v`. -/
def first_pointer : ActivePointer where
  project_id := ⟨"p", by decide, by decide⟩
  graph_version := ⟨"v", by decide, by decide⟩
  previous_graph_version := none
  generation := 1
  generation_pos := Nat.le_refl 1
  activated_at := ⟨0, some 0⟩
  activated_by := ⟨"u", by decide, by decide⟩
  reason := none

/-- A save and two writers that expect the same generation. -/
def activation : List (LockEvent Call) :=
  taking_turns 0 (.save_manifest first_manifest) 8 ++
    .arrive (.compare_and_set_active first_pointer 0) ::
      taking_turns 2 (.compare_and_set_active first_pointer 0) 5 ++
    .acquire 1 :: List.replicate 2 (.advance 1)

/-- Is the version of a save that takes the lock one whose path is all there? -/
def finds_check (root : List String) (s : Repository) : LockEvent Call → Bool
  | .acquire i =>
    match s.callers[i]? with
    | some ⟨.save_manifest value, .waiting⟩ =>
      (s.shared.manifests (version_location root value.graph_version.text)).isNone
    | _ => true
  | _ => true

theorem findsStored_of_check {e : Transition Repository (LockEvent Call)}
    (h : finds_check root e.before e.label = true) : FindsStored root e := by
  intro i value hlabel hat hstored
  simp only [finds_check, hlabel, hat] at h
  rw [Option.isNone_iff_eq_none] at h
  rw [h] at hstored
  cases hstored

/-- A save and two activations that keep the repository's promises. -/
theorem writers_keep_state_activation :
    ∃ trace s', Run (fun a e b => Repository.step ["r"] (fun _ => "") a e = some b)
      empty_repository trace s' ∧ s'.shared.generation = 1 ∧
        KeepsState ["r"] (fun _ => "") trace s' := by
  have hchecked : (Run.follow (Repository.step ["r"] fun _ => "") empty_repository
      activation).any (fun path => path.2.shared.generation = 1 &&
        path.1.all fun e => finds_check ["r"] e.before e.label) = true := by
    decide +kernel
  rw [Option.any_eq_true] at hchecked
  obtain ⟨⟨trace, s'⟩, hfollow, hchecked⟩ := hchecked
  rw [Bool.and_eq_true, decide_eq_true_eq, List.all_eq_true] at hchecked
  have hrun := Run.of_follow hfollow
  refine ⟨trace, s', hrun, hchecked.1, writers_keep_state rfl (fun pointer hactive => ?_) hrun
    fun e he => findsStored_of_check (hchecked.2 e he)⟩
  cases hactive

end Example

end lagraph.knowledge.state
