import Mathlib.Logic.Function.Basic

namespace foundation

/-- What becomes of a step: it goes through, it raises, or the process dies in
it. -/
inductive Fate
  | passes
  | raises
  | dies
  deriving DecidableEq, Repr

/-- How a computation ends. -/
inductive Outcome (ε α : Type)
  | returned (value : α)
  | raised (error : ε)
  | died
  deriving DecidableEq, Repr

/-- A computation over states `σ` with exceptions `ε`. Its fallible steps are
named by `κ`, and the fates given to those names decide which of them fail. -/
def Faulty (κ ε σ α : Type) : Type :=
  (κ → Fate) → σ → Outcome ε α × σ

namespace Faulty

variable {κ ε σ α β : Type}

instance : Monad (Faulty κ ε σ) where
  pure a := fun _ w => (.returned a, w)
  bind m f := fun fates w =>
    match m fates w with
    | (.returned a, w') => f a fates w'
    | (.raised e, w') => (.raised e, w')
    | (.died, w') => (.died, w')

/-- A named step without an effect of its own. -/
def step (k : κ) (error : ε) : Faulty κ ε σ Unit := fun fates w =>
  match fates k with
  | .passes => (.returned (), w)
  | .raises => (.raised error, w)
  | .dies => (.died, w)

def read : Faulty κ ε σ σ := fun _ w => (.returned w, w)

def change (f : σ → σ) : Faulty κ ε σ Unit := fun _ w => (.returned (), f w)

def raise (error : ε) : Faulty κ ε σ α := fun _ w => (.raised error, w)

def ofExcept : Except ε α → Faulty κ ε σ α
  | .ok a => pure a
  | .error e => raise e

/-- Raises under a condition and has no effect otherwise. -/
def raiseIf (condition : Prop) [Decidable condition] (error : ε) : Faulty κ ε σ Unit :=
  if condition then raise error else pure ()

/-- `try … except Exception`: only an exception is handled. -/
def recover (m : Faulty κ ε σ α) (handler : ε → Faulty κ ε σ α) : Faulty κ ε σ α :=
  fun fates w =>
    match m fates w with
    | (.raised e, w') => handler e fates w'
    | result => result

/-- `try … finally`: the cleanup runs unless the process died, and its own
failure replaces the outcome. -/
def always (m : Faulty κ ε σ α) (cleanup : Faulty κ ε σ Unit) : Faulty κ ε σ α :=
  fun fates w =>
    match m fates w with
    | (.died, w') => (.died, w')
    | (outcome, w') =>
      match cleanup fates w' with
      | (.returned (), w'') => (outcome, w'')
      | (.raised e, w'') => (.raised e, w'')
      | (.died, w'') => (.died, w'')

/-- The action on each element in turn. -/
def forEach (action : α → Faulty κ ε σ Unit) : List α → Faulty κ ε σ Unit
  | [] => pure ()
  | a :: l => do
    action a
    forEach action l

/-- At most one step raises and none kills the process. -/
structure SingleFault (fates : κ → Fate) : Prop where
  survives : ∀ k, fates k ≠ .dies
  unique : ∀ j k, fates j ≠ .passes → fates k ≠ .passes → j = k

/-- Once the fault has been met, every other step goes through. -/
theorem SingleFault.passes {fates : κ → Fate} (h : SingleFault fates) {j k : κ}
    (hj : fates j ≠ .passes) (hne : k ≠ j) : fates k = .passes := by
  by_contra hk
  exact hne (h.unique k j hk hj)

/-- Every step goes through except the ones in the list, which raise. -/
def raising [DecidableEq κ] (stages : List κ) : κ → Fate := fun k =>
  if k ∈ stages then .raises else .passes

theorem SingleFault.raising_one [DecidableEq κ] (k : κ) : SingleFault (raising [k]) := by
  have hfails (j : κ) (h : raising [k] j ≠ .passes) : j = k := by
    by_contra hne
    exact h (if_neg (by simpa using hne))
  refine ⟨fun j => ?_, fun i j hi hj => (hfails i hi).trans (hfails j hj).symm⟩
  unfold raising
  split <;> simp

theorem SingleFault.raising_nil [DecidableEq κ] : SingleFault (raising ([] : List κ)) := by
  have hpasses (j : κ) : raising [] j = .passes := if_neg (by simp)
  refine ⟨fun j => by simp [hpasses], fun i j hi _ => ?_⟩
  exact absurd (hpasses i) hi

theorem SingleFault.eq_of_raises {fates : κ → Fate} (h : SingleFault fates) {j k : κ}
    (hj : fates j = .raises) (hk : fates k = .raises) : j = k :=
  h.unique j k (by simp [hj]) (by simp [hk])

/-- The weakest precondition: the result of running `m` satisfies `post`. -/
def wp (m : Faulty κ ε σ α) (fates : κ → Fate) (post : Outcome ε α → σ → Prop) (w : σ) : Prop :=
  post (m fates w).1 (m fates w).2

variable {m : Faulty κ ε σ α} {fates : κ → Fate} {w : σ}

theorem wp_mono {post post' : Outcome ε α → σ → Prop} (h : wp m fates post w)
    (himp : ∀ o w', post o w' → post' o w') : wp m fates post' w :=
  himp _ _ h

theorem wp_bind {f : α → Faulty κ ε σ β} {post : Outcome ε β → σ → Prop} :
    wp (m >>= f) fates post w ↔ wp m fates (fun o w' =>
      match o with
      | .returned a => wp (f a) fates post w'
      | .raised e => post (.raised e) w'
      | .died => post .died w') w := by
  simp only [wp, Bind.bind]
  rcases m fates w with ⟨a | e | _, w'⟩ <;> rfl

@[simp] theorem wp_pure {a : α} {post : Outcome ε α → σ → Prop} :
    wp (pure a : Faulty κ ε σ α) fates post w ↔ post (.returned a) w :=
  Iff.rfl

@[simp] theorem wp_read {post : Outcome ε σ → σ → Prop} :
    wp (read : Faulty κ ε σ σ) fates post w ↔ post (.returned w) w :=
  Iff.rfl

@[simp] theorem wp_change {f : σ → σ} {post : Outcome ε Unit → σ → Prop} :
    wp (change f : Faulty κ ε σ Unit) fates post w ↔ post (.returned ()) (f w) :=
  Iff.rfl

@[simp] theorem wp_raise {e : ε} {post : Outcome ε α → σ → Prop} :
    wp (raise e : Faulty κ ε σ α) fates post w ↔ post (.raised e) w :=
  Iff.rfl

theorem wp_step {k : κ} {e : ε} {post : Outcome ε Unit → σ → Prop} :
    wp (step k e : Faulty κ ε σ Unit) fates post w ↔
      (fates k = .passes → post (.returned ()) w) ∧ (fates k = .raises → post (.raised e) w) ∧
        (fates k = .dies → post .died w) := by
  simp only [wp, step]
  cases fates k <;> simp

theorem wp_recover {handler : ε → Faulty κ ε σ α} {post : Outcome ε α → σ → Prop} :
    wp (recover m handler) fates post w ↔ wp m fates (fun o w' =>
      match o with
      | .raised e => wp (handler e) fates post w'
      | o => post o w') w := by
  simp only [wp, recover]
  rcases m fates w with ⟨a | e | _, w'⟩ <;> rfl

theorem wp_always {cleanup : Faulty κ ε σ Unit} {post : Outcome ε α → σ → Prop} :
    wp (always m cleanup) fates post w ↔ wp m fates (fun o w' =>
      match o with
      | .died => post .died w'
      | o => wp cleanup fates (fun o' w'' =>
          match o' with
          | .returned () => post o w''
          | .raised e => post (.raised e) w''
          | .died => post .died w'') w') w := by
  simp only [wp, always]
  rcases m fates w with ⟨a | e | _, w'⟩
  · rcases hcleanup : cleanup fates w' with ⟨_ | _ | _, w''⟩ <;> simp [hcleanup]
  · rcases hcleanup : cleanup fates w' with ⟨_ | _ | _, w''⟩ <;> simp [hcleanup]
  · rfl

/-- The outcome of a computation that did not return. -/
def Stopped (o : Outcome ε α) : Prop :=
  ∀ a, o ≠ .returned a

theorem stopped_raised {e : ε} : Stopped (.raised e : Outcome ε α) := by
  intro a h
  cases h

theorem stopped_died : Stopped (.died : Outcome ε α) := by
  intro a h
  cases h

/-- A step either goes through or stops where it is. -/
theorem wp_step_of {k : κ} {e : ε} {post : Outcome ε Unit → σ → Prop}
    (hpasses : fates k = .passes → post (.returned ()) w)
    (hstops : fates k ≠ .passes → ∀ o, Stopped o → post o w) :
    wp (step k e : Faulty κ ε σ Unit) fates post w := by
  rw [wp_step]
  refine ⟨hpasses, fun h => ?_, fun h => ?_⟩
  · exact hstops (by simp [h]) _ stopped_raised
  · exact hstops (by simp [h]) _ stopped_died

/-- A step at the head of a computation: either it goes through, or the whole
stops where it is. -/
theorem wp_step_bind {k : κ} {e : ε} {f : Unit → Faulty κ ε σ α}
    {post : Outcome ε α → σ → Prop}
    (hpasses : fates k = .passes → wp (f ()) fates post w)
    (hstops : fates k ≠ .passes → ∀ o, Stopped o → post o w) :
    wp (step k e >>= f) fates post w := by
  rw [wp_bind]
  refine wp_step_of hpasses fun h o ho => ?_
  cases o with
  | returned a => exact absurd rfl (ho a)
  | raised e => exact hstops h _ stopped_raised
  | died => exact hstops h _ stopped_died

theorem wp_raiseIf_bind {c : Prop} [Decidable c] {e : ε} {f : Unit → Faulty κ ε σ α}
    {post : Outcome ε α → σ → Prop} (hclear : ¬ c → wp (f ()) fates post w)
    (hraised : c → post (.raised e) w) : wp (raiseIf c e >>= f) fates post w := by
  rw [wp_bind, raiseIf]
  by_cases hc : c
  · rw [if_pos hc]
    exact hraised hc
  · rw [if_neg hc]
    exact hclear hc

theorem wp_ofExcept_bind {x : Except ε α} {f : α → Faulty κ ε σ β}
    {post : Outcome ε β → σ → Prop} (hok : ∀ a, x = .ok a → wp (f a) fates post w)
    (herror : ∀ e, x = .error e → post (.raised e) w) :
    wp (ofExcept x >>= f) fates post w := by
  rw [wp_bind]
  cases x with
  | ok a => exact hok a rfl
  | error e => exact herror e rfl

@[simp] theorem wp_read_bind {f : σ → Faulty κ ε σ α} {post : Outcome ε α → σ → Prop} :
    wp (read >>= f) fates post w ↔ wp (f w) fates post w :=
  Iff.rfl

@[simp] theorem wp_change_bind {g : σ → σ} {f : Unit → Faulty κ ε σ α}
    {post : Outcome ε α → σ → Prop} :
    wp (change g >>= f) fates post w ↔ wp (f ()) fates post (g w) :=
  Iff.rfl

/-- The composition rule. -/
theorem wp_bind_of {f : α → Faulty κ ε σ β} {mid : Outcome ε α → σ → Prop}
    {post : Outcome ε β → σ → Prop} (hm : wp m fates mid w)
    (hreturned : ∀ a w', mid (.returned a) w' → wp (f a) fates post w')
    (hraised : ∀ e w', mid (.raised e) w' → post (.raised e) w')
    (hdied : ∀ w', mid .died w' → post .died w') : wp (m >>= f) fates post w := by
  rw [wp_bind]
  refine wp_mono hm fun o w' hmid => ?_
  cases o with
  | returned a => exact hreturned a w' hmid
  | raised e => exact hraised e w' hmid
  | died => exact hdied w' hmid

/-- The rule for a handler. -/
theorem wp_recover_of {handler : ε → Faulty κ ε σ α} {mid post : Outcome ε α → σ → Prop}
    (hm : wp m fates mid w) (hreturned : ∀ a w', mid (.returned a) w' → post (.returned a) w')
    (hraised : ∀ e w', mid (.raised e) w' → wp (handler e) fates post w')
    (hdied : ∀ w', mid .died w' → post .died w') : wp (recover m handler) fates post w := by
  rw [wp_recover]
  refine wp_mono hm fun o w' hmid => ?_
  cases o with
  | returned a => exact hreturned a w' hmid
  | raised e => exact hraised e w' hmid
  | died => exact hdied w' hmid

/-- The rule for a cleanup of one step: when it goes through, the outcome is that
of the body, and when it does not, the whole stops. -/
theorem wp_always_step {k : κ} {e : ε} {mid post : Outcome ε α → σ → Prop}
    (hm : wp m fates mid w)
    (hpasses : fates k = .passes → ∀ o w', mid o w' → post o w')
    (hfails : fates k ≠ .passes → ∀ o w', mid o w' → ∀ o', Stopped o' → post o' w') :
    wp (always m (step k e)) fates post w := by
  rw [wp_always]
  refine wp_mono hm fun o w' hmid => ?_
  by_cases hk : fates k = .passes
  · cases o with
    | died => exact hpasses hk _ w' hmid
    | returned a => simpa [wp_step, hk] using hpasses hk _ w' hmid
    | raised e => simpa [wp_step, hk] using hpasses hk _ w' hmid
  · have hstop := hfails hk o w' hmid
    have hcleanup (o : Outcome ε α) : wp (step k e : Faulty κ ε σ Unit) fates (fun o' w'' =>
        match o' with
        | .returned () => post o w''
        | .raised e => post (.raised e) w''
        | .died => post .died w'') w' := by
      rw [wp_step]
      exact ⟨fun h => absurd h hk, fun _ => hstop _ stopped_raised, fun _ => hstop _ stopped_died⟩
    cases o with
    | died => exact hstop _ stopped_died
    | returned a => exact hcleanup _
    | raised e' => exact hcleanup _

/-- Every exception of the computation satisfies `P`, whatever happens. -/
def RaisesOnly (P : ε → Prop) (m : Faulty κ ε σ α) : Prop :=
  ∀ fates w, wp m fates (fun o _ => ∀ e, o = .raised e → P e) w

section RaisesOnly

variable {P : ε → Prop}

theorem RaisesOnly.step {k : κ} {e : ε} (h : P e) :
    RaisesOnly P (step k e : Faulty κ ε σ Unit) := by
  intro fates w
  rw [wp_step]
  refine ⟨fun _ e' he => ?_, fun _ e' he => ?_, fun _ e' he => ?_⟩
  · cases he
  · cases he
    exact h
  · cases he

theorem RaisesOnly.change {f : σ → σ} : RaisesOnly P (change f : Faulty κ ε σ Unit) := by
  intro fates w e he
  cases he

theorem RaisesOnly.raise {e : ε} (h : P e) : RaisesOnly P (raise e : Faulty κ ε σ α) := by
  intro fates w e' he
  cases he
  exact h

theorem RaisesOnly.bind {f : α → Faulty κ ε σ β} (hm : RaisesOnly P m)
    (hf : ∀ a, RaisesOnly P (f a)) : RaisesOnly P (m >>= f) := by
  intro fates w
  refine wp_bind_of (hm fates w) (fun a w' _ => hf a fates w') (fun e w' h e' he => ?_)
    (fun w' _ e' he => ?_)
  · cases he
    exact h e rfl
  · cases he

theorem RaisesOnly.recover {handler : ε → Faulty κ ε σ α} (hm : RaisesOnly P m)
    (hhandler : ∀ e, P e → RaisesOnly P (handler e)) : RaisesOnly P (recover m handler) := by
  intro fates w
  refine wp_recover_of (hm fates w) (fun a w' h => ?_) (fun e w' h => ?_) (fun w' h => h)
  · exact h
  · exact hhandler e (h e rfl) fates w'

theorem RaisesOnly.always {cleanup : Faulty κ ε σ Unit} (hm : RaisesOnly P m)
    (hcleanup : RaisesOnly P cleanup) : RaisesOnly P (always m cleanup) := by
  intro fates w
  rw [wp_always]
  have hend (o : Outcome ε α) (ho : ∀ e, o = .raised e → P e) (w' : σ) :
      wp cleanup fates (fun o' w'' =>
        match o' with
        | .returned () => ∀ e, o = .raised e → P e
        | .raised e => ∀ e', (.raised e : Outcome ε α) = .raised e' → P e'
        | .died => ∀ e', (.died : Outcome ε α) = .raised e' → P e') w' := by
    refine wp_mono (hcleanup fates w') fun o' w'' h => ?_
    cases o' with
    | returned a => exact ho
    | raised e =>
      intro e' he
      cases he
      exact h e rfl
    | died =>
      intro e' he
      cases he
  refine wp_mono (hm fates w) fun o w' ho => ?_
  cases o with
  | returned a => exact hend _ ho w'
  | raised e => exact hend _ ho w'
  | died => exact ho

end RaisesOnly

/-- The outcome agrees with a fate. -/
def Follows : Fate → Outcome ε α → Prop
  | .passes, .returned _ => True
  | .raises, .raised _ => True
  | .dies, .died => True
  | _, _ => False

theorem Follows.stopped {fate : Fate} {o : Outcome ε α} (h : Follows fate o)
    (hne : fate ≠ .passes) : Stopped o := by
  intro a ho
  subst ho
  cases fate with
  | passes => exact hne rfl
  | raises => exact h
  | dies => exact h

theorem Follows.returned {fate : Fate} {a : α}
    (h : Follows fate (.returned a : Outcome ε α)) : fate = .passes := by
  cases fate with
  | passes => rfl
  | raises => exact h.elim
  | dies => exact h.elim

theorem Follows.raised {fate : Fate} {e : ε}
    (h : Follows fate (.raised e : Outcome ε α)) : fate = .raises := by
  cases fate with
  | passes => exact h.elim
  | raises => rfl
  | dies => exact h.elim

theorem Follows.died {fate : Fate} (h : Follows fate (.died : Outcome ε α)) : fate = .dies := by
  cases fate with
  | passes => exact h.elim
  | raises => exact h.elim
  | dies => rfl

theorem Follows.raised_iff {fate : Fate} {o : Outcome ε α} (h : Follows fate o) :
    (∃ e, o = .raised e) ↔ fate = .raises := by
  constructor
  · intro hraised
    obtain ⟨e, rfl⟩ := hraised
    exact h.raised
  · intro hfate
    subst hfate
    cases o with
    | returned a => exact h.elim
    | raised e => exact ⟨e, rfl⟩
    | died => exact h.elim

/-- A step with the outcome its fate asks for. -/
theorem wp_step_follows {k : κ} {e : ε} {post : Outcome ε Unit → σ → Prop}
    (h : ∀ o, Follows (fates k) o → post o w) :
    wp (step k e : Faulty κ ε σ Unit) fates post w := by
  rw [wp_step]
  refine ⟨fun hk => h _ ?_, fun hk => h _ ?_, fun hk => h _ ?_⟩ <;> rw [hk] <;> trivial

/-- A step at the head of a computation, when the outcome matters. -/
theorem wp_step_bind_follows {k : κ} {e : ε} {f : Unit → Faulty κ ε σ α}
    {post : Outcome ε α → σ → Prop}
    (hpasses : fates k = .passes → wp (f ()) fates post w)
    (hfails : fates k ≠ .passes → ∀ o, Follows (fates k) o → post o w) :
    wp (step k e >>= f) fates post w := by
  rw [wp_bind, wp_step]
  refine ⟨hpasses, fun h => hfails (by simp [h]) _ ?_, fun h => hfails (by simp [h]) _ ?_⟩
  · rw [h]
    trivial
  · rw [h]
    trivial

/-- The fate of steps taken in turn: that of the first one that does not go
through. -/
def through (fates : κ → Fate) : List κ → Fate
  | [] => .passes
  | k :: stages =>
    match fates k with
    | .passes => through fates stages
    | fate => fate

@[simp] theorem through_nil : through fates [] = .passes := rfl

theorem through_cons_of_passes {k : κ} {stages : List κ} (h : fates k = .passes) :
    through fates (k :: stages) = through fates stages := by
  simp [through, h]

theorem through_cons_of_not_passes {k : κ} {stages : List κ} (h : fates k ≠ .passes) :
    through fates (k :: stages) = fates k := by
  cases hk : fates k with
  | passes => exact absurd hk h
  | raises => simp [through, hk]
  | dies => simp [through, hk]

theorem through_eq_passes {stages : List κ} :
    through fates stages = .passes ↔ ∀ k ∈ stages, fates k = .passes := by
  induction stages with
  | nil => simp
  | cons k stages ih =>
    by_cases hk : fates k = .passes
    · rw [through_cons_of_passes hk, ih]
      simp [hk]
    · rw [through_cons_of_not_passes hk]
      simp [hk]

theorem through_append_of_passes {front back : List κ} (h : through fates front = .passes) :
    through fates (front ++ back) = through fates back := by
  induction front with
  | nil => rfl
  | cons k front ih =>
    have hall := through_eq_passes.mp h
    rw [List.cons_append, through_cons_of_passes (hall k (by simp))]
    exact ih (through_eq_passes.mpr fun j hj => hall j (List.mem_cons_of_mem _ hj))

theorem through_append_eq_passes {front back : List κ} :
    through fates (front ++ back) = .passes ↔
      through fates front = .passes ∧ through fates back = .passes := by
  simp only [through_eq_passes, List.mem_append, or_imp, forall_and]

theorem through_singleton {k : κ} : through fates [k] = fates k := by
  cases h : fates k <;> simp [through, h]

/-- Where one step is known to fail, the others go through. -/
theorem SingleFault.through_passes (h : SingleFault fates) {k : κ} {stages : List κ}
    (hk : fates k ≠ .passes) (hmem : k ∉ stages) : through fates stages = .passes := by
  rw [through_eq_passes]
  intro j hj
  refine h.passes hk fun hjk => hmem ?_
  rwa [← hjk]

theorem SingleFault.raises (h : SingleFault fates) {k : κ} (hk : fates k ≠ .passes) :
    fates k = .raises := by
  cases hfate : fates k with
  | passes => exact absurd hfate hk
  | raises => rfl
  | dies => exact absurd hfate (h.survives k)

theorem SingleFault.through_raises (h : SingleFault fates) {stages : List κ}
    (hstages : through fates stages ≠ .passes) : through fates stages = .raises := by
  induction stages with
  | nil => exact absurd rfl hstages
  | cons k stages ih =>
    by_cases hk : fates k = .passes
    · rw [through_cons_of_passes hk] at hstages ⊢
      exact ih hstages
    · rw [through_cons_of_not_passes hk]
      exact h.raises hk

/-- Steps that do not go through hold the fault, so others do. -/
theorem SingleFault.through_disjoint (h : SingleFault fates) {stages others : List κ}
    (hstages : through fates stages ≠ .passes) (hdisjoint : ∀ k ∈ stages, k ∉ others) :
    through fates others = .passes := by
  simp only [Ne, through_eq_passes, not_forall] at hstages
  obtain ⟨k, hmem, hk⟩ := hstages
  exact h.through_passes hk (hdisjoint k hmem)

theorem SingleFault.passes_disjoint (h : SingleFault fates) {stages : List κ} {k : κ}
    (hstages : through fates stages ≠ .passes) (hk : k ∉ stages) : fates k = .passes := by
  have hothers : through fates [k] = .passes := by
    refine h.through_disjoint hstages fun j hj hmem => hk ?_
    rwa [← List.mem_singleton.mp hmem]
  rwa [through_singleton] at hothers

end Faulty

end foundation
