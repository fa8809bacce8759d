import LaGraph.Foundation.Locked

namespace foundation.Guarded

variable {D ε α κ : Type}

/-- The call at `i` holds the lock. -/
def Inside (s : Guarded D ε α κ) (i : Nat) (call : κ) (entered : D) (program : Program D ε α) :
    Prop :=
  s.callers[i]? = some ⟨call, .inside entered program⟩

/-- The call at `i` has ended. -/
def Done (s : Guarded D ε α κ) (i : Nat) (call : κ) (entered leaving : D)
    (outcome : Except ε α) : Prop :=
  s.callers[i]? = some ⟨call, .done entered leaving outcome⟩

/-- The calls take effect one after the other, each as `post` says: one holds the
lock at a time, and every change is an `R` step. -/
structure Serial (R : D → D → Prop) (post : κ → D → Except ε α → D → Prop)
    (s : Guarded D ε α κ) : Prop where
  alone : ∀ i j call other entered entered' program program',
    s.Inside i call entered program → s.Inside j other entered' program' → i = j
  running : ∀ i call entered program, s.Inside i call entered program →
    program.Keeps R (post call entered) s.shared
  finished : ∀ i call entered leaving outcome, s.Done i call entered leaving outcome →
    post call entered outcome leaving ∧ R leaving s.shared
  earlier : ∀ i j call other entered leaving entered' outcome program,
    s.Done i call entered leaving outcome → s.Inside j other entered' program →
      R leaving entered'
  ordered : ∀ i j call other entered leaving entered' leaving' outcome outcome', i ≠ j →
    s.Done i call entered leaving outcome → s.Done j other entered' leaving' outcome' →
      R leaving entered' ∨ R leaving' entered

/-- A call that takes the lock is one whose program keeps its promises from there. -/
def EntersKept (body : κ → Program D ε α) (R : D → D → Prop)
    (post : κ → D → Except ε α → D → Prop)
    (e : Transition (Guarded D ε α κ) (LockEvent κ)) : Prop :=
  ∀ i call, e.label = .acquire i → e.before.callers[i]? = some ⟨call, .waiting⟩ →
    (body call).Keeps R (post call e.before.shared) e.before.shared

variable {body : κ → Program D ε α} {failure : ε} {R : D → D → Prop}
  {post : κ → D → Except ε α → D → Prop} {s s' : Guarded D ε α κ} {i j : Nat}
  {call : κ} {stage : Stage D ε α} {caller found : Caller D ε α κ}

/-- What is at a place after a call was put back: that call, or what was there. -/
theorem lookup_put (hat : s.callers[i]? = some caller)
    (h : (s.put i call stage).callers[j]? = some found) :
    (j = i ∧ found = ⟨call, stage⟩) ∨ (j ≠ i ∧ s.callers[j]? = some found) := by
  have hlt : i < s.callers.length := (List.getElem?_eq_some_iff.mp hat).1
  rw [put, List.getElem?_set] at h
  by_cases hij : i = j
  · rw [if_pos hij, if_pos (hij ▸ hlt), Option.some.injEq] at h
    exact Or.inl ⟨hij.symm, h.symm⟩
  · rw [if_neg hij] at h
    exact Or.inr ⟨fun hji => hij hji.symm, h⟩

theorem lookup_arrive (hfound : found.stage ≠ .waiting)
    (h : (s.callers ++ [⟨call, .waiting⟩])[j]? = some found) : s.callers[j]? = some found := by
  rw [List.getElem?_append] at h
  split at h
  · exact h
  · obtain ⟨hlt, hget⟩ := List.getElem?_eq_some_iff.mp h
    simp only [List.getElem_singleton] at hget
    rw [← hget] at hfound
    exact absurd rfl hfound

theorem not_inside_of_free (hfree : s.held = false) {entered : D} {program : Program D ε α} :
    ¬ s.Inside i call entered program := by
  intro h
  have hmem : ⟨call, .inside entered program⟩ ∈ s.callers := List.mem_of_getElem? h
  rw [held, List.any_eq_false] at hfree
  exact hfree _ hmem rfl

/-- Where nobody has called yet, there is nothing to order. -/
theorem Serial.of_nil (h : s.callers = []) : Serial R post s := by
  have hnone : ∀ {i : Nat} {found : Caller D ε α κ}, s.callers[i]? ≠ some found := by
    intro i found
    simp [h]
  exact ⟨fun _ _ _ _ _ _ _ _ hi => absurd hi hnone, fun _ _ _ _ hi => absurd hi hnone,
    fun _ _ _ _ _ hi => absurd hi hnone, fun _ _ _ _ _ _ _ _ _ hi => absurd hi hnone,
    fun _ _ _ _ _ _ _ _ _ _ _ hi => absurd hi hnone⟩

/-- A call that waits or goes leaves the others as they were. -/
theorem Serial.put_away (h : Serial R post s) (hat : s.callers[i]? = some caller)
    (hinside : stage.isInside = false) (hdone : ∀ a b c, stage ≠ .done a b c) :
    Serial R post (s.put i call stage) := by
  have hold : ∀ {j other entered program}, (s.put i call stage).Inside j other entered program →
      s.Inside j other entered program := by
    intro j other entered program hj
    rcases lookup_put hat hj with ⟨-, hsame⟩ | ⟨-, hj⟩
    · cases hsame
      cases hinside
    · exact hj
  have hended : ∀ {j other entered leaving outcome},
      (s.put i call stage).Done j other entered leaving outcome →
        s.Done j other entered leaving outcome := by
    intro j other entered leaving outcome hj
    rcases lookup_put hat hj with ⟨-, hsame⟩ | ⟨-, hj⟩
    · cases hsame
      exact absurd rfl (hdone _ _ _)
    · exact hj
  refine ⟨?_, ?_, ?_, ?_, ?_⟩
  · intro j k _ _ _ _ _ _ hj hk
    exact h.alone j k _ _ _ _ _ _ (hold hj) (hold hk)
  · intro j _ _ _ hj
    exact h.running j _ _ _ (hold hj)
  · intro j _ _ _ _ hj
    exact h.finished j _ _ _ _ (hended hj)
  · intro j k _ _ _ _ _ _ _ hj hk
    exact h.earlier j k _ _ _ _ _ _ _ (hended hj) (hold hk)
  · intro j k _ _ _ _ _ _ _ _ hne hj hk
    exact h.ordered j k _ _ _ _ _ _ _ _ hne (hended hj) (hended hk)

/-- What an event does to the order of the calls. -/
theorem Serial.step (h : Serial R post s) (hrefl : ∀ d, R d d)
    (htrans : ∀ a b c, R a b → R b c → R a c)
    (hfailure : ∀ call d d', post call d (.error failure) d') {e : LockEvent κ}
    (hstep : s.step body failure e = some s') (henters : EntersKept body R post ⟨s, e, s'⟩) :
    Serial R post s' := by
  cases step_cases hstep with
  | arrive call =>
    refine ⟨?_, ?_, ?_, ?_, ?_⟩
    · intro j k _ _ _ _ _ _ hj hk
      exact h.alone j k _ _ _ _ _ _ (lookup_arrive (by simp) hj) (lookup_arrive (by simp) hk)
    · intro j _ _ _ hj
      exact h.running j _ _ _ (lookup_arrive (by simp) hj)
    · intro j _ _ _ _ hj
      exact h.finished j _ _ _ _ (lookup_arrive (by simp) hj)
    · intro j k _ _ _ _ _ _ _ hj hk
      exact h.earlier j k _ _ _ _ _ _ _ (lookup_arrive (by simp) hj)
        (lookup_arrive (by simp) hk)
    · intro j k _ _ _ _ _ _ _ _ hne hj hk
      exact h.ordered j k _ _ _ _ _ _ _ _ hne (lookup_arrive (by simp) hj)
        (lookup_arrive (by simp) hk)
  | @acquire i call hat hfree =>
    have hkept := henters i call rfl hat
    have hold : ∀ {j other entered leaving outcome},
        (s.put i call (.inside s.shared (body call))).Done j other entered leaving outcome →
          s.Done j other entered leaving outcome := by
      intro j other entered leaving outcome hj
      rcases lookup_put hat hj with ⟨-, hsame⟩ | ⟨-, hj⟩
      · cases hsame
      · exact hj
    have hholder : ∀ {j other entered program},
        (s.put i call (.inside s.shared (body call))).Inside j other entered program →
          j = i ∧ other = call ∧ entered = s.shared ∧ program = body call := by
      intro j other entered program hj
      rcases lookup_put hat hj with ⟨hji, hsame⟩ | ⟨-, hj⟩
      · cases hsame
        exact ⟨hji, rfl, rfl, rfl⟩
      · exact absurd hj (not_inside_of_free hfree)
    refine ⟨?_, ?_, ?_, ?_, ?_⟩
    · intro j k _ _ _ _ _ _ hj hk
      exact (hholder hj).1.trans (hholder hk).1.symm
    · intro j _ _ _ hj
      obtain ⟨-, rfl, rfl, rfl⟩ := hholder hj
      exact hkept
    · intro j _ _ _ _ hj
      exact h.finished j _ _ _ _ (hold hj)
    · intro j k _ _ _ _ _ _ _ hj hk
      obtain ⟨-, -, rfl, -⟩ := hholder hk
      exact (h.finished j _ _ _ _ (hold hj)).2
    · intro j k _ _ _ _ _ _ _ _ hne hj hk
      exact h.ordered j k _ _ _ _ _ _ _ _ hne (hold hj) (hold hk)
  | @act i call entered change next hat =>
    obtain ⟨hR, hnext⟩ := h.running i call entered _ hat
    have hold : ∀ {j other d d' outcome},
        Done { s.put i call (.inside entered (next s.shared)) with shared := change s.shared }
          j other d d' outcome → s.Done j other d d' outcome := by
      intro j other d d' outcome hj
      rcases lookup_put hat hj with ⟨-, hsame⟩ | ⟨-, hj⟩
      · cases hsame
      · exact hj
    have hholder : ∀ {j other d program},
        Inside { s.put i call (.inside entered (next s.shared)) with shared := change s.shared }
          j other d program →
          j = i ∧ other = call ∧ d = entered ∧ program = next s.shared := by
      intro j other d program hj
      rcases lookup_put hat hj with ⟨hji, hsame⟩ | ⟨hji, hj⟩
      · cases hsame
        exact ⟨hji, rfl, rfl, rfl⟩
      · exact absurd (h.alone j i _ _ _ _ _ _ hj hat) hji
    refine ⟨?_, ?_, ?_, ?_, ?_⟩
    · intro j k _ _ _ _ _ _ hj hk
      exact (hholder hj).1.trans (hholder hk).1.symm
    · intro j _ _ _ hj
      obtain ⟨-, rfl, rfl, rfl⟩ := hholder hj
      exact hnext
    · intro j _ _ _ _ hj
      obtain ⟨hpost, hleft⟩ := h.finished j _ _ _ _ (hold hj)
      exact ⟨hpost, htrans _ _ _ hleft hR⟩
    · intro j k _ _ _ _ _ _ _ hj hk
      obtain ⟨-, -, rfl, -⟩ := hholder hk
      exact h.earlier j i _ _ _ _ _ _ _ (hold hj) hat
    · intro j k _ _ _ _ _ _ _ _ hne hj hk
      exact h.ordered j k _ _ _ _ _ _ _ _ hne (hold hj) (hold hk)
  | @finish i _ call entered program outcome hat houtcome =>
    have hpost : post call entered outcome s.shared := by
      have hkeeps := h.running i call entered program hat
      rcases houtcome with rfl | ⟨a, rfl, rfl⟩ | ⟨e, rfl, rfl⟩
      · exact hfailure call entered s.shared
      · exact hkeeps
      · exact hkeeps
    have hnobody : ∀ {j other d program'},
        ¬ (s.put i call (.done entered s.shared outcome)).Inside j other d program' := by
      intro j other d program' hj
      rcases lookup_put hat hj with ⟨-, hsame⟩ | ⟨hji, hj⟩
      · cases hsame
      · exact hji (h.alone j i _ _ _ _ _ _ hj hat)
    refine ⟨?_, ?_, ?_, ?_, ?_⟩
    · intro j k _ _ _ _ _ _ hj
      exact absurd hj hnobody
    · intro j _ _ _ hj
      exact absurd hj hnobody
    · intro j _ _ _ _ hj
      rcases lookup_put hat hj with ⟨-, hsame⟩ | ⟨-, hj⟩
      · cases hsame
        exact ⟨hpost, hrefl _⟩
      · exact h.finished j _ _ _ _ hj
    · intro j k _ _ _ _ _ _ _ _ hk
      exact absurd hk hnobody
    · intro j k _ _ _ _ _ _ _ _ hne hj hk
      rcases lookup_put hat hj with ⟨hji, hsame⟩ | ⟨hji, hj⟩
      · cases hsame
        rcases lookup_put hat hk with ⟨hki, -⟩ | ⟨-, hk⟩
        · exact absurd (hji.trans hki.symm) hne
        · exact Or.inr (h.earlier k i _ _ _ _ _ _ _ hk hat)
      · rcases lookup_put hat hk with ⟨-, hsame⟩ | ⟨-, hk⟩
        · cases hsame
          exact Or.inl (h.earlier j i _ _ _ _ _ _ _ hj hat)
        · exact h.ordered j k _ _ _ _ _ _ _ _ hne hj hk
  | go hat => exact h.put_away hat rfl (by simp)

/-- A step of a serial system is an `R` step. -/
theorem Serial.step_kept (h : Serial R post s) (hrefl : ∀ d, R d d) {e : LockEvent κ}
    (hstep : s.step body failure e = some s') : R s.shared s'.shared := by
  cases step_cases hstep with
  | act hat => exact (h.running _ _ _ _ hat).1
  | arrive | acquire | finish | go => exact hrefl _

/-- Under a lock, calls that keep their promises alone keep them in every
interleaving. -/
theorem serial_of_run {trace : List (Transition (Guarded D ε α κ) (LockEvent κ))}
    (hstart : s.callers = []) (hrefl : ∀ d, R d d) (htrans : ∀ a b c, R a b → R b c → R a c)
    (hfailure : ∀ call d d', post call d (.error failure) d')
    (hrun : Run (fun a e b => a.step body failure e = some b) s trace s')
    (henters : ∀ e ∈ trace, EntersKept body R post e) :
    Serial R post s' ∧ ∀ e ∈ trace, R e.before.shared e.after.shared := by
  obtain ⟨hend, hall⟩ := hrun.invariant (Serial.of_nil hstart) henters
    fun _ _ _ hstep hc hi => hi.step hrefl htrans hfailure hstep hc
  refine ⟨hend, fun e he => ?_⟩
  obtain ⟨hbefore, hstep⟩ := hall e he
  exact hbefore.step_kept hrefl hstep

end foundation.Guarded
