import LaGraph.Foundation.Transactions
import Mathlib.Data.List.Basic

namespace foundation

/-- A transaction in flight: what is left of its program, the changes it has made
and not committed, and the row locks it holds. -/
structure Session (D L ε α κ : Type) where
  call : κ
  program : Tx D L ε α
  pending : D → D
  held : List L
  /-- The number of statements executed. -/
  executed : Nat

/-- What is committed, the transactions in flight and the results of those that
have committed. -/
structure System (D L ε α κ : Type) where
  committed : D
  sessions : List (Session D L ε α κ)
  returned : List (κ × α)

/-- A transaction starts, takes its next step, or is rolled back. -/
inductive Event (κ : Type)
  | start (call : κ)
  | advance (i : Nat)
  | abort (i : Nat)

variable {D L ε α κ : Type}

def Session.of (service : κ → Tx D L ε α) (call : κ) : Session D L ε α κ where
  call := call
  program := service call
  pending := id
  held := []
  executed := 0

namespace Session

/-- Two sessions hold no lock in common. -/
def Apart (x y : Session D L ε α κ) : Prop :=
  ∀ row ∈ x.held, row ∉ y.held

theorem Apart.symm {x y : Session D L ε α κ} (h : x.Apart y) : y.Apart x :=
  fun row hy hx => h row hx hy

/-- The session with the lock of a row. -/
def lock (x : Session D L ε α κ) (row : L) (next : Tx D L ε α) : Session D L ε α κ :=
  { x with program := next, held := row :: x.held }

/-- The session after a statement, which sees what is committed and its own
changes. -/
def execute (x : Session D L ε α κ) (d : D) (change : D → D → D) (next : D → Tx D L ε α) :
    Session D L ε α κ :=
  { x with
    program := next (x.pending d), pending := change (x.pending d) ∘ x.pending,
    executed := x.executed + 1 }

/-- The session has nothing left but to commit. -/
def ready (x : Session D L ε α κ) : Bool :=
  match x.program with
  | .ret _ => true
  | .raise _ | .lock _ _ | .stmt _ _ => false

variable {x : Session D L ε α κ} {d : D} {row : L} {change : D → D → D}
  {next : D → Tx D L ε α} {rest : Tx D L ε α}

@[simp] theorem lock_call : (x.lock row rest).call = x.call := rfl

@[simp] theorem lock_held : (x.lock row rest).held = row :: x.held := rfl

@[simp] theorem lock_pending : (x.lock row rest).pending = x.pending := rfl

@[simp] theorem lock_executed : (x.lock row rest).executed = x.executed := rfl

@[simp] theorem lock_program : (x.lock row rest).program = rest := rfl

@[simp] theorem execute_call : (x.execute d change next).call = x.call := rfl

@[simp] theorem execute_held : (x.execute d change next).held = x.held := rfl

@[simp] theorem execute_pending :
    (x.execute d change next).pending = change (x.pending d) ∘ x.pending := rfl

@[simp] theorem execute_executed : (x.execute d change next).executed = x.executed + 1 := rfl

@[simp] theorem execute_program : (x.execute d change next).program = next (x.pending d) := rfl

end Session

namespace System

variable [DecidableEq L]

def empty (d : D) : System D L ε α κ where
  committed := d
  sessions := []
  returned := []

/-- The session at an index has nothing to do but wait. -/
def blocked (s : System D L ε α κ) (i : Nat) (row : L) : Bool :=
  (s.sessions.eraseIdx i).any fun other => other.held.contains row

/-- The step of the session at index `i`. -/
def advance (s : System D L ε α κ) (i : Nat) (x : Session D L ε α κ) :
    Option (System D L ε α κ) :=
  match x.program with
  | .ret a =>
    some
      { committed := x.pending s.committed, sessions := s.sessions.eraseIdx i,
        returned := s.returned ++ [(x.call, a)] }
  | .raise _ => some { s with sessions := s.sessions.eraseIdx i }
  | .lock row next =>
    if s.blocked i row then none
    else some { s with sessions := s.sessions.set i (x.lock row next) }
  | .stmt change next =>
    some { s with sessions := s.sessions.set i (x.execute s.committed change next) }

/-- The event, if it can happen. -/
def step (service : κ → Tx D L ε α) (s : System D L ε α κ) :
    Event κ → Option (System D L ε α κ)
  | .start call => some { s with sessions := s.sessions ++ [.of service call] }
  | .advance i => s.sessions[i]?.bind (s.advance i)
  | .abort i =>
    if i < s.sessions.length then some { s with sessions := s.sessions.eraseIdx i } else none

/-- The session `x` stands between `before` and `after`. -/
structure At (s : System D L ε α κ) (i : Nat) (before : List (Session D L ε α κ))
    (x : Session D L ε α κ) (after : List (Session D L ε α κ)) : Prop where
  sessions : s.sessions = before ++ x :: after
  index : i = before.length

omit [DecidableEq L] in
theorem at_of_lt {s : System D L ε α κ} {i : Nat} (h : i < s.sessions.length) :
    ∃ before x after, s.sessions[i]? = some x ∧ s.At i before x after := by
  refine ⟨s.sessions.take i, s.sessions[i], s.sessions.drop (i + 1), ?_, ?_, ?_⟩
  · exact List.getElem?_eq_getElem h
  · rw [List.getElem_cons_drop, List.take_append_drop]
  · rw [List.length_take, Nat.min_eq_left (Nat.le_of_lt h)]

omit [DecidableEq L] in
theorem At.getElem? {s : System D L ε α κ} {i : Nat} {before after : List (Session D L ε α κ)}
    {x : Session D L ε α κ} (h : s.At i before x after) : s.sessions[i]? = some x := by
  rw [h.sessions, h.index, List.getElem?_append_right (Nat.le_refl _), Nat.sub_self]
  rfl

omit [DecidableEq L] in
theorem At.eraseIdx {s : System D L ε α κ} {i : Nat} {before after : List (Session D L ε α κ)}
    {x : Session D L ε α κ} (h : s.At i before x after) :
    s.sessions.eraseIdx i = before ++ after := by
  rw [h.sessions, h.index, List.eraseIdx_append_of_length_le (Nat.le_refl _)]
  simp

omit [DecidableEq L] in
theorem At.set {s : System D L ε α κ} {i : Nat} {before after : List (Session D L ε α κ)}
    {x y : Session D L ε α κ} (h : s.At i before x after) :
    s.sessions.set i y = before ++ y :: after := by
  rw [h.sessions, h.index, List.set_append_right _ _ (Nat.le_refl _)]
  simp

/-- What an event does. -/
inductive Step (service : κ → Tx D L ε α) (s : System D L ε α κ) :
    Event κ → System D L ε α κ → Prop
  | start (call : κ) :
    Step service s (.start call) { s with sessions := s.sessions ++ [.of service call] }
  | commit {i : Nat} {before after : List (Session D L ε α κ)} {x : Session D L ε α κ} {a : α}
    (hat : s.At i before x after) (hprogram : x.program = .ret a) :
    Step service s (.advance i)
      { committed := x.pending s.committed, sessions := before ++ after,
        returned := s.returned ++ [(x.call, a)] }
  | roll_back {i : Nat} {before after : List (Session D L ε α κ)} {x : Session D L ε α κ}
    {e : Event κ} (hat : s.At i before x after) (he : e = .advance i ∨ e = .abort i) :
    Step service s e { s with sessions := before ++ after }
  | lock {i : Nat} {before after : List (Session D L ε α κ)} {x : Session D L ε α κ} {row : L}
    {next : Tx D L ε α} (hat : s.At i before x after) (hprogram : x.program = .lock row next)
    (hfree : ∀ other ∈ before ++ after, row ∉ other.held) :
    Step service s (.advance i) { s with sessions := before ++ x.lock row next :: after }
  | execute {i : Nat} {before after : List (Session D L ε α κ)} {x : Session D L ε α κ}
    {change : D → D → D} {next : D → Tx D L ε α} (hat : s.At i before x after)
    (hprogram : x.program = .stmt change next) :
    Step service s (.advance i)
      { s with sessions := before ++ x.execute s.committed change next :: after }

theorem step_cases {service : κ → Tx D L ε α} {s s' : System D L ε α κ} {e : Event κ}
    (h : s.step service e = some s') : Step service s e s' := by
  cases e with
  | start call =>
    rw [step, Option.some.injEq] at h
    rw [← h]
    exact .start call
  | abort i =>
    rw [step] at h
    split at h
    · rename_i hlt
      obtain ⟨before, x, after, -, hat⟩ := at_of_lt hlt
      rw [Option.some.injEq, hat.eraseIdx] at h
      rw [← h]
      exact .roll_back hat (Or.inr rfl)
    · cases h
  | advance i =>
    rw [step, Option.bind_eq_some_iff] at h
    obtain ⟨x, hx, h⟩ := h
    obtain ⟨before, y, after, hy, hat⟩ := at_of_lt (List.getElem?_eq_some_iff.mp hx).1
    cases hx.symm.trans hy
    unfold advance at h
    split at h
    case h_1 a hprogram =>
      rw [Option.some.injEq, hat.eraseIdx] at h
      rw [← h]
      exact .commit hat hprogram
    case h_2 error hprogram =>
      rw [Option.some.injEq, hat.eraseIdx] at h
      rw [← h]
      exact .roll_back hat (Or.inl rfl)
    case h_3 row next hprogram =>
      split at h
      · cases h
      · rename_i hfree
        rw [Option.some.injEq, hat.set] at h
        rw [← h]
        refine .lock hat hprogram fun other hother hheld => hfree ?_
        rw [blocked, hat.eraseIdx, List.any_eq_true]
        exact ⟨other, hother, by simpa using hheld⟩
    case h_4 change next hprogram =>
      rw [Option.some.injEq, hat.set] at h
      rw [← h]
      exact .execute hat hprogram

/-- No two transactions in flight hold the same lock. -/
def Exclusive (s : System D L ε α κ) : Prop :=
  s.sessions.Pairwise Session.Apart

omit [DecidableEq L] in
theorem At.exclusive_iff {s : System D L ε α κ} {i : Nat}
    {before after : List (Session D L ε α κ)} {x : Session D L ε α κ}
    (h : s.At i before x after) :
    s.Exclusive ↔ (∀ other ∈ before ++ after, x.Apart other) ∧
      (before ++ after).Pairwise Session.Apart := by
  rw [Exclusive, h.sessions, List.pairwise_middle fun h => h.symm, List.pairwise_cons]

omit [DecidableEq L] in
/-- A lock is taken only while nobody else holds it. -/
theorem Step.exclusive {service : κ → Tx D L ε α} {s s' : System D L ε α κ} {e : Event κ}
    (h : Step service s e s') (hs : s.Exclusive) : s'.Exclusive := by
  cases h with
  | start call =>
    refine List.pairwise_append.mpr ⟨hs, List.pairwise_singleton _ _, fun x _ y hy => ?_⟩
    rw [List.mem_singleton.mp hy]
    exact Session.Apart.symm fun row hrow => by cases hrow
  | commit hat _ => exact (hat.exclusive_iff.mp hs).2
  | roll_back hat _ => exact (hat.exclusive_iff.mp hs).2
  | @lock i before after x row next hat hprogram hfree =>
    obtain ⟨hapart, hothers⟩ := hat.exclusive_iff.mp hs
    refine (At.exclusive_iff ⟨rfl, rfl⟩).mpr ⟨fun other hother held hheld => ?_, hothers⟩
    cases List.mem_cons.mp hheld with
    | inl h =>
      rw [h]
      exact hfree other hother
    | inr h => exact hapart other hother held h
  | @execute i before after x change next hat _ =>
    obtain ⟨hapart, hothers⟩ := hat.exclusive_iff.mp hs
    rw [Exclusive, List.pairwise_middle fun h => h.symm, List.pairwise_cons]
    exact ⟨hapart, hothers⟩

/-- The events that happen one after the other, each in a state that admits it. -/
inductive Run (service : κ → Tx D L ε α) (admits : System D L ε α κ → Event κ → Prop) :
    System D L ε α κ → System D L ε α κ → Prop
  | refl (s : System D L ε α κ) : Run service admits s s
  | step {s s' s'' : System D L ε α κ} {e : Event κ} (hrun : Run service admits s s')
    (hadmits : admits s' e) (hstep : s'.step service e = some s'') : Run service admits s s''

/-- An invariant that every admitted step preserves holds in every state reached. -/
theorem Run.invariant {service : κ → Tx D L ε α} {admits : System D L ε α κ → Event κ → Prop}
    {I : System D L ε α κ → Prop}
    (hpreserved : ∀ s e s', admits s e → Step service s e s' → I s → I s')
    {s s' : System D L ε α κ} (hrun : Run service admits s s') (hs : I s) : I s' := by
  induction hrun with
  | refl => exact hs
  | step _ hadmits hstep ih => exact hpreserved _ _ _ hadmits (step_cases hstep) ih

/-- The events in turn, as long as each is admitted. -/
def replayWhile (service : κ → Tx D L ε α) (admits : System D L ε α κ → Event κ → Bool)
    (s : System D L ε α κ) : List (Event κ) → Option (System D L ε α κ)
  | [] => some s
  | e :: events =>
    if admits s e then (s.step service e).bind fun s' => s'.replayWhile service admits events
    else none

theorem Run.of_replayWhile {service : κ → Tx D L ε α}
    {admits : System D L ε α κ → Event κ → Bool} {s s' s'' : System D L ε α κ}
    {events : List (Event κ)} (hrun : Run service (fun s e => admits s e = true) s s')
    (h : s'.replayWhile service admits events = some s'') :
    Run service (fun s e => admits s e = true) s s'' := by
  induction events generalizing s' with
  | nil =>
    cases h
    exact hrun
  | cons e events ih =>
    rw [replayWhile] at h
    split at h
    · rename_i hadmits
      rw [Option.bind_eq_some_iff] at h
      obtain ⟨next, hstep, h⟩ := h
      exact ih (hrun.step hadmits hstep) h
    · cases h

/-- The events in turn. -/
def replay (service : κ → Tx D L ε α) (s : System D L ε α κ) :
    List (Event κ) → Option (System D L ε α κ)
  | [] => some s
  | e :: events => (s.step service e).bind fun s' => s'.replay service events

theorem Run.of_replay {service : κ → Tx D L ε α} {s s' s'' : System D L ε α κ}
    {events : List (Event κ)} (hrun : Run service (fun _ _ => True) s s')
    (h : s'.replay service events = some s'') : Run service (fun _ _ => True) s s'' := by
  induction events generalizing s' with
  | nil =>
    cases h
    exact hrun
  | cons e events ih =>
    rw [replay, Option.bind_eq_some_iff] at h
    obtain ⟨next, hstep, h⟩ := h
    exact ih (hrun.step trivial hstep) h

end System

end foundation
