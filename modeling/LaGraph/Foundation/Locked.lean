import LaGraph.Foundation.Runs
import Mathlib.Data.List.Basic

namespace foundation

/-- A program whose actions take effect on the shared state at once. -/
inductive Program (D ε α : Type)
  | ret (a : α)
  | raise (e : ε)
  /-- One action; what follows depends on the state it found. -/
  | act (change : D → D) (next : D → Program D ε α)

namespace Program

variable {D ε α β : Type}

def bind : Program D ε α → (α → Program D ε β) → Program D ε β
  | .ret a, f => f a
  | .raise e, _ => .raise e
  | .act change next, f => .act change fun d => (next d).bind f

instance : Monad (Program D ε) where
  pure := .ret
  bind := bind

def observe (f : D → α) : Program D ε α :=
  .act id fun d => .ret (f d)

def change (f : D → D) : Program D ε Unit :=
  .act f fun _ => .ret ()

def raiseIf (condition : Prop) [Decidable condition] (error : ε) : Program D ε Unit :=
  if condition then .raise error else .ret ()

def ofExcept : Except ε α → Program D ε α
  | .ok a => .ret a
  | .error e => .raise e

/-- Every action is an `R` step, and the program ends in a state as `post` says of
its outcome. -/
def Keeps (R : D → D → Prop) (post : Except ε α → D → Prop) : Program D ε α → D → Prop
  | .ret a, d => post (.ok a) d
  | .raise e, d => post (.error e) d
  | .act change next, d => R d (change d) ∧ Keeps R post (next d) (change d)

variable {R : D → D → Prop} {post : Except ε α → D → Prop} {d : D}

theorem Keeps.bind {mid : Except ε β → D → Prop} {p : Program D ε β} {f : β → Program D ε α}
    (h : Keeps R mid p d) (hf : ∀ b d, mid (.ok b) d → Keeps R post (f b) d)
    (hraised : ∀ e d, mid (.error e) d → post (.error e) d) : Keeps R post (p >>= f) d := by
  change Keeps R post (p.bind f) d
  induction p generalizing d with
  | ret b => exact hf b d h
  | raise e => exact hraised e d h
  | act change next ih => exact ⟨h.1, ih d h.2⟩

theorem Keeps.observe_bind {g : D → β} {k : β → Program D ε α} (hrefl : R d d)
    (h : Keeps R post (k (g d)) d) : Keeps R post (observe g >>= k) d :=
  ⟨hrefl, h⟩

theorem Keeps.change_bind {g : D → D} {k : Unit → Program D ε α} (hR : R d (g d))
    (h : Keeps R post (k ()) (g d)) : Keeps R post (Program.change g >>= k) d :=
  ⟨hR, h⟩

theorem Keeps.raiseIf_bind {c : Prop} [Decidable c] {e : ε} {k : Unit → Program D ε α}
    (hraised : c → post (.error e) d) (h : ¬ c → Keeps R post (k ()) d) :
    Keeps R post (raiseIf c e >>= k) d := by
  by_cases hc : c
  · rw [raiseIf, if_pos hc]
    exact hraised hc
  · rw [raiseIf, if_neg hc]
    exact h hc

theorem Keeps.ofExcept_bind {x : Except ε β} {k : β → Program D ε α}
    (hraised : ∀ e, x = .error e → post (.error e) d)
    (h : ∀ b, x = .ok b → Keeps R post (k b) d) : Keeps R post (ofExcept x >>= k) d := by
  cases x with
  | ok b => exact h b rfl
  | error e => exact hraised e rfl

end Program

/-- How far a call has come. The states it entered and left the lock in are
recorded for reasoning only. -/
inductive Stage (D ε α : Type)
  | waiting
  | inside (entered : D) (program : Program D ε α)
  | done (entered leaving : D) (outcome : Except ε α)
  /-- The call gave up waiting, or its process is gone. -/
  | gone

def Stage.isInside {D ε α : Type} : Stage D ε α → Bool
  | .inside _ _ => true
  | .waiting | .done _ _ _ | .gone => false

structure Caller (D ε α κ : Type) where
  call : κ
  stage : Stage D ε α

/-- A shared state and the calls on it, in the order of their arrival. -/
structure Guarded (D ε α κ : Type) where
  shared : D
  callers : List (Caller D ε α κ)

/-- What can happen; calls are named by their position. -/
inductive LockEvent (κ : Type)
  | arrive (call : κ)
  | acquire (i : Nat)
  | advance (i : Nat)
  /-- The system fails the call between two actions. -/
  | fail (i : Nat)
  | give_up (i : Nat)
  | die (i : Nat)
  deriving DecidableEq, Repr

namespace Guarded

variable {D ε α κ : Type}

/-- Somebody holds the lock. -/
def held (s : Guarded D ε α κ) : Bool :=
  s.callers.any fun caller => caller.stage.isInside

def put (s : Guarded D ε α κ) (i : Nat) (call : κ) (stage : Stage D ε α) : Guarded D ε α κ :=
  { s with callers := s.callers.set i ⟨call, stage⟩ }

/-- The next action of a program that holds the lock; its end frees the lock. -/
def advance (s : Guarded D ε α κ) (i : Nat) (call : κ) (entered : D) :
    Program D ε α → Guarded D ε α κ
  | .ret a => s.put i call (.done entered s.shared (.ok a))
  | .raise e => s.put i call (.done entered s.shared (.error e))
  | .act change next =>
    { s.put i call (.inside entered (next s.shared)) with shared := change s.shared }

/-- The event, if it can happen. `failure` is what the system's own failures
raise. -/
def step (body : κ → Program D ε α) (failure : ε) (s : Guarded D ε α κ) :
    LockEvent κ → Option (Guarded D ε α κ)
  | .arrive call => some { s with callers := s.callers ++ [⟨call, .waiting⟩] }
  | .acquire i =>
    match s.callers[i]? with
    | some ⟨call, .waiting⟩ =>
      if s.held then none else some (s.put i call (.inside s.shared (body call)))
    | _ => none
  | .advance i =>
    match s.callers[i]? with
    | some ⟨call, .inside entered program⟩ => some (s.advance i call entered program)
    | _ => none
  | .fail i =>
    match s.callers[i]? with
    | some ⟨call, .inside entered _⟩ =>
      some (s.put i call (.done entered s.shared (.error failure)))
    | _ => none
  | .give_up i =>
    match s.callers[i]? with
    | some ⟨call, .waiting⟩ => some (s.put i call .gone)
    | _ => none
  | .die i =>
    match s.callers[i]? with
    | some ⟨call, .waiting⟩ | some ⟨call, .inside _ _⟩ => some (s.put i call .gone)
    | _ => none

/-- What an event does: somebody arrives, the call at `i` takes the lock, acts, ends
or goes. -/
inductive Step (body : κ → Program D ε α) (failure : ε) (s : Guarded D ε α κ) :
    LockEvent κ → Guarded D ε α κ → Prop
  | arrive (call : κ) :
    Step body failure s (.arrive call) { s with callers := s.callers ++ [⟨call, .waiting⟩] }
  | acquire {i : Nat} {call : κ} (hat : s.callers[i]? = some ⟨call, .waiting⟩)
    (hfree : s.held = false) :
    Step body failure s (.acquire i) (s.put i call (.inside s.shared (body call)))
  | act {i : Nat} {call : κ} {entered : D} {change : D → D} {next : D → Program D ε α}
    (hat : s.callers[i]? = some ⟨call, .inside entered (.act change next)⟩) :
    Step body failure s (.advance i)
      { s.put i call (.inside entered (next s.shared)) with shared := change s.shared }
  | finish {i : Nat} {e : LockEvent κ} {call : κ} {entered : D} {program : Program D ε α}
    {outcome : Except ε α} (hat : s.callers[i]? = some ⟨call, .inside entered program⟩)
    (houtcome : outcome = .error failure ∨ (∃ a, program = .ret a ∧ outcome = .ok a) ∨
      ∃ e, program = .raise e ∧ outcome = .error e) :
    Step body failure s e (s.put i call (.done entered s.shared outcome))
  | go {i : Nat} {e : LockEvent κ} {caller : Caller D ε α κ} (hat : s.callers[i]? = some caller) :
    Step body failure s e (s.put i caller.call .gone)

theorem step_cases {body : κ → Program D ε α} {failure : ε} {s s' : Guarded D ε α κ}
    {e : LockEvent κ} (h : s.step body failure e = some s') : Step body failure s e s' := by
  cases e with
  | arrive call =>
    cases h
    exact .arrive call
  | acquire i =>
    simp only [step] at h
    split at h
    · rename_i call hat
      split at h
      · cases h
      · rename_i hheld
        cases h
        exact .acquire hat (by simpa using hheld)
    · cases h
  | advance i =>
    simp only [step] at h
    split at h
    · rename_i call entered program hat
      cases h
      cases program with
      | ret a => exact .finish hat (Or.inr (Or.inl ⟨a, rfl, rfl⟩))
      | raise e => exact .finish hat (Or.inr (Or.inr ⟨e, rfl, rfl⟩))
      | act change next => exact .act hat
    · cases h
  | fail i =>
    simp only [step] at h
    split at h
    · rename_i call entered program hat
      cases h
      exact .finish hat (Or.inl rfl)
    · cases h
  | give_up i =>
    simp only [step] at h
    split at h
    · rename_i call hat
      cases h
      exact .go hat
    · cases h
  | die i =>
    simp only [step] at h
    split at h
    · rename_i call hat
      cases h
      exact .go hat
    · rename_i call entered program hat
      cases h
      exact .go hat
    · cases h

end Guarded

end foundation
