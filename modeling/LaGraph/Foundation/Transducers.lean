import Mathlib.Data.List.Basic

namespace foundation.transducers

universe u v

/-- A machine that is fed its input piece by piece and says something after each piece. -/
structure Transducer (α : Type u) (β : Type v) where
  State : Type
  start : State
  feed : State → List α → State × List β

variable {α : Type u} {β : Type v} {m : Transducer α β} {state : m.State}
  {idle : m.State → Prop} {blocks : List (List α × List β)} {input : List α}

/-- What a machine says over the pieces of an input. -/
def Transducer.run (m : Transducer α β) (state : m.State) : List (List α) → m.State × List β
  | [] => (state, [])
  | piece :: pieces =>
    let fed := m.feed state piece
    let rest := run m fed.1 pieces
    (rest.1, fed.2 ++ rest.2)

/-- It makes no difference where the input is cut. -/
structure Transducer.Seamless (m : Transducer α β) : Prop where
  feed_nil : ∀ state, m.feed state [] = (state, [])
  feed_append : ∀ state a b, m.feed state (a ++ b) =
    ((m.feed (m.feed state a).1 b).1, (m.feed state a).2 ++ (m.feed (m.feed state a).1 b).2)

/-- Between blocks the machine is idle, and what it says of a block it says at its end. -/
structure Transducer.Reads (m : Transducer α β) (idle : m.State → Prop) (block : List α)
    (said : List β) : Prop where
  whole : ∀ state, idle state → idle (m.feed state block).1 ∧ (m.feed state block).2 = said
  part : ∀ state, idle state → ∀ k < block.length, (m.feed state (block.take k)).2 = []

/-- What is said of the blocks that end within so much of their input. -/
def received : List (List α × List β) → Nat → List β
  | [], _ => []
  | block :: blocks, n =>
    if block.1.length ≤ n then block.2 ++ received blocks (n - block.1.length) else []

theorem Transducer.Seamless.run_eq (h : m.Seamless) (pieces : List (List α)) :
    m.run state pieces = m.feed state pieces.flatten := by
  induction pieces generalizing state with
  | nil => rw [run, List.flatten_nil, h.feed_nil]
  | cons piece pieces ih => rw [run, List.flatten_cons, h.feed_append, ih]

/-- A machine that reads every block says, over a part of their input, what it says of the
blocks that end in it. -/
theorem Transducer.Seamless.feed_blocks (h : m.Seamless) (hidle : idle state)
    (hreads : ∀ block ∈ blocks, m.Reads idle block.1 block.2)
    (hinput : input <+: blocks.flatMap (·.1)) :
    (m.feed state input).2 = received blocks input.length := by
  induction blocks generalizing state input with
  | nil =>
    rw [List.flatMap_nil, List.prefix_nil] at hinput
    rw [hinput, h.feed_nil, received]
  | cons block blocks ih =>
    obtain ⟨hblock, hrest⟩ := List.forall_mem_cons.mp hreads
    rw [List.flatMap_cons] at hinput
    rw [received]
    split_ifs with hlength
    · obtain ⟨rest, rfl⟩ := List.prefix_of_prefix_length_le
        (List.prefix_append block.1 _) hinput hlength
      obtain ⟨hidle', hsaid⟩ := hblock.whole state hidle
      rw [List.prefix_append_right_inj] at hinput
      rw [h.feed_append, hsaid, ih hidle' hrest hinput, List.length_append,
        Nat.add_sub_cancel_left]
    · have hpart := List.prefix_of_prefix_length_le hinput (List.prefix_append block.1 _)
        (by omega)
      rw [List.prefix_iff_eq_take.mp hpart]
      exact hblock.part state hidle _ (by omega)

/-- What a machine says that takes its input one by one. -/
def steps {σ : Type} (step : σ → α → σ × Option β) (state : σ) : List α → σ × List β
  | [] => (state, [])
  | a :: input =>
    let stepped := step state a
    let rest := steps step stepped.1 input
    (rest.1, stepped.2.toList ++ rest.2)

def ofStep {σ : Type} (start : σ) (step : σ → α → σ × Option β) : Transducer α β where
  State := σ
  start := start
  feed := steps step

theorem steps_append {σ : Type} (step : σ → α → σ × Option β) (state : σ) (a b : List α) :
    steps step state (a ++ b) = ((steps step (steps step state a).1 b).1,
      (steps step state a).2 ++ (steps step (steps step state a).1 b).2) := by
  induction a generalizing state with
  | nil => rfl
  | cons head a ih => simp only [List.cons_append, steps, ih, List.append_assoc]

theorem ofStep_seamless {σ : Type} (start : σ) (step : σ → α → σ × Option β) :
    (ofStep start step).Seamless :=
  ⟨fun _ => rfl, steps_append step⟩

/-- A block is read if nothing is said before its last element. -/
theorem reads_of_steps {σ : Type} {start state : σ} {step : σ → α → σ × Option β} {block : List α}
    {said : List β} (hwhole : steps step state block = (state, said))
    (hpart : (steps step state block.dropLast).2 = []) :
    (ofStep start step).Reads (fun found : σ => found = state) block said := by
  have hquiet : ∀ k < block.length, (steps step state (block.take k)).2 = [] := by
    intro k hk
    have htake : block.dropLast.take k = block.take k := by
      rw [List.dropLast_eq_take, List.take_take, Nat.min_eq_left (by omega)]
    rw [← List.take_append_drop k block.dropLast, htake, steps_append,
      List.append_eq_nil_iff] at hpart
    exact hpart.1
  constructor
  · rintro _ rfl
    exact ⟨congrArg (·.1) hwhole, congrArg (·.2) hwhole⟩
  · rintro _ rfl
    exact hquiet

end foundation.transducers
