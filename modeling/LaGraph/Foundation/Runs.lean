import Mathlib.Logic.Basic

namespace foundation

variable {S L : Type}

/-- One step of a run: the state before it, its label and the state after it. -/
structure Transition (S L : Type) where
  before : S
  label : L
  after : S

/-- A run from one state to another and the transitions it takes, in order. -/
inductive Run (step : S → L → S → Prop) (s : S) : List (Transition S L) → S → Prop
  | nil : Run step s [] s
  | snoc {t u : S} {trace : List (Transition S L)} {l : L} (hrun : Run step s trace t)
      (hstep : step t l u) : Run step s (trace ++ [⟨t, l, u⟩]) u

namespace Run

variable {step : S → L → S → Prop} {s t : S} {trace : List (Transition S L)}

/-- The invariant rule: what holds at the start and is kept by the steps of the
run holds at its end and after each of its steps. -/
theorem invariant {Inv : S → Prop} {Cond : Transition S L → Prop} (h : Run step s trace t)
    (hs : Inv s) (hcond : ∀ e ∈ trace, Cond e)
    (hkeep : ∀ a l b, step a l b → Cond ⟨a, l, b⟩ → Inv a → Inv b) :
    Inv t ∧ ∀ e ∈ trace, Inv e.before ∧ step e.before e.label e.after := by
  induction h with
  | nil => exact ⟨hs, by simp⟩
  | @snoc b c trace l hrun hstep ih =>
    obtain ⟨hb, hall⟩ := ih fun e he => hcond e (List.mem_append_left _ he)
    have hlast : Cond ⟨b, l, c⟩ := hcond _ (by simp)
    refine ⟨hkeep b l c hstep hlast hb, ?_⟩
    intro e he
    rcases List.mem_append.mp he with he | he
    · exact hall e he
    · obtain rfl := List.mem_singleton.mp he
      exact ⟨hb, hstep⟩

/-- If a step out of a good state ends in a good one exactly under a condition,
then every state of a run from a good state is good exactly when all its steps
meet the condition. -/
theorem forall_iff {Good : S → Prop} {Cond : S → L → Prop} (h : Run step s trace t)
    (hs : Good s) (hiff : ∀ a l b, step a l b → Good a → (Good b ↔ Cond a l)) :
    (∀ e ∈ trace, Good e.after) ↔ ∀ e ∈ trace, Cond e.before e.label := by
  suffices hboth : ((∀ e ∈ trace, Good e.after) → Good t) ∧
      ((∀ e ∈ trace, Good e.after) ↔ ∀ e ∈ trace, Cond e.before e.label) from hboth.2
  induction h with
  | nil => simp [hs]
  | @snoc b c trace l hrun hstep ih =>
    obtain ⟨hb, hall⟩ := ih
    simp only [List.forall_mem_append, List.forall_mem_singleton]
    refine ⟨And.right, ?_, ?_⟩
    · rintro ⟨hgood, hc⟩
      exact ⟨hall.mp hgood, (hiff b l c hstep (hb hgood)).mp hc⟩
    · rintro ⟨hcond, hl⟩
      have hgood := hall.mpr hcond
      exact ⟨hgood, (hiff b l c hstep (hb hgood)).mpr hl⟩

theorem cons {u : S} {l : L} (hstep : step s l t) (h : Run step t trace u) :
    Run step s (⟨s, l, t⟩ :: trace) u := by
  induction h with
  | nil => exact Run.nil.snoc hstep
  | snoc _ hlast ih => exact ih.snoc hlast

/-- The transitions of a partial function along labels, and where they lead. -/
def follow (next : S → L → Option S) (s : S) : List L → Option (List (Transition S L) × S)
  | [] => some ([], s)
  | l :: labels =>
    (next s l).bind fun t =>
      (follow next t labels).map fun path => (⟨s, l, t⟩ :: path.1, path.2)

theorem of_follow {next : S → L → Option S} {labels : List L}
    (h : follow next s labels = some (trace, t)) :
    Run (fun a l b => next a l = some b) s trace t := by
  induction labels generalizing s trace with
  | nil =>
    cases h
    exact Run.nil
  | cons l labels ih =>
    rw [follow, Option.bind_eq_some_iff] at h
    obtain ⟨middle, hstep, h⟩ := h
    obtain ⟨path, hpath, h⟩ := Option.map_eq_some_iff.mp h
    cases h
    exact cons hstep (ih hpath)

end Run

end foundation
