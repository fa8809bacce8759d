import Mathlib.Data.List.Sort

namespace foundation

/-- `op` reads no more of its input than `view` shows: inputs that look alike
give the same result. -/
def Respects {δ : Type*} {ν : Type*} {α : Type*} (view : δ → ν) (op : δ → α) : Prop :=
  ∀ ⦃a b⦄, view a = view b → op a = op b

namespace Respects

variable {δ ν α β : Type*} {view : δ → ν}

theorem view_self : Respects view view :=
  fun _ _ h => h

theorem const (c : α) : Respects view fun _ => c :=
  fun _ _ _ => rfl

theorem map {op : δ → α} (h : Respects view op) (f : α → β) : Respects view fun d => f (op d) :=
  fun _ _ hview => congrArg f (h hview)

/-- An argument the input does not decide. -/
theorem apply {op : δ → α → β} (h : ∀ x, Respects view fun d => op d x) : Respects view op :=
  fun _ _ hview => funext fun x => h x hview

/-- Running one respectful program after another. -/
theorem bind {m : Type* → Type*} [Monad m] {α β : Type _} {first : δ → m α} {next : δ → α → m β}
    (h : Respects view first) (hnext : ∀ x, Respects view fun d => next d x) :
    Respects view fun d => first d >>= next d := by
  intro a b hview
  show first a >>= next a = first b >>= next b
  rw [h hview, apply hnext hview]

/-- A loop whose body is respectful. -/
theorem mapM {m : Type* → Type*} [Monad m] {α β : Type _} {body : δ → α → m β}
    (h : ∀ x, Respects view fun d => body d x) (l : List α) :
    Respects view fun d => l.mapM (body d) :=
  (apply h).map fun body => l.mapM body

end Respects

/-- Sorting, filtering and relabelling rows: when the filter and the order
look at nothing the relabelling drops, the selection can be made from the
relabelled rows. -/
theorem map_select {ρ κ : Type*} {columns : ρ → κ} {keep : ρ → Bool} {keep' : κ → Bool}
    {order : ρ → ρ → Prop} {order' : κ → κ → Prop} [DecidableRel order] [DecidableRel order']
    (hkeep : ∀ r, keep' (columns r) = keep r)
    (horder : ∀ r s, order r s ↔ order' (columns r) (columns s)) (rows : List ρ) :
    ((rows.filter keep).insertionSort order).map columns =
      ((rows.map columns).filter keep').insertionSort order' := by
  rw [List.map_insertionSort order order' columns _ fun r _ s _ => horder r s, List.filter_map]
  congr 3
  funext r
  exact (hkeep r).symm

end foundation
