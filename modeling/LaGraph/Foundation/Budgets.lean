import Mathlib.Algebra.Ring.Nat
import Mathlib.Algebra.BigOperators.Group.List.Basic
import Mathlib.Data.List.DropRight

namespace foundation.budgets

variable {α : Type} (weight : α → Nat)

def total (l : List α) : Nat :=
  (l.map weight).sum

/-- The elements from the first one on that fit in a budget together. -/
def takeWithin : (budget : Nat) → List α → List α
  | _, [] => []
  | budget, x :: xs =>
    if weight x ≤ budget then x :: takeWithin (budget - weight x) xs else []

/-- The block is the longest part at the end of a list that fits in a budget. -/
structure LongestWithin (budget : Nat) (l block : List α) : Prop where
  suffix : block <:+ l
  fits : total weight block ≤ budget
  longest : ∀ other, other <:+ l → total weight other ≤ budget → other <:+ block

variable {weight} {l : List α} {budget : Nat}

theorem total_cons (x : α) (xs : List α) : total weight (x :: xs) = weight x + total weight xs := by
  simp [total]

theorem total_reverse : total weight l.reverse = total weight l := by
  simp [total, List.sum_reverse]

theorem takeWithin_initial : takeWithin weight budget l <+: l := by
  induction l generalizing budget with
  | nil => exact List.nil_prefix
  | cons x xs ih =>
    rw [takeWithin]
    split_ifs
    · exact (List.prefix_cons_inj x).mpr ih
    · exact List.nil_prefix

theorem total_takeWithin_le : total weight (takeWithin weight budget l) ≤ budget := by
  induction l generalizing budget with
  | nil => exact Nat.zero_le budget
  | cons x xs ih =>
    rw [takeWithin]
    split_ifs with hfits
    · have hrest := @ih (budget - weight x)
      rw [total_cons]
      omega
    · exact Nat.zero_le budget

theorem initial_takeWithin {other : List α} (hother : other <+: l)
    (hfits : total weight other ≤ budget) : other <+: takeWithin weight budget l := by
  induction l generalizing budget other with
  | nil => exact hother
  | cons x xs ih =>
    cases other with
    | nil => exact List.nil_prefix
    | cons y other =>
      obtain ⟨rfl, hrest⟩ := List.cons_prefix_cons.mp hother
      rw [total_cons] at hfits
      rw [takeWithin, if_pos (by omega)]
      exact (List.prefix_cons_inj y).mpr (ih hrest (by omega))

/-- What is taken from the end on is the longest block. -/
theorem longestWithin_takeWithin :
    LongestWithin weight budget l (takeWithin weight budget l.reverse).reverse where
  suffix := by
    rw [← List.reverse_prefix, List.reverse_reverse]
    exact takeWithin_initial
  fits := by
    rw [total_reverse]
    exact total_takeWithin_le
  longest other hother hfits := by
    rw [← List.reverse_prefix] at hother ⊢
    rw [List.reverse_reverse]
    rw [← total_reverse] at hfits
    exact initial_takeWithin hother hfits

end foundation.budgets
