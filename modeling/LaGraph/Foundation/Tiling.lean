import Mathlib.Data.List.Forall2
import Mathlib.Data.Nat.Basic

namespace foundation.tiling

/-- Half-open ranges that follow one another from one bound to another without gaps; some of
them may be empty. -/
inductive Tiles : Nat → Nat → List (Nat × Nat) → Prop
  | nil {lo : Nat} : Tiles lo lo []
  | cons {lo mid hi : Nat} {rs : List (Nat × Nat)} (hle : lo ≤ mid) (h : Tiles mid hi rs) :
      Tiles lo hi ((lo, mid) :: rs)

variable {lo mid hi n : Nat} {rs rs' : List (Nat × Nat)}

theorem Tiles.le (h : Tiles lo hi rs) : lo ≤ hi := by
  induction h with
  | nil => exact Nat.le_refl _
  | cons hle _ ih => exact Nat.le_trans hle ih

theorem Tiles.single (h : lo ≤ hi) : Tiles lo hi [(lo, hi)] :=
  .cons h .nil

theorem Tiles.append (h : Tiles lo mid rs) (h' : Tiles mid hi rs') : Tiles lo hi (rs ++ rs') := by
  induction h with
  | nil => exact h'
  | cons hle _ ih => exact .cons hle (ih h')

theorem Tiles.bounds (h : Tiles lo hi rs) {r : Nat × Nat} (hr : r ∈ rs) :
    lo ≤ r.1 ∧ r.1 ≤ r.2 ∧ r.2 ≤ hi := by
  induction h with
  | nil => cases hr
  | cons hle h ih =>
    have hhi := h.le
    cases List.mem_cons.mp hr with
    | inl hsame =>
      rw [hsame]
      exact ⟨Nat.le_refl _, hle, hhi⟩
    | inr hr =>
      obtain ⟨hlower, hrange, hupper⟩ := ih hr
      exact ⟨Nat.le_trans hle hlower, hrange, hupper⟩

/-- Every range ends where the later ones start, or before. -/
theorem Tiles.ordered (h : Tiles lo hi rs) : rs.Pairwise fun a b => a.2 ≤ b.1 := by
  induction h with
  | nil => exact List.Pairwise.nil
  | cons hle h ih => exact List.pairwise_cons.mpr ⟨fun r hr => (h.bounds hr).1, ih⟩

/-- Every position between the bounds is in a range. -/
theorem Tiles.covers (h : Tiles lo hi rs) (hlo : lo ≤ n) (hhi : n < hi) :
    ∃ r ∈ rs, r.1 ≤ n ∧ n < r.2 := by
  induction h with
  | nil => omega
  | @cons lo mid hi rs hle h ih =>
    by_cases hmid : n < mid
    · exact ⟨(lo, mid), List.mem_cons_self, hlo, hmid⟩
    · obtain ⟨r, hr, hin⟩ := ih (Nat.le_of_not_lt hmid) hhi
      exact ⟨r, List.mem_cons_of_mem _ hr, hin⟩

/-- Ranges that are cut further still follow one another. -/
theorem Tiles.flatten {pieces : List (List (Nat × Nat))} (h : Tiles lo hi rs)
    (hpieces : List.Forall₂ (fun r piece => r.1 ≤ r.2 → r.2 ≤ hi → Tiles r.1 r.2 piece) rs pieces) :
    Tiles lo hi pieces.flatten := by
  induction h generalizing pieces with
  | nil =>
    cases hpieces
    exact .nil
  | cons hle h ih =>
    cases hpieces with
    | cons hfirst hrest => exact (hfirst hle h.le).append (ih hrest)

theorem Tiles.flatMap {f : Nat × Nat → List (Nat × Nat)} (h : Tiles lo hi rs)
    (hf : ∀ r ∈ rs, r.1 ≤ r.2 → Tiles r.1 r.2 (f r)) : Tiles lo hi (rs.flatMap f) := by
  rw [List.flatMap_def]
  apply h.flatten
  rw [List.forall₂_map_right_iff, List.forall₂_same]
  exact fun r hr hle _ => hf r hr hle

/-- Ranges moved along. -/
theorem Tiles.shift (base : Nat) (h : Tiles lo hi rs) :
    Tiles (base + lo) (base + hi) (rs.map fun r => (base + r.1, base + r.2)) := by
  induction h with
  | nil => exact .nil
  | cons hle h ih => exact .cons (Nat.add_le_add_left hle base) ih

/-- The ranges between points in order, the empty ones left out. -/
theorem tiles_zip_tail {points : List Nat} (hsorted : (lo :: points).Pairwise (· ≤ ·))
    (hlast : (lo :: points).getLast (List.cons_ne_nil _ _) = hi) :
    Tiles lo hi (((lo :: points).zip points).filter fun r => r.1 < r.2) := by
  induction points generalizing lo with
  | nil =>
    rw [List.getLast_singleton] at hlast
    rw [hlast]
    exact .nil
  | cons point points ih =>
    obtain ⟨hle, hsorted⟩ := List.pairwise_cons.mp hsorted
    have hpoint := hle point List.mem_cons_self
    have hrest := ih hsorted (by rwa [List.getLast_cons (List.cons_ne_nil _ _)] at hlast)
    rw [List.zip_cons_cons, List.filter_cons]
    by_cases hlt : lo < point
    · simp only [hlt, decide_true, if_true]
      exact .cons hpoint hrest
    · have hsame : lo = point := by omega
      simp only [hlt, decide_false, Bool.false_eq_true, if_false]
      rwa [hsame]

end foundation.tiling
