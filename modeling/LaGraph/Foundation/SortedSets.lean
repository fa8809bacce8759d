import Mathlib.Data.List.Dedup
import Mathlib.Data.List.MinMax
import Mathlib.Data.List.Sort

namespace foundation.sorted

/-- A stable sort, by structural recursion. -/
def sortBy {α : Type} (before : α → α → Bool) (l : List α) : List α :=
  l.insertionSort fun a b => before a b = true

theorem sortBy_perm {α : Type} (before : α → α → Bool) (l : List α) :
    (sortBy before l).Perm l :=
  List.perm_insertionSort _ l

@[simp] theorem mem_sortBy {α : Type} {before : α → α → Bool} {l : List α} {a : α} :
    a ∈ sortBy before l ↔ a ∈ l :=
  (sortBy_perm before l).mem_iff

section LinearOrders

variable {α : Type} [LinearOrder α]

/-- The elements of a list as a sorted list without repetitions. -/
def ofList (l : List α) : List α :=
  l.dedup.insertionSort (· ≤ ·)

@[simp] theorem mem_ofList {l : List α} {a : α} : a ∈ ofList l ↔ a ∈ l := by
  simp [ofList]

theorem ofList_increasing (l : List α) : (ofList l).Pairwise (· < ·) := by
  have hle : (ofList l).Pairwise (· ≤ ·) := List.pairwise_insertionSort _ _
  have hne : (ofList l).Pairwise (· ≠ ·) :=
    (List.perm_insertionSort (· ≤ ·) l.dedup).nodup_iff.mpr l.nodup_dedup
  exact (hle.and hne).imp fun h => lt_of_le_of_ne h.1 h.2

end LinearOrders

/-- Inserting into a sorted list commutes with selecting from it. -/
theorem filter_orderedInsert {ρ : Type} {order : ρ → ρ → Prop} [DecidableRel order]
    [IsTrans ρ order] [Std.Total order] {keep : ρ → Bool} {a : ρ} {l : List ρ}
    (hl : l.Pairwise order) : (l.orderedInsert order a).filter keep =
      if keep a then (l.filter keep).orderedInsert order a else l.filter keep := by
  induction l with
  | nil => cases hkeep : keep a <;> simp [hkeep]
  | cons b l ih =>
    obtain ⟨hb, hl'⟩ := List.pairwise_cons.mp hl
    by_cases hab : order a b
    · have hall : ∀ c ∈ (b :: l).filter keep, order a c := by
        intro c hc
        rcases List.mem_cons.mp (List.mem_of_mem_filter hc) with rfl | hc
        · exact hab
        · exact IsTrans.trans a b c hab (hb c hc)
      rw [List.orderedInsert_cons_of_le order l hab, List.filter_cons]
      cases hkeep : keep a with
      | false => simp
      | true =>
        rw [if_pos rfl, if_pos rfl]
        cases hrest : (b :: l).filter keep with
        | nil => rfl
        | cons c rest =>
          have hfirst : order a c := hall c (by rw [hrest]; exact List.mem_cons_self)
          rw [List.orderedInsert_cons_of_le order rest hfirst]
    · rw [List.orderedInsert_of_not_le order l hab, List.filter_cons, ih hl']
      cases hkeep : keep b with
      | false => simp [hkeep]
      | true =>
        simp only [if_true, List.filter_cons, hkeep]
        split_ifs
        · rw [List.orderedInsert_of_not_le order _ hab]
        · rfl

/-- Sorting commutes with selecting. -/
theorem filter_insertionSort {ρ : Type} {order : ρ → ρ → Prop} [DecidableRel order]
    [IsTrans ρ order] [Std.Total order] {keep : ρ → Bool} (l : List ρ) :
    (l.insertionSort order).filter keep = (l.filter keep).insertionSort order := by
  induction l with
  | nil => rfl
  | cons a l ih =>
    rw [List.insertionSort_cons, filter_orderedInsert (List.pairwise_insertionSort order l), ih,
      List.filter_cons]
    split_ifs
    · rfl
    · rfl

/-- The first of a stable sort comes before everything behind it, and nothing in front of it
comes before it. -/
theorem head_mergeSort {ρ : Type} {le : ρ → ρ → Bool}
    (htrans : ∀ a b c, le a b = true → le b c = true → le a c = true)
    (htotal : ∀ a b, (le a b || le b a) = true) {l : List ρ} {b : ρ}
    (h : (l.mergeSort le).head? = some b) :
    ∃ before after, l = before ++ b :: after ∧ (∀ a ∈ before, le a b = false) ∧
      ∀ a ∈ after, le b a = true := by
  induction l with
  | nil => simp at h
  | cons a l ih =>
    obtain ⟨front, rest, hsorted, hother, hfront⟩ := List.mergeSort_cons htrans htotal a l
    rw [hsorted] at h
    cases front with
    | nil =>
      cases h
      refine ⟨[], l, rfl, fun x hx => absurd hx List.not_mem_nil, fun x hx => ?_⟩
      have hpairwise := List.pairwise_mergeSort htrans htotal (b :: l)
      rw [hsorted, List.nil_append, List.pairwise_cons] at hpairwise
      rw [List.nil_append] at hother
      refine hpairwise.1 x ?_
      rw [← hother]
      exact List.mem_mergeSort.mpr hx
    | cons first front =>
      cases h
      have hhead : (l.mergeSort le).head? = some b := by
        rw [hother]
        rfl
      obtain ⟨before, after, rfl, hbefore, hafter⟩ := ih hhead
      refine ⟨a :: before, after, rfl, fun x hx => ?_, hafter⟩
      rcases List.mem_cons.mp hx with rfl | hx
      · simpa using hfront b List.mem_cons_self
      · exact hbefore x hx

/-- It is the first one of the least. -/
theorem head_mergeSort_eq_argmin {ρ β : Type} [DecidableEq ρ] [LinearOrder β] (f : ρ → β)
    (l : List ρ) : (l.mergeSort fun a b => f a ≤ f b).head? = l.argmin f := by
  have htrans : ∀ a b c, decide (f a ≤ f b) = true → decide (f b ≤ f c) = true →
      decide (f a ≤ f c) = true := fun a b c hab hbc => by
    simp only [decide_eq_true_eq] at hab hbc ⊢
    exact le_trans hab hbc
  have htotal : ∀ a b, (decide (f a ≤ f b) || decide (f b ≤ f a)) = true := fun a b => by
    simp only [Bool.or_eq_true, decide_eq_true_eq]
    exact le_total _ _
  cases h : (l.mergeSort fun a b => f a ≤ f b).head? with
  | none =>
    have hlength := (List.mergeSort_perm l fun a b => decide (f a ≤ f b)).length_eq
    rw [List.head?_eq_none_iff.mp h] at hlength
    rw [List.length_eq_zero_iff.mp hlength.symm, List.argmin_nil]
  | some b =>
    obtain ⟨before, after, rfl, hbefore, hafter⟩ := head_mergeSort htrans htotal h
    simp only [decide_eq_false_iff_not, not_le, decide_eq_true_eq] at hbefore hafter
    have hnot : b ∉ before := fun hb => lt_irrefl _ (hbefore b hb)
    refine (List.argmin_eq_some_iff.mpr ⟨by simp, fun a ha => ?_, fun a ha hle => ?_⟩).symm
    · rw [List.mem_append, List.mem_cons] at ha
      rcases ha with ha | rfl | ha
      · exact le_of_lt (hbefore a ha)
      · exact le_refl _
      · exact hafter a ha
    · have ha' : a ∉ before := fun ha => not_lt.mpr hle (hbefore a ha)
      rw [List.idxOf_append_of_notMem hnot, List.idxOf_append_of_notMem ha', List.idxOf_cons_self]
      omega

end foundation.sorted
