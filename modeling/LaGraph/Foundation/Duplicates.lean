import Mathlib.Data.Finset.Card
import Mathlib.Data.List.Perm.Subperm

namespace foundation.duplicates

variable {α β κ : Type}

/-- Erasing duplicates leaves none. -/
theorem nodup_eraseDups [BEq α] [LawfulBEq α] (l : List α) : l.eraseDups.Nodup := by
  induction hn : l.length using Nat.strongRecOn generalizing l with
  | ind n ih =>
    cases l with
    | nil => exact List.nodup_nil
    | cons a l =>
      have hlength : (l.filter fun b => !b == a).length < n := by
        have hle := List.length_filter_le (fun b => !b == a) l
        rw [List.length_cons] at hn
        omega
      rw [List.eraseDups_cons, List.nodup_cons, List.mem_eraseDups, List.mem_filter]
      refine ⟨fun h => ?_, ih _ hlength _ rfl⟩
      simp at h

theorem eraseDups_of_nodup [BEq α] [LawfulBEq α] {l : List α} (h : l.Nodup) :
    l.eraseDups = l := by
  induction l with
  | nil => rfl
  | cons a l ih =>
    obtain ⟨ha, hl⟩ := List.nodup_cons.mp h
    have hkept : l.filter (fun b => !b == a) = l := by
      rw [List.filter_eq_self]
      intro b hb
      simpa using ne_of_mem_of_not_mem hb ha
    rw [List.eraseDups_cons, hkept, ih hl]

/-- In a list whose keys differ an element is found by its key. -/
theorem find?_of_nodup [DecidableEq κ] {key : α → κ} {l : List α} (h : (l.map key).Nodup)
    {a : α} (ha : a ∈ l) : l.find? (key · = key a) = some a := by
  induction l with
  | nil => exact absurd ha List.not_mem_nil
  | cons b l ih =>
    rw [List.map_cons, List.nodup_cons] at h
    cases ha with
    | head => rw [List.find?_cons_of_pos (by simp)]
    | tail _ ha =>
      have hne : key b ≠ key a := fun heq => h.1 (heq ▸ List.mem_map_of_mem ha)
      rw [List.find?_cons_of_neg (by simpa using hne), ih h.2 ha]

/-- Where keys differ, a condition beside the key only filters what the key finds. -/
theorem find?_and_of_nodup [DecidableEq κ] {key : α → κ} {l : List α} (h : (l.map key).Nodup)
    (k : κ) (p : α → Bool) :
    l.find? (fun a => key a = k && p a) = (l.find? (key · = k)).filter p := by
  induction l with
  | nil => rfl
  | cons a l ih =>
    rw [List.map_cons, List.nodup_cons] at h
    by_cases hk : key a = k
    · rw [@List.find?_cons_of_pos _ (key · = k) _ _ (by simpa using hk), Option.filter_some]
      by_cases hp : p a = true
      · rw [List.find?_cons_of_pos (by simp [hk, hp]), if_pos hp]
      · have hnone : l.find? (key · = k) = none := by
          rw [List.find?_eq_none]
          intro b hb hkey
          exact h.1 (hk ▸ of_decide_eq_true hkey ▸ List.mem_map_of_mem hb)
        rw [List.find?_cons_of_neg (by simp [hp]), ih h.2, hnone, if_neg hp]
        rfl
    · rw [List.find?_cons_of_neg (by simp [hk]), ih h.2, List.find?_cons_of_neg (by simpa using hk)]

/-- Values found under keys have these keys in the order of the search. -/
theorem sublist_of_lookup {lookup : α → Option β} {key : β → κ} {name : α → κ}
    (h : ∀ a b, lookup a = some b → key b = name a) (l : List α) :
    ((l.filterMap lookup).map key).Sublist (l.map name) := by
  induction l with
  | nil => exact List.Sublist.slnil
  | cons a l ih =>
    cases hfound : lookup a with
    | none =>
      rw [List.filterMap_cons_none hfound]
      exact ih.cons _
    | some b =>
      rw [List.filterMap_cons_some hfound, List.map_cons, List.map_cons, h a b hfound]
      exact ih.cons_cons _

/-- A part of a list without duplicates has none. -/
theorem nodup_of_subperm {l l' : List α} (h : l.Subperm l') (hnodup : l'.Nodup) : l.Nodup := by
  obtain ⟨part, hperm, hsub⟩ := h
  exact hperm.nodup_iff.mp (hsub.nodup hnodup)

section Counts

variable [DecidableEq α] {l first all : List α}

theorem length_dedup_eq_iff : l.dedup.length = l.length ↔ l.Nodup := by
  constructor
  · intro h
    rw [← (List.dedup_sublist l).eq_of_length h]
    exact List.nodup_dedup l
  · intro h
    rw [h.dedup]

/-- A part without repetitions is as long as the distinct elements when it has them all. -/
theorem length_dedup_eq_length_iff (hfirst : first.Nodup) (hsub : first ⊆ l) :
    l.dedup.length = first.length ↔ l ⊆ first := by
  rw [← List.card_toFinset, ← List.toFinset_card_of_nodup hfirst]
  have hsub' : first.toFinset ⊆ l.toFinset := fun a ha =>
    List.mem_toFinset.mpr (hsub (List.mem_toFinset.mp ha))
  constructor
  · intro h a ha
    have heq := Finset.eq_of_subset_of_card_le hsub' h.le
    rw [← List.mem_toFinset, heq]
    exact List.mem_toFinset.mpr ha
  · intro h
    have hback : l.toFinset ⊆ first.toFinset := fun a ha =>
      List.mem_toFinset.mpr (h (List.mem_toFinset.mp ha))
    rw [hsub'.antisymm hback]

/-- Counting the distinct elements of `l`, and taking all of `l` off a total, gives the two parts
of the total when each element of `l` is in the first part, and either `l` repeats none or there
is no second part. -/
theorem split_count_iff (hfirst : first.Nodup) (hsub : first ⊆ l) (hall : all.Nodup)
    (hpart : first ⊆ all) :
    l.dedup.length = first.length ∧ l.dedup.length + (all.length - l.length) = all.length ↔
      l ⊆ first ∧ (l.Nodup ∨ all ⊆ first) := by
  rw [length_dedup_eq_length_iff hfirst hsub]
  refine and_congr_right fun h => ?_
  have hdirect := (length_dedup_eq_length_iff hfirst hsub).mpr h
  have hrows := (List.dedup_sublist l).length_le
  have htotal := (length_dedup_eq_length_iff hfirst hpart).symm
  rw [hall.dedup] at htotal
  have hle := (hfirst.subperm hpart).length_le
  rw [htotal, ← length_dedup_eq_iff]
  omega

end Counts

end foundation.duplicates
