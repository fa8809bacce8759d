import Mathlib.Data.List.Basic

namespace foundation.capped

variable {α β : Type} {fetched cap : Nat} {keep : α → Option β} {p : α → Bool} {q : β → Bool}
  {l : List α} {a : α}

/-- The first `cap` of the elements that are kept among the first `fetched` ones. -/
def page (fetched cap : Nat) (keep : α → Option β) (l : List α) : List β :=
  ((l.take fetched).filterMap keep).take cap

/-- Each element that `p` selects is kept, and comes among the first `fetched` elements and
the first `cap` kept ones. -/
def Shows (fetched cap : Nat) (keep : α → Option β) (p : α → Bool) (l : List α) : Prop :=
  ∀ before a after, l = before ++ a :: after → p a = true →
    (keep a).isSome = true ∧ before.length < fetched ∧ (before.filterMap keep).length < cap

theorem page_zero_fetched : page 0 cap keep l = [] := by
  simp [page]

theorem page_zero_cap : page fetched 0 keep l = [] := by
  simp [page]

theorem page_cons_none (h : keep a = none) :
    page (fetched + 1) cap keep (a :: l) = page fetched cap keep l := by
  simp [page, h]

theorem page_cons_some {b : β} (h : keep a = some b) :
    page (fetched + 1) (cap + 1) keep (a :: l) = b :: page fetched cap keep l := by
  simp [page, h]

theorem shows_nil : Shows fetched cap keep p [] := by
  intro before a after hsplit
  simp at hsplit

theorem shows_cons : Shows fetched cap keep p (a :: l) ↔
    (p a = true → (keep a).isSome = true ∧ 0 < fetched ∧ 0 < cap) ∧
      Shows (fetched - 1) (cap - (keep a).toList.length) keep p l := by
  constructor
  · intro h
    refine ⟨fun hp => by simpa using h [] a l rfl hp, fun before x after hsplit hp => ?_⟩
    obtain ⟨hkept, hfetched, hcap⟩ := h (a :: before) x after (by rw [hsplit]; rfl) hp
    rw [List.length_cons] at hfetched
    refine ⟨hkept, by omega, ?_⟩
    cases hkeep : keep a with
    | none => simpa [hkeep] using hcap
    | some b =>
      rw [List.filterMap_cons_some hkeep, List.length_cons] at hcap
      simp only [Option.toList_some, List.length_cons, List.length_nil]
      omega
  · rintro ⟨hfirst, hrest⟩ before x after hsplit hp
    cases before with
    | nil =>
      obtain ⟨rfl, rfl⟩ := List.cons.inj hsplit
      exact hfirst hp
    | cons c before =>
      obtain ⟨rfl, rfl⟩ := List.cons.inj hsplit
      obtain ⟨hkept, hfetched, hcap⟩ := hrest before x after rfl hp
      refine ⟨hkept, by rw [List.length_cons]; omega, ?_⟩
      cases hkeep : keep a with
      | none =>
        rw [List.filterMap_cons_none hkeep]
        simpa [hkeep] using hcap
      | some b =>
        rw [List.filterMap_cons_some hkeep, List.length_cons]
        simp only [hkeep, Option.toList_some, List.length_cons, List.length_nil] at hcap
        omega

/-- Nothing is shown that is not there. -/
theorem countP_page_le (hq : ∀ a ∈ l, ∀ b, keep a = some b → q b = p a) :
    (page fetched cap keep l).countP q ≤ l.countP p := by
  induction l generalizing fetched cap with
  | nil => simp [page]
  | cons a l ih =>
    have hrest : ∀ x ∈ l, ∀ b, keep x = some b → q b = p x :=
      fun x hx => hq x (List.mem_cons_of_mem a hx)
    cases fetched with
    | zero => simp [page_zero_fetched]
    | succ fetched =>
      cases hkeep : keep a with
      | none =>
        rw [page_cons_none hkeep, List.countP_cons]
        exact Nat.le_trans (ih hrest) (Nat.le_add_right _ _)
      | some b =>
        cases cap with
        | zero => simp [page_zero_cap]
        | succ cap =>
          rw [page_cons_some hkeep, List.countP_cons, List.countP_cons,
            hq a List.mem_cons_self b hkeep]
          exact Nat.add_le_add_right (ih hrest) _

/-- A page with no room shows all only where there is nothing to show. -/
theorem shows_closed (h : fetched = 0 ∨ cap = 0) :
    Shows fetched cap keep p l ↔ ∀ a ∈ l, p a = false := by
  constructor
  · intro hshows a ha
    obtain ⟨before, after, rfl⟩ := List.append_of_mem ha
    by_contra hp
    have hroom := hshows before a after rfl (by simpa using hp)
    omega
  · intro hnone before a after hsplit hp
    have hp' := hnone a (by rw [hsplit]; simp)
    rw [hp'] at hp
    cases hp

/-- All that `p` selects is counted exactly when it is shown. -/
theorem countP_page_eq_iff (hq : ∀ a ∈ l, ∀ b, keep a = some b → q b = p a) :
    (page fetched cap keep l).countP q = l.countP p ↔ Shows fetched cap keep p l := by
  induction l generalizing fetched cap with
  | nil => simp [page, shows_nil]
  | cons a l ih =>
    have hrest : ∀ x ∈ l, ∀ b, keep x = some b → q b = p x :=
      fun x hx => hq x (List.mem_cons_of_mem a hx)
    by_cases hclosed : fetched = 0 ∨ cap = 0
    case pos =>
      have hempty : page fetched cap keep (a :: l) = [] := by
        rcases hclosed with rfl | rfl
        · exact page_zero_fetched
        · exact page_zero_cap
      rw [hempty, shows_closed hclosed, List.countP_nil, eq_comm, List.countP_eq_zero]
      simp
    case neg =>
      obtain ⟨fetched, rfl⟩ := Nat.exists_eq_add_one_of_ne_zero (not_or.mp hclosed).1
      obtain ⟨cap, rfl⟩ := Nat.exists_eq_add_one_of_ne_zero (not_or.mp hclosed).2
      rw [shows_cons, List.countP_cons, Nat.add_sub_cancel]
      cases hkeep : keep a with
      | none =>
        have hle := @countP_page_le α β fetched (cap + 1) keep p q l hrest
        rw [page_cons_none hkeep, Option.toList_none, List.length_nil, Nat.sub_zero, ← ih hrest]
        by_cases hp : p a = true
        · simp [hp]
          omega
        · simp [hp]
      | some b =>
        rw [page_cons_some hkeep, List.countP_cons, hq a List.mem_cons_self b hkeep,
          Nat.add_right_cancel_iff, Option.toList_some, List.length_singleton, Nat.add_sub_cancel,
          ih hrest]
        simp

/-- What is shown depends on which of the fetched elements are kept only. -/
theorem shows_congr {γ : Type} {keep' : α → Option γ}
    (h : ∀ a ∈ l.take fetched, (keep a).isSome = (keep' a).isSome) :
    Shows fetched cap keep p l ↔ Shows fetched cap keep' p l := by
  refine forall_congr' fun before => forall_congr' fun a => forall_congr' fun after =>
    forall_congr' fun hsplit => forall_congr' fun _ => ?_
  by_cases hlength : before.length < fetched
  case neg => simp [hlength]
  case pos =>
    have htake : before ++ [a] <+: l.take fetched := by
      rw [List.prefix_take_iff, hsplit]
      refine ⟨⟨after, by simp⟩, ?_⟩
      rw [List.length_append, List.length_singleton]
      omega
    have hkept : ∀ x ∈ before ++ [a], (keep x).isSome = (keep' x).isSome :=
      fun x hx => h x (htake.subset hx)
    have hcount : (before.filterMap keep).length = (before.filterMap keep').length := by
      rw [List.length_filterMap_eq_countP, List.length_filterMap_eq_countP]
      exact List.countP_congr fun x hx => by rw [hkept x (List.mem_append_left _ hx)]
    rw [hkept a (by simp), hcount]

theorem shows_select_congr {p' : α → Bool} (h : ∀ a ∈ l, p a = p' a) :
    Shows fetched cap keep p l ↔ Shows fetched cap keep p' l := by
  refine forall_congr' fun before => forall_congr' fun a => forall_congr' fun after =>
    forall_congr' fun hsplit => ?_
  rw [h a (by simp [hsplit])]

theorem shows_or {p' : α → Bool} : Shows fetched cap keep (fun a => p a || p' a) l ↔
    Shows fetched cap keep p l ∧ Shows fetched cap keep p' l := by
  constructor
  · intro h
    exact ⟨fun before a after hsplit hp => h before a after hsplit (by simp [hp]),
      fun before a after hsplit hp => h before a after hsplit (by simp [hp])⟩
  · rintro ⟨h, h'⟩ before a after hsplit hp
    rcases Bool.or_eq_true_iff.mp hp with hp | hp
    · exact h before a after hsplit hp
    · exact h' before a after hsplit hp

/-- With nothing dropped a page is the first `cap` elements. -/
theorem page_some : page cap cap some l = l.take cap := by
  rw [page, List.filterMap_some, List.take_take, Nat.min_self]

theorem shows_all_some : Shows cap cap some (fun _ => true) l ↔ l.length ≤ cap := by
  have hcount := @countP_page_eq_iff α α cap cap some (fun _ => true) (fun _ => true) l
    fun _ _ _ _ => rfl
  simp only [page_some, List.countP_true, List.length_take] at hcount
  rw [← hcount]
  omega

/-- One more fetched than shown: the whole list is shown exactly when it fits and all of it is
kept. -/
theorem shows_all : Shows (cap + 1) cap keep (fun _ => true) l ↔
    l.length ≤ cap ∧ ∀ a ∈ l, (keep a).isSome = true := by
  constructor
  · intro h
    have hkept : ∀ a ∈ l, (keep a).isSome = true := by
      intro a ha
      obtain ⟨before, after, rfl⟩ := List.append_of_mem ha
      exact (h before a after rfl rfl).1
    refine ⟨?_, hkept⟩
    cases l.eq_nil_or_concat with
    | inl hnil => simp [hnil]
    | inr hlast =>
      obtain ⟨before, a, rfl⟩ := hlast
      have hroom := (h before a [] (by simp) rfl).2.2
      have hall : (before.filterMap keep).length = before.length := by
        rw [List.length_filterMap_eq_countP, List.countP_eq_length]
        exact fun x hx => hkept x (by simp [hx])
      rw [List.concat_eq_append, List.length_append, List.length_singleton]
      omega
  · rintro ⟨hfits, hkept⟩ before a after rfl -
    rw [List.length_append, List.length_cons] at hfits
    have hle := List.length_filterMap_le keep before
    exact ⟨hkept a (by simp), by omega, by omega⟩

end foundation.capped
