import Mathlib.Data.List.Induction
import Mathlib.Data.Nat.Basic

namespace foundation.outlines

variable {τ : Type}

/-- A heading closes the open ones of its level and of deeper ones. -/
def push (path : List (Nat × τ)) (heading : Nat × τ) : List (Nat × τ) :=
  path.filter (fun open_heading => open_heading.1 < heading.1) ++ [heading]

/-- The open headings after a sequence of headings. -/
def outline (headings : List (Nat × τ)) : List (Nat × τ) :=
  headings.foldl push []

/-- A heading takes the place in the path that its level numbers. -/
def place (path : List (Nat × τ)) (heading : Nat × τ) : List (Nat × τ) :=
  path.take (heading.1 - 1) ++ [heading]

/-- The path that follows a sequence of headings by their places. -/
def placed (headings : List (Nat × τ)) : List (Nat × τ) :=
  headings.foldl place []

/-- How many sections are open after headings of these levels, when no level is skipped. -/
def nesting (levels : List Nat) : Nat :=
  levels.foldl (fun depth level => min level (depth + 1)) 0

/-- A heading is followed by one of its level or of a lower one, while all that follow are
deeper than it is nested. -/
def Stale (levels : List Nat) : Prop :=
  ∃ before level after, levels = before ++ level :: after ∧ (∃ later ∈ after, later ≤ level) ∧
    ∀ later ∈ after, nesting (before ++ [level]) < later

variable {headings path : List (Nat × τ)} {heading : Nat × τ}

@[simp] theorem outline_concat : outline (headings ++ [heading]) = push (outline headings) heading := by
  simp [outline]

@[simp] theorem placed_concat : placed (headings ++ [heading]) = place (placed headings) heading := by
  simp [placed]

section Outlines

/-- An outline goes down from level to level. -/
theorem outline_increasing (headings : List (Nat × τ)) :
    (outline headings).Pairwise fun a b => a.1 < b.1 := by
  induction headings using List.reverseRecOn with
  | nil => exact List.Pairwise.nil
  | append_singleton headings heading ih =>
    rw [outline_concat, push, List.pairwise_append]
    refine ⟨ih.sublist List.filter_sublist, List.pairwise_singleton _ _, ?_⟩
    intro a ha b hb
    rw [List.mem_singleton.mp hb]
    exact of_decide_eq_true (List.mem_filter.mp ha).2

theorem outline_sublist (headings : List (Nat × τ)) : (outline headings).Sublist headings := by
  induction headings using List.reverseRecOn with
  | nil => exact List.Sublist.slnil
  | append_singleton headings heading ih =>
    rw [outline_concat, push]
    exact (List.filter_sublist.trans ih).append (List.Sublist.refl _)

/-- A path is its own outline exactly when it goes down. -/
theorem outline_eq_self_iff : outline path = path ↔ path.Pairwise fun a b => a.1 < b.1 := by
  constructor
  · intro h
    rw [← h]
    exact outline_increasing path
  · intro h
    induction path using List.reverseRecOn with
    | nil => rfl
    | append_singleton path heading ih =>
      obtain ⟨hpath, -, hless⟩ := List.pairwise_append.mp h
      rw [outline_concat, ih hpath, push, List.filter_eq_self.mpr]
      intro a ha
      exact decide_eq_true (hless a ha heading (List.mem_singleton_self _))

/-- What is closed anyway may be left out before. -/
theorem filter_outline_append {level : Nat} {deeper : List (Nat × τ)}
    (hdeeper : ∀ a ∈ deeper, level ≤ a.1) :
    (outline (path ++ deeper)).filter (·.1 < level) = (outline path).filter (·.1 < level) := by
  induction deeper using List.reverseRecOn with
  | nil => rw [List.append_nil]
  | append_singleton deeper heading ih =>
    have hlevel := hdeeper heading (by simp)
    have hno : ¬heading.1 < level := Nat.not_lt.mpr hlevel
    rw [← List.append_assoc, outline_concat, push, List.filter_append, List.filter_filter]
    rw [← ih fun a ha => hdeeper a (List.mem_append_left _ ha)]
    simp only [List.filter_cons, hno, decide_false, Bool.false_eq_true, if_false, List.filter_nil,
      List.append_nil]
    apply List.filter_congr
    intro a _
    rw [Bool.eq_iff_iff]
    simp only [Bool.and_eq_true, decide_eq_true_eq]
    omega

end Outlines

section Places

/-- A heading stands at a place below its level. -/
theorem placed_above (hlevels : ∀ a ∈ headings, 0 < a.1) {before after : List (Nat × τ)}
    (h : placed headings = before ++ heading :: after) : before.length < heading.1 := by
  induction headings using List.reverseRecOn generalizing after with
  | nil => simp [placed] at h
  | append_singleton headings last ih =>
    have hlast := hlevels last (by simp)
    have hfront : ∀ a ∈ headings, 0 < a.1 := fun a ha => hlevels a (List.mem_append_left _ ha)
    rw [placed_concat, place] at h
    cases after using List.reverseRecOn with
    | nil =>
      obtain ⟨hbefore, hheading⟩ := List.append_inj' h rfl
      rw [← List.singleton_inj.mp hheading, ← hbefore, List.length_take]
      omega
    | append_singleton after last' =>
      rw [← List.cons_append, ← List.append_assoc] at h
      obtain ⟨hbefore, -⟩ := List.append_inj' h rfl
      have hwhole : placed headings = before ++ heading ::
          (after ++ (placed headings).drop (last.1 - 1)) := by
        rw [← List.cons_append, ← List.append_assoc, ← hbefore, List.take_append_drop]
      exact ih hfront hwhole

/-- The path by places has the outline of the headings. -/
theorem outline_placed (hlevels : ∀ a ∈ headings, 0 < a.1) :
    outline (placed headings) = outline headings := by
  induction headings using List.reverseRecOn with
  | nil => rfl
  | append_singleton headings heading ih =>
    have hfront : ∀ a ∈ headings, 0 < a.1 := fun a ha => hlevels a (List.mem_append_left _ ha)
    have hdeeper : ∀ a ∈ (placed headings).drop (heading.1 - 1), heading.1 ≤ a.1 := by
      intro a ha
      obtain ⟨front, back, hdrop⟩ := List.append_of_mem ha
      have hsplit : placed headings =
          ((placed headings).take (heading.1 - 1) ++ front) ++ a :: back := by
        rw [List.append_assoc, ← hdrop, List.take_append_drop]
      have habove := placed_above hfront hsplit
      have hlong : heading.1 - 1 ≤ (placed headings).length := by
        by_contra hshort
        rw [List.drop_eq_nil_of_le (by omega)] at ha
        cases ha
      rw [List.length_append, List.length_take, Nat.min_eq_left hlong] at habove
      omega
    have hclosed := @filter_outline_append τ ((placed headings).take (heading.1 - 1)) heading.1 _
      hdeeper
    rw [List.take_append_drop, ih hfront] at hclosed
    rw [placed_concat, place, outline_concat, outline_concat, push, push, hclosed]

/-- The path by places is the outline exactly when it goes down. -/
theorem placed_eq_outline_iff (hlevels : ∀ a ∈ headings, 0 < a.1) :
    (placed headings).map (·.2) = (outline headings).map (·.2) ↔
      (placed headings).Pairwise fun a b => a.1 < b.1 := by
  rw [← outline_eq_self_iff, outline_placed hlevels]
  constructor
  · intro h
    have hlength := congrArg List.length h
    rw [List.length_map, List.length_map, ← outline_placed hlevels] at hlength
    rw [← outline_placed hlevels]
    exact (outline_sublist (placed headings)).eq_of_length hlength.symm
  · intro h
    rw [h]

theorem nesting_eq_length (hlevels : ∀ a ∈ headings, 0 < a.1) :
    nesting (headings.map (·.1)) = (placed headings).length := by
  induction headings using List.reverseRecOn with
  | nil => rfl
  | append_singleton headings heading ih =>
    have hheading := hlevels heading (by simp)
    have hfront := ih fun a ha => hlevels a (List.mem_append_left _ ha)
    rw [nesting] at hfront ⊢
    rw [List.map_append, List.foldl_append, hfront, placed_concat, place, List.length_append,
      List.length_take]
    simp only [List.map_cons, List.map_nil, List.foldl_cons, List.foldl_nil, List.length_singleton]
    omega

/-- What deeper headings follow stays in place, and each of them is followed by one of its level
or of a lower one. -/
theorem placed_append {before after : List (Nat × τ)} (hbefore : ∀ a ∈ before, 0 < a.1)
    (hafter : ∀ a ∈ after, (placed before).length < a.1) :
    ∃ rest, placed (before ++ after) = placed before ++ rest ∧
      ∀ a ∈ after, ∃ b ∈ rest, b.1 ≤ a.1 := by
  induction after using List.reverseRecOn with
  | nil => exact ⟨[], by simp, fun a ha => absurd ha List.not_mem_nil⟩
  | append_singleton after heading ih =>
    obtain ⟨rest, hplaced, hlower⟩ := ih fun a ha => hafter a (List.mem_append_left _ ha)
    have hheading := hafter heading (by simp)
    have hlevels : ∀ a ∈ before ++ after, 0 < a.1 := by
      intro a ha
      rcases List.mem_append.mp ha with ha | ha
      · exact hbefore a ha
      · exact Nat.zero_lt_of_lt (hafter a (List.mem_append_left _ ha))
    refine ⟨rest.take (heading.1 - 1 - (placed before).length) ++ [heading], ?_, ?_⟩
    · rw [← List.append_assoc, placed_concat, place, hplaced, List.take_append,
        List.take_of_length_le (by omega), List.append_assoc]
    · intro a ha
      rcases List.mem_append.mp ha with ha | ha
      · obtain ⟨b, hb, hle⟩ := hlower a ha
        rw [← List.take_append_drop (heading.1 - 1 - (placed before).length) rest] at hb
        rcases List.mem_append.mp hb with hb | hb
        · exact ⟨b, List.mem_append_left _ hb, hle⟩
        · refine ⟨heading, List.mem_append_right _ (List.mem_singleton_self _), ?_⟩
          obtain ⟨front, back, hdrop⟩ := List.append_of_mem hb
          have hsplit : placed (before ++ after) = (placed before ++
              (rest.take (heading.1 - 1 - (placed before).length) ++ front)) ++ b :: back := by
            rw [List.append_assoc, List.append_assoc, ← hdrop, List.take_append_drop, hplaced]
          have habove := placed_above hlevels hsplit
          have hlong : heading.1 - 1 - (placed before).length ≤ rest.length := by
            by_contra hshort
            rw [List.drop_eq_nil_of_le (by omega)] at hb
            cases hb
          rw [List.length_append, List.length_append, List.length_take,
            Nat.min_eq_left hlong] at habove
          omega
      · rw [List.mem_singleton.mp ha]
        exact ⟨heading, List.mem_append_right _ (List.mem_singleton_self _), le_refl _⟩

/-- Where a heading of the path comes from. -/
theorem exists_of_placed {before after : List (Nat × τ)}
    (h : placed headings = before ++ heading :: after) :
    ∃ earlier later, headings = earlier ++ heading :: later ∧
      (placed (earlier ++ [heading])).length = before.length + 1 ∧
      (∀ a ∈ later, before.length + 1 < a.1) ∧ ∀ a ∈ after, a ∈ later := by
  induction headings using List.reverseRecOn generalizing after with
  | nil => simp [placed] at h
  | append_singleton headings last ih =>
    have hwhole := h
    rw [placed_concat, place] at h
    cases after using List.reverseRecOn with
    | nil =>
      obtain ⟨-, hlast⟩ := List.append_inj' h rfl
      cases List.singleton_inj.mp hlast
      refine ⟨headings, [], rfl, ?_, fun a ha => absurd ha List.not_mem_nil,
        fun a ha => absurd ha List.not_mem_nil⟩
      rw [hwhole, List.length_append, List.length_singleton]
    | append_singleton after last' =>
      rw [← List.cons_append, ← List.append_assoc] at h
      obtain ⟨htake, hlast⟩ := List.append_inj' h rfl
      cases List.singleton_inj.mp hlast
      have hsplit : placed headings = before ++ heading ::
          (after ++ (placed headings).drop (last.1 - 1)) := by
        rw [← List.cons_append, ← List.append_assoc, ← htake, List.take_append_drop]
      obtain ⟨earlier, later, hheadings, hnested, hdeeper, hafter⟩ := ih hsplit
      have hlast : before.length + 1 < last.1 := by
        have hlength := congrArg List.length htake
        rw [List.length_take, List.length_append, List.length_cons] at hlength
        omega
      refine ⟨earlier, later ++ [last], by rw [hheadings]; simp, hnested, ?_, ?_⟩
      · intro a ha
        rcases List.mem_append.mp ha with ha | ha
        · exact hdeeper a ha
        · rwa [List.mem_singleton.mp ha]
      · intro a ha
        rcases List.mem_append.mp ha with ha | ha
        · exact List.mem_append_left _ (hafter a (List.mem_append_left _ ha))
        · exact List.mem_append_right _ ha

theorem pairwise_of_splits {α : Type} {R : α → α → Prop} {l : List α}
    (h : ∀ before a after, l = before ++ a :: after → ∀ b ∈ after, R a b) : l.Pairwise R := by
  induction l with
  | nil => exact List.Pairwise.nil
  | cons a l ih =>
    refine List.pairwise_cons.mpr ⟨h [] a l rfl, ih ?_⟩
    intro before b after hl
    exact h (a :: before) b after (by rw [hl]; rfl)

/-- The path by places goes down exactly when no heading in it is stale. -/
theorem placed_increasing_iff (hlevels : ∀ a ∈ headings, 0 < a.1) :
    ((placed headings).Pairwise fun a b => a.1 < b.1) ↔ ¬Stale (headings.map (·.1)) := by
  constructor
  · rintro hincreasing ⟨before, level, after, hsplit, ⟨later, hlater, hle⟩, hdeeper⟩
    obtain ⟨before', rest', hheadings, rfl, hrest⟩ := List.map_eq_append_iff.mp hsplit
    obtain ⟨heading, after', rfl, rfl, rfl⟩ := List.map_eq_cons_iff.mp hrest
    have hbefore : ∀ a ∈ before' ++ [heading], 0 < a.1 := by
      intro a ha
      apply hlevels a
      rw [hheadings]
      simp only [List.mem_append, List.mem_cons, List.not_mem_nil, or_false] at ha ⊢
      tauto
    have hnested := nesting_eq_length hbefore
    rw [List.map_append, List.map_singleton] at hnested
    rw [hnested] at hdeeper
    obtain ⟨rest, hplaced, hlower⟩ := @placed_append τ _ after' hbefore
      fun a ha => hdeeper a.1 (List.mem_map_of_mem ha)
    obtain ⟨a, ha, rfl⟩ := List.mem_map.mp hlater
    obtain ⟨b, hb, hba⟩ := hlower a ha
    have hwhole : headings = (before' ++ [heading]) ++ after' := by
      rw [hheadings, List.append_assoc, List.singleton_append]
    rw [hwhole, hplaced, placed_concat, place] at hincreasing
    have hless := (List.pairwise_append.mp hincreasing).2.2 heading (by simp) b hb
    omega
  · intro hfresh
    apply pairwise_of_splits
    intro before heading after hplaced b hb
    obtain ⟨earlier, later, hheadings, hnested, hdeeper, hafter⟩ := exists_of_placed hplaced
    by_contra hnot
    apply hfresh
    refine ⟨earlier.map (·.1), heading.1, later.map (·.1), ?_, ?_, ?_⟩
    · rw [hheadings, List.map_append, List.map_cons]
    · exact ⟨b.1, List.mem_map_of_mem (hafter b hb), Nat.le_of_not_lt hnot⟩
    · have hfront : ∀ a ∈ earlier ++ [heading], 0 < a.1 := by
        intro a ha
        apply hlevels a
        rw [hheadings]
        simp only [List.mem_append, List.mem_cons, List.not_mem_nil, or_false] at ha ⊢
        tauto
      have hnesting := nesting_eq_length hfront
      rw [List.map_append, List.map_singleton, hnested] at hnesting
      intro level hlevel
      obtain ⟨a, ha, rfl⟩ := List.mem_map.mp hlevel
      rw [hnesting]
      exact hdeeper a ha

end Places

end foundation.outlines
