import Mathlib.Data.List.Basic
import Mathlib.Data.List.Nodup

namespace foundation.pairing

/-- What an element does to the one that waits before it. -/
inductive Turn
  | opens | closes | neither
  deriving DecidableEq

variable {α κ : Type} (turn : α → Turn)

/-- Each closing element with the opening one that waits for it; a later opening element
supersedes the one that waits. -/
def pairs (waiting : Option α) : List α → List (α × α)
  | [] => []
  | x :: xs =>
    match turn x with
    | .opens => pairs (some x) xs
    | .closes =>
      match waiting with
      | some u => (u, x) :: pairs none xs
      | none => pairs none xs
    | .neither => pairs waiting xs

/-- The element that waits after a list. -/
def waits (waiting : Option α) : List α → Option α
  | [] => waiting
  | x :: xs =>
    match turn x with
    | .opens => waits (some x) xs
    | .closes => waits none xs
    | .neither => waits waiting xs

/-- The opening elements that are superseded. -/
def superseded (waiting : Option α) : List α → List α
  | [] => []
  | x :: xs =>
    match turn x with
    | .opens => waiting.toList ++ superseded (some x) xs
    | .closes => superseded none xs
    | .neither => superseded waiting xs

/-- The elements of pairs. -/
def members (found : List (α × α)) : List α :=
  found.flatMap fun pair => [pair.1, pair.2]

/-- What remains without the first `k` pairs; `waiting` and the elements `passed` since
then come before the list and are not kept yet. -/
def without (waiting : Option α) (passed : List α) : (k : Nat) → List α → List α
  | 0, l => waiting.toList ++ (passed ++ l)
  | _ + 1, [] => waiting.toList ++ passed
  | k + 1, x :: xs =>
    match turn x with
    | .opens => waiting.toList ++ (passed ++ without (some x) [] (k + 1) xs)
    | .closes =>
      match waiting with
      | some _ => passed ++ without none [] k xs
      | none => passed ++ x :: without none [] (k + 1) xs
    | .neither => without waiting (passed ++ [x]) (k + 1) xs

/-- Before a closing element that nothing waits for, with at most `k` pairs before it,
nothing was superseded; `left` waits in what remains of an earlier part. -/
def Separate (left waiting : Option α) (k : Nat) (l : List α) : Prop :=
  ∀ before x after, l = before ++ x :: after → turn x = .closes →
    waits turn waiting before = none → (pairs turn waiting before).length ≤ k →
      left = none ∧ superseded turn waiting before = []

variable {turn} {left waiting : Option α} {passed l xs : List α} {x u : α} {k : Nat}

theorem mem_of_mem_pairs {pair : α × α} (h : pair ∈ pairs turn waiting l) :
    pair.1 ∈ waiting.toList ++ l ∧ pair.2 ∈ l := by
  induction l generalizing waiting with
  | nil => cases h
  | cons x xs ih =>
    cases hx : turn x with
    | opens =>
      simp only [pairs, hx] at h
      obtain ⟨hfirst, hsecond⟩ := ih h
      exact ⟨List.mem_append_right _ hfirst, List.mem_cons_of_mem x hsecond⟩
    | neither =>
      simp only [pairs, hx] at h
      obtain ⟨hfirst, hsecond⟩ := ih h
      refine ⟨?_, List.mem_cons_of_mem x hsecond⟩
      exact (List.Sublist.append_left (List.sublist_cons_self x xs) _).subset hfirst
    | closes =>
      have hrest : pair ∈ pairs turn none xs →
          pair.1 ∈ waiting.toList ++ x :: xs ∧ pair.2 ∈ x :: xs := by
        intro hpair
        obtain ⟨hfirst, hsecond⟩ := ih hpair
        exact ⟨List.mem_append_right _ (List.mem_cons_of_mem x hfirst),
          List.mem_cons_of_mem x hsecond⟩
      cases waiting with
      | none =>
        simp only [pairs, hx] at h
        exact hrest h
      | some u =>
        simp only [pairs, hx, List.mem_cons] at h
        cases h with
        | inl hpair =>
          rw [hpair]
          exact ⟨List.mem_cons_self, List.mem_cons_self⟩
        | inr hpair => exact hrest hpair

theorem mem_of_mem_members (h : u ∈ members ((pairs turn waiting l).take k)) :
    u ∈ waiting.toList ++ l := by
  obtain ⟨pair, hpair, hu⟩ := List.mem_flatMap.mp h
  obtain ⟨hfirst, hsecond⟩ := mem_of_mem_pairs (List.mem_of_mem_take hpair)
  simp only [List.mem_cons, List.not_mem_nil, or_false] at hu
  cases hu with
  | inl hu => exact hu ▸ hfirst
  | inr hu => exact hu ▸ List.mem_append_right _ hsecond

theorem members_cons (pair : α × α) (found : List (α × α)) :
    members (pair :: found) = pair.1 :: pair.2 :: members found := rfl

/-- What has passed belongs to no pair. -/
theorem filter_passed {keep : α → Bool} (hnodup : (waiting.toList ++ (passed ++ l)).Nodup)
    (hkeep : ∀ u ∈ waiting.toList ++ (passed ++ l),
      keep u = true ↔ u ∉ members ((pairs turn waiting l).take k)) :
    passed.filter keep = passed := by
  obtain ⟨-, htail, hwaiting⟩ := List.nodup_append.mp hnodup
  obtain ⟨-, -, hpassed⟩ := List.nodup_append.mp htail
  rw [List.filter_eq_self]
  intro u hu
  have hmem : u ∈ passed ++ l := List.mem_append_left l hu
  rw [hkeep u (List.mem_append_right _ hmem)]
  intro hpaired
  cases List.mem_append.mp (mem_of_mem_members hpaired) with
  | inl hmember => exact hwaiting u hmember u hmem rfl
  | inr hmember => exact hpassed u hu u hmember rfl

/-- Among distinct elements, what remains is what a filter keeps that removes the members
of the first pairs. -/
theorem without_eq_filter {keep : α → Bool} (hnodup : (waiting.toList ++ (passed ++ l)).Nodup)
    (hkeep : ∀ u ∈ waiting.toList ++ (passed ++ l),
      keep u = true ↔ u ∉ members ((pairs turn waiting l).take k)) :
    without turn waiting passed k l = (waiting.toList ++ (passed ++ l)).filter keep := by
  induction l generalizing waiting passed k with
  | nil =>
    have hall : (waiting.toList ++ (passed ++ [])).filter keep =
        waiting.toList ++ (passed ++ []) := by
      rw [List.filter_eq_self]
      intro u hu
      rw [hkeep u hu]
      simp [pairs, members]
    rw [hall]
    cases k <;> simp [without]
  | cons x xs ih =>
    have hpassed := filter_passed hnodup hkeep
    obtain ⟨-, htail, hwaiting⟩ := List.nodup_append.mp hnodup
    have hxs : (x :: xs).Nodup := (List.nodup_append.mp htail).2.1
    have hrest : ∀ u ∈ x :: xs, u ∈ waiting.toList ++ (passed ++ x :: xs) := fun u hu =>
      List.mem_append_right _ (List.mem_append_right _ hu)
    cases k with
    | zero =>
      rw [without, List.filter_eq_self.mpr]
      intro u hu
      rw [hkeep u hu]
      exact List.not_mem_nil
    | succ k =>
      rw [List.filter_append, List.filter_append, hpassed]
      cases hx : turn x with
      | opens =>
        simp only [without, pairs, hx] at hkeep ⊢
        have hkept : waiting.toList.filter keep = waiting.toList := by
          rw [List.filter_eq_self]
          intro u hu
          rw [hkeep u (List.mem_append_left _ hu)]
          intro hpaired
          have hmember : u ∈ x :: xs := mem_of_mem_members hpaired
          exact hwaiting u hu u (List.mem_append_right _ hmember) rfl
        rw [hkept, @ih (some x) [] (k + 1) hxs fun u hu => hkeep u (hrest u hu)]
        rfl
      | neither =>
        simp only [without, pairs, hx] at hkeep ⊢
        have hmoved : waiting.toList ++ ((passed ++ [x]) ++ xs) =
            waiting.toList ++ (passed ++ x :: xs) := by
          rw [List.append_assoc passed [x] xs, List.singleton_append]
        rw [ih (hmoved ▸ hnodup) (hmoved ▸ hkeep), hmoved, List.filter_append,
          List.filter_append, hpassed]
      | closes =>
        have hno : x ∉ xs := (List.nodup_cons.mp hxs).1
        have htail : xs.Nodup := (List.nodup_cons.mp hxs).2
        cases waiting with
        | none =>
          simp only [without, pairs, hx] at hkeep ⊢
          have hkept : keep x = true := by
            rw [hkeep x (hrest x List.mem_cons_self)]
            exact fun hpaired => hno (mem_of_mem_members hpaired)
          rw [List.filter_cons_of_pos hkept, @ih none [] (k + 1) htail
            fun u hu => hkeep u (hrest u (List.mem_cons_of_mem x hu))]
          rfl
        | some v =>
          simp only [without, pairs, hx, List.take_succ_cons, members_cons] at hkeep ⊢
          have hfirst : keep v = false := by
            rw [Bool.eq_false_iff, ne_eq, hkeep v List.mem_cons_self]
            exact fun h => h List.mem_cons_self
          have hsecond : keep x = false := by
            rw [Bool.eq_false_iff, ne_eq, hkeep x (hrest x List.mem_cons_self)]
            exact fun h => h (List.mem_cons_of_mem v List.mem_cons_self)
          have hothers : ∀ u ∈ xs,
              keep u = true ↔ u ∉ members ((pairs turn none xs).take k) := by
            intro u hu
            have hv : u ≠ v := fun heq => hwaiting v List.mem_cons_self u
              (List.mem_append_right _ (List.mem_cons_of_mem x hu)) heq.symm
            have hx : u ≠ x := fun heq => hno (heq ▸ hu)
            rw [hkeep u (hrest u (List.mem_cons_of_mem x hu)), List.mem_cons, or_iff_right hv,
              List.mem_cons, or_iff_right hx]
          rw [List.filter_cons_of_neg (by simp [hsecond]), @ih none [] k htail hothers]
          simp [hfirst]

/-- Removal by keys that tell the elements apart. -/
theorem without_eq_filter_keys {κ : Type} [DecidableEq κ] {key : α → κ}
    (hnodup : (l.map key).Nodup) :
    without turn none [] k l = l.filter fun u =>
      key u ∉ ((pairs turn none l).take k).flatMap fun pair => [key pair.1, key pair.2] := by
  refine @without_eq_filter _ turn none [] l k _ (List.Nodup.of_map key hnodup) fun u hu => ?_
  have hkeys : (((pairs turn none l).take k).flatMap fun pair => [key pair.1, key pair.2]) =
      (members ((pairs turn none l).take k)).map key := by
    rw [members, List.map_flatMap]
    rfl
  rw [decide_eq_true_eq, hkeys, not_iff_not]
  constructor
  · intro hkey
    obtain ⟨v, hv, heq⟩ := List.mem_map.mp hkey
    rwa [← List.inj_on_of_nodup_map hnodup (mem_of_mem_members hv) hu heq]
  · exact List.mem_map_of_mem

/-- Pairs of images are images of pairs. -/
theorem pairs_map {β : Type} (f : β → α) (waiting : Option β) (l : List β) :
    pairs turn (waiting.map f) (l.map f) =
      (pairs (fun b => turn (f b)) waiting l).map (Prod.map f f) := by
  induction l generalizing waiting with
  | nil => rfl
  | cons x xs ih =>
    simp only [List.map_cons, pairs]
    cases turn (f x) with
    | opens => exact ih (some x)
    | neither => exact ih waiting
    | closes =>
      cases waiting with
      | none => exact ih none
      | some u => exact congrArg ((f u, f x) :: ·) (ih none)

theorem without_map {β : Type} (f : β → α) (waiting : Option β) (passed : List β) (k : Nat)
    (l : List β) : without turn (waiting.map f) (passed.map f) k (l.map f) =
      (without (fun b => turn (f b)) waiting passed k l).map f := by
  have hwaiting (waiting : Option β) : (waiting.map f).toList = waiting.toList.map f := by
    cases waiting <;> rfl
  induction l generalizing waiting passed k with
  | nil => cases k <;> simp [without, hwaiting]
  | cons x xs ih =>
    cases k with
    | zero => simp [without, hwaiting]
    | succ k =>
      simp only [List.map_cons, without]
      cases turn (f x) with
      | opens =>
        have hrest : without turn (some (f x)) [] (k + 1) (xs.map f) = _ := ih (some x) [] (k + 1)
        rw [hrest, hwaiting, List.map_append, List.map_append]
      | neither =>
        have hrest := ih waiting (passed ++ [x]) (k + 1)
        rw [List.map_append, List.map_singleton] at hrest
        exact hrest
      | closes =>
        cases waiting with
        | none =>
          have hrest : without turn none [] (k + 1) (xs.map f) = _ := ih none [] (k + 1)
          rw [hrest, List.map_append, List.map_cons]
          rfl
        | some u =>
          have hrest : without turn none [] k (xs.map f) = _ := ih none [] k
          rw [hrest, List.map_append]
          rfl

theorem without_zero : without turn none [] 0 l = l := by
  rw [without]
  rfl

/-- The pairs of what remains are pairs of elements. -/
theorem mem_of_mem_pairs_without {κ : Type} [DecidableEq κ] {key : α → κ}
    (hnodup : (l.map key).Nodup) {pair : α × α}
    (h : pair ∈ pairs turn none (without turn none [] k l)) : pair.1 ∈ l ∧ pair.2 ∈ l := by
  obtain ⟨hfirst, hsecond⟩ := mem_of_mem_pairs h
  rw [Option.toList_none, List.nil_append] at hfirst
  rw [without_eq_filter_keys hnodup] at hfirst hsecond
  exact ⟨List.mem_of_mem_filter hfirst, List.mem_of_mem_filter hsecond⟩

/-- Such keys tell pairs of elements apart. -/
theorem map_keys_inj {κ : Type} {key : α → κ} (hnodup : (l.map key).Nodup)
    {found found' : List (α × α)} (hfound : ∀ pair ∈ found, pair.1 ∈ l ∧ pair.2 ∈ l)
    (hfound' : ∀ pair ∈ found', pair.1 ∈ l ∧ pair.2 ∈ l) :
    (found.map fun pair => (key pair.1, key pair.2)) =
      (found'.map fun pair => (key pair.1, key pair.2)) ↔ found = found' := by
  refine ⟨fun h => ?_, fun h => congrArg _ h⟩
  induction found generalizing found' with
  | nil => exact (List.map_eq_nil_iff.mp h.symm).symm
  | cons pair found ih =>
    cases found' with
    | nil => cases h
    | cons pair' found' =>
      obtain ⟨hhead, htail⟩ := List.cons.inj h
      obtain ⟨hfirst, hsecond⟩ := Prod.mk.inj hhead
      have hpair := hfound pair List.mem_cons_self
      have hpair' := hfound' pair' List.mem_cons_self
      have hsame : pair = pair' := Prod.ext
        (List.inj_on_of_nodup_map hnodup hpair.1 hpair'.1 hfirst)
        (List.inj_on_of_nodup_map hnodup hpair.2 hpair'.2 hsecond)
      rw [hsame, ih (fun other hother => hfound other (List.mem_cons_of_mem _ hother))
        (fun other hother => hfound' other (List.mem_cons_of_mem _ hother)) htail]

theorem pairs_passed (hpassed : ∀ u ∈ passed, turn u = .neither) :
    pairs turn waiting (passed ++ l) = pairs turn waiting l := by
  induction passed with
  | nil => rfl
  | cons u us ih =>
    have hu : turn u = .neither := hpassed u List.mem_cons_self
    simp only [List.cons_append, pairs, hu]
    exact ih fun v hv => hpassed v (List.mem_cons_of_mem u hv)

theorem pairs_released (hpassed : ∀ u ∈ passed, turn u = .neither)
    (hwaiting : ∀ u ∈ waiting, turn u = .opens) :
    pairs turn left (waiting.toList ++ (passed ++ l)) = pairs turn (waiting <|> left) l := by
  cases waiting with
  | none => exact pairs_passed hpassed
  | some u =>
    have hu : turn u = .opens := hwaiting u rfl
    simp only [Option.toList_some, List.singleton_append, pairs, hu]
    exact pairs_passed hpassed

/-- Where something waited and nothing waits any more, there is a pair. -/
theorem pairs_ne_nil (h : waits turn waiting l = none)
    (hwaited : waiting ≠ none ∨ superseded turn waiting l ≠ []) :
    pairs turn waiting l ≠ [] := by
  induction l generalizing waiting with
  | nil => exact absurd h (hwaited.resolve_right fun hne => hne rfl)
  | cons x xs ih =>
    cases hx : turn x with
    | opens =>
      simp only [waits, pairs, hx] at h ⊢
      exact ih h (.inl (Option.some_ne_none x))
    | neither =>
      simp only [waits, pairs, superseded, hx] at h hwaited ⊢
      exact ih h hwaited
    | closes =>
      cases waiting with
      | some u =>
        simp only [pairs, hx]
        exact List.cons_ne_nil _ _
      | none =>
        simp only [waits, pairs, superseded, hx] at h hwaited ⊢
        exact ih h (.inr (hwaited.resolve_left fun hne => hne rfl))

/-- With one more element in front. -/
theorem separate_cons : Separate turn left waiting k (x :: xs) ↔
    (turn x = .closes → waiting = none → left = none) ∧
      ∀ before y after, xs = before ++ y :: after → turn y = .closes →
        waits turn waiting (x :: before) = none →
          (pairs turn waiting (x :: before)).length ≤ k →
            left = none ∧ superseded turn waiting (x :: before) = [] := by
  constructor
  · intro h
    refine ⟨fun hx hnone => (h [] x xs rfl hx hnone (Nat.zero_le k)).1, ?_⟩
    intro before y after hxs
    exact h (x :: before) y after (by rw [hxs, List.cons_append])
  · intro h before y after hl hy hnone hcount
    cases before with
    | nil =>
      obtain ⟨rfl, rfl⟩ := List.cons.inj hl
      exact ⟨h.1 hy hnone, rfl⟩
    | cons z before =>
      obtain ⟨rfl, hxs⟩ := List.cons.inj hl
      exact h.2 before y after hxs hy hnone hcount

theorem separate_nil : Separate turn left waiting k [] :=
  fun _ _ _ hl _ _ _ => absurd hl (by simp)

/-- What waits in front changes the pairs only if a closing element comes first. -/
theorem pairs_left_iff :
    pairs turn left l = pairs turn none l ↔ Separate turn left none 0 l := by
  induction l with
  | nil => exact iff_of_true rfl separate_nil
  | cons x xs ih =>
    rw [separate_cons]
    cases hx : turn x with
    | neither =>
      simp only [pairs, waits, superseded, hx, reduceCtorEq, false_implies, true_and]
      exact ih
    | opens =>
      refine iff_of_true (by simp only [pairs, hx]) ⟨nofun, ?_⟩
      intro before y after hxs hy hnone hcount
      simp only [waits, pairs, hx] at hnone hcount
      have hpairs := pairs_ne_nil hnone (.inl (Option.some_ne_none x))
      exact absurd (List.eq_nil_of_length_eq_zero (Nat.le_zero.mp hcount)) hpairs
    | closes =>
      cases left with
      | none =>
        refine iff_of_true rfl ⟨fun _ _ => rfl, ?_⟩
        intro before y after hxs hy hnone hcount
        refine ⟨rfl, ?_⟩
        by_contra hsuperseded
        exact pairs_ne_nil hnone (.inr hsuperseded)
          (List.eq_nil_of_length_eq_zero (Nat.le_zero.mp hcount))
      | some v =>
        refine iff_of_false ?_ fun h => Option.some_ne_none v (h.1 rfl rfl)
        intro h
        have hlength := congrArg List.length h
        simp only [pairs, hx, List.length_cons] at hlength
        omega

/-- The pairs of what remains without the first `k` pairs are the other pairs exactly if
no superseded element comes before an unasked one among them. -/
theorem pairs_without_iff (hpassed : ∀ u ∈ passed, turn u = .neither)
    (hwaiting : ∀ u ∈ waiting, turn u = .opens) (hnodup : l.Nodup) :
    pairs turn left (without turn waiting passed k l) = (pairs turn waiting l).drop k ↔
      Separate turn left waiting k l := by
  induction l generalizing left waiting passed k with
  | nil =>
    refine iff_of_true ?_ separate_nil
    have hremains : without turn waiting passed k [] = waiting.toList ++ (passed ++ []) := by
      cases k <;> simp [without]
    rw [hremains, pairs_released hpassed hwaiting]
    simp [pairs]
  | cons x xs ih =>
    obtain ⟨hno, hxs⟩ := List.nodup_cons.mp hnodup
    cases k with
    | zero =>
      rw [without, pairs_released hpassed hwaiting, List.drop_zero]
      cases waiting with
      | none => exact pairs_left_iff
      | some u =>
        refine iff_of_true rfl ?_
        intro before y after hl hy hnone hcount
        exact absurd (List.eq_nil_of_length_eq_zero (Nat.le_zero.mp hcount))
          (pairs_ne_nil hnone (.inl (Option.some_ne_none u)))
    | succ k =>
      rw [separate_cons]
      cases hx : turn x with
      | neither =>
        simp only [without, pairs, waits, superseded, hx, reduceCtorEq, false_implies, true_and]
        refine ih (fun u hu => ?_) hwaiting hxs
        cases List.mem_append.mp hu with
        | inl hu => exact hpassed u hu
        | inr hu => exact List.eq_of_mem_singleton hu ▸ hx
      | opens =>
        simp only [without, pairs, waits, superseded, hx, reduceCtorEq, false_implies, true_and]
        rw [pairs_released hpassed hwaiting,
          @ih _ (some x) [] (k + 1) (fun u hu => absurd hu List.not_mem_nil)
            (fun u hu => Option.some.inj hu ▸ hx) hxs]
        cases waiting <;> simp [Separate]
      | closes =>
        have hdone : ∀ u ∈ ([] : List α), turn u = .neither := nofun
        cases waiting with
        | some u =>
          simp only [without, pairs, waits, superseded, hx, pairs_passed hpassed,
            reduceCtorEq, false_implies, implies_true, true_and, List.drop_succ_cons,
            List.length_cons, Nat.add_le_add_iff_right]
          exact @ih left none [] k hdone nofun hxs
        | none =>
          simp only [without, hx]
          rw [pairs_passed hpassed]
          cases left with
          | none =>
            rw [and_iff_right fun _ _ => rfl]
            simp only [pairs, waits, superseded, hx]
            simpa only [Separate, true_and] using @ih none none [] (k + 1) hdone nofun hxs
          | some v =>
            refine iff_of_false ?_ fun h => Option.some_ne_none v (h.1 trivial trivial)
            simp only [pairs, hx]
            intro h
            have hmem : (v, x) ∈ (pairs turn none xs).drop (k + 1) := h ▸ List.mem_cons_self
            exact hno (mem_of_mem_pairs (List.mem_of_mem_drop hmem)).2

end foundation.pairing
