import LaGraph.Foundation.SortedSets

namespace foundation

variable {σ ε κ ι Λ : Type}

/-- One page of a listing and the cursor of the next one. -/
structure Page (κ ι : Type) where
  items : List ι
  next : Option κ

/-- The page of `items` from `offset` on; `code` writes an offset as a cursor. -/
def slice (code : Nat → κ) (items : List ι) (offset size : Nat) : Page κ ι where
  items := (items.drop offset).take size
  next := if offset + size < items.length then some (code (offset + size)) else none

/-- Follows the cursors from the given one. Page `k` is asked for with the choice `choices k`,
after whatever `others k` has done to the state; a refused page ends it. -/
def follow (fetch : Λ → Option κ → ExceptT ε (StateM σ) (Page κ ι)) (choices : Nat → Λ)
    (others : Nat → σ → σ) : (fuel k : Nat) → Option κ → σ → Option (List ι)
  | 0, _, _, _ => none
  | fuel + 1, k, cursor, s =>
    match (fetch (choices k) cursor).run.run (others k s) with
    | (.error _, _) => none
    | (.ok page, s') =>
      match page.next with
      | none => some page.items
      | some cursor => (follow fetch choices others fuel (k + 1) (some cursor) s').map
          (page.items ++ ·)

variable {fetch : Λ → Option κ → ExceptT ε (StateM σ) (Page κ ι)} {choices : Nat → Λ}
  {others : Nat → σ → σ} {code : Nat → κ} {items : List ι} {I : σ → Prop} {s s' : σ}
  {fuel k offset size : Nat} {cursor : Option κ}

/-- From the states of `I` the cursors inside `items` are answered by its pages, each of at
least one item. -/
def Pages (fetch : Λ → Option κ → ExceptT ε (StateM σ) (Page κ ι)) (code : Nat → κ)
    (items : List ι) (I : σ → Prop) : Prop :=
  ∀ choice offset s, I s → 0 < offset → offset < items.length →
    ∃ size s', 0 < size ∧ I s' ∧
      (fetch choice (some (code offset))).run.run s = (.ok (slice code items offset size), s')

theorem drop_append_take : (items.drop offset).take size ++ items.drop (offset + size) =
    items.drop offset := by
  rw [← List.drop_drop, List.take_append_drop]

/-- A page and, if there are more, what follows it. -/
theorem follow_slice
    (hfetch : (fetch (choices k) cursor).run.run (others k s) =
      (.ok (slice code items offset size), s'))
    (hrest : offset + size < items.length →
      follow fetch choices others fuel (k + 1) (some (code (offset + size))) s' =
        some (items.drop (offset + size))) :
    follow fetch choices others (fuel + 1) k cursor s = some (items.drop offset) := by
  rw [follow, hfetch]
  by_cases hmore : offset + size < items.length
  · simp only [slice, if_pos hmore, hrest hmore, Option.map_some, drop_append_take]
  · have hall : (items.drop offset).length ≤ size := by
      rw [List.length_drop]
      omega
    simp only [slice, if_neg hmore, List.take_of_length_le hall]

/-- From a cursor on, the rest is visited in order. -/
theorem Pages.follow_from (h : Pages fetch code items I) (hothers : ∀ k s, I s → I (others k s))
    (hstate : I s) (hpos : 0 < offset) (hlt : offset < items.length)
    (hfuel : items.length ≤ offset + fuel) :
    follow fetch choices others fuel k (some (code offset)) s = some (items.drop offset) := by
  induction fuel generalizing k s offset with
  | zero => omega
  | succ fuel ih =>
    obtain ⟨size, s', hsize, hstate', hfetch⟩ :=
      h (choices k) offset (others k s) (hothers k s hstate) hpos hlt
    refine follow_slice hfetch fun hmore => ?_
    exact ih hstate' (by omega) hmore (by omega)

/-- After a first page, the cursors visit every item once and in order, on at most
one page for each item. -/
theorem Pages.follow_all (h : Pages fetch code items I) (hothers : ∀ k s, I s → I (others k s))
    (hsize : 0 < size) (hstate : I s')
    (hfirst : (fetch (choices k) cursor).run.run (others k s) =
      (.ok (slice code items 0 size), s')) :
    follow fetch choices others (items.length + 1) k cursor s = some items := by
  refine follow_slice hfirst fun hmore => ?_
  exact h.follow_from hothers hstate (by omega) hmore (by omega)

section Keysets

variable {α ν : Type} [LinearOrder ν] (key : α → ν)

/-- The order of a listing by descending keys. -/
def Descending (a b : α) : Prop :=
  key b ≤ key a

instance : DecidableRel (Descending key) := fun a b => inferInstanceAs (Decidable (key b ≤ key a))

instance : IsTrans α (Descending key) where
  trans _ _ _ hab hbc := le_trans hbc hab

instance : Std.Total (Descending key) where
  total a b := le_total (key b) (key a)

variable {key} {l : List α} {a b : α} {n : Nat}

/-- Distinct keys descend strictly. -/
theorem insertionSort_descends (hkeys : (l.map key).Nodup) :
    (l.insertionSort (Descending key)).Pairwise fun a b => key b < key a := by
  have hperm := List.perm_insertionSort (Descending key) l
  have hnodup : ((l.insertionSort (Descending key)).map key).Nodup :=
    (hperm.map key).nodup_iff.mpr hkeys
  have hsorted := List.pairwise_insertionSort (Descending key) l
  refine (hsorted.and (List.pairwise_map.mp hnodup)).imp fun hab => ?_
  exact lt_of_le_of_ne hab.1 hab.2.symm

/-- What lies below the key of the last item of a page is what follows the page. -/
theorem filter_below (hsorted : l.Pairwise fun a b => key b < key a) (ha : l[n]? = some a) :
    l.filter (fun b => key b < key a) = l.drop (n + 1) := by
  induction l generalizing n with
  | nil => cases ha
  | cons b l ih =>
    obtain ⟨hfirst, hrest⟩ := List.pairwise_cons.mp hsorted
    cases n with
    | zero =>
      obtain rfl := Option.some.inj ha
      rw [List.filter_cons, if_neg (by simp), List.drop_succ_cons, List.drop_zero]
      exact List.filter_eq_self.mpr fun c hc => decide_eq_true (hfirst c hc)
    | succ n =>
      rw [List.getElem?_cons_succ] at ha
      have hlt : key a < key b := hfirst a (List.mem_of_getElem? ha)
      rw [List.filter_cons, if_neg (by simpa using hlt.le), ih hrest ha, List.drop_succ_cons]

/-- The selection below a boundary, sorted, is the part of the whole listing behind it. -/
theorem sort_below (hkeys : (l.map key).Nodup)
    (ha : (l.insertionSort (Descending key))[n]? = some a) :
    (l.filter fun b => key b < key a).insertionSort (Descending key) =
      (l.insertionSort (Descending key)).drop (n + 1) := by
  rw [← sorted.filter_insertionSort]
  exact filter_below (insertionSort_descends hkeys) ha

end Keysets

end foundation
