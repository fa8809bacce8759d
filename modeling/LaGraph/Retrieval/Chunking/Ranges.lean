import LaGraph.Foundation.Results
import LaGraph.Foundation.Tiling
import LaGraph.Retrieval.Chunking.Lines

open foundation

namespace lagraph.retrieval

/-- The offsets of the tokens of a text. -/
def Encoding.offsets (encoding : Encoding) (value : List Char) : List Nat :=
  (encoding.decode_with_offsets (encoding.encode value)).2

/-- What a tokenizer says about tokens that decode back to their text: each one starts at a
character of it, the first one at its beginning, and none before the one it follows. -/
structure Encoding.Offsets (encoding : Encoding) : Prop where
  length_eq : ∀ value, (encoding.offsets value).length = (encoding.encode value).length
  sorted : ∀ value, (encoding.offsets value).Pairwise (· ≤ ·)
  head : ∀ value, encoding.encode value ≠ [] → (encoding.offsets value).getD 0 0 = 0
  inside : ∀ value, (encoding.decode_with_offsets (encoding.encode value)).1 = value →
    ∀ offset ∈ encoding.offsets value, offset < value.length

/-- The ends of the matches of a separator come in order and lie in the text. -/
structure Patterns.SeparatorEnds (patterns : Patterns) : Prop where
  sorted : ∀ separator value, (patterns.separator_ends separator value).Pairwise (· ≤ ·)
  le : ∀ separator value, ∀ stop ∈ patterns.separator_ends separator value, stop ≤ value.length

variable {patterns : Patterns} {encoding : Encoding} {value : List Char} {lo hi : Nat}
  {ranges pieces : List (Nat × Nat)} {limit overlap base : Nat}

theorem slice_length {start stop : Nat} :
    (slice value start stop).length = min stop value.length - start := by
  rw [slice, List.length_drop, List.length_take]

/-- The slice of a slice. -/
theorem slice_slice {start stop start' stop' : Nat} (h : start + stop' ≤ stop) :
    slice (slice value start stop) start' stop' = slice value (start + start') (start + stop') := by
  simp only [slice, List.take_drop, List.drop_drop, List.take_take]
  rw [Nat.min_eq_left h]

section Packing

theorem pack_ranges_tiles (h : tiling.Tiles lo hi pieces) :
    (∀ current : Nat × Nat, current.1 ≤ current.2 → current.2 = lo →
      tiling.Tiles current.1 hi (pack_ranges encoding value limit (some current) pieces)) ∧
      tiling.Tiles lo hi (pack_ranges encoding value limit none pieces) := by
  induction h with
  | @nil lo =>
    refine ⟨fun current hcurrent hlo => ?_, .nil⟩
    rw [← hlo]
    exact .single hcurrent
  | @cons lo mid hi pieces hle h ih =>
    refine ⟨fun current hcurrent hlo => ?_, ih.1 (lo, mid) hle rfl⟩
    rw [pack_ranges]
    split_ifs
    · have hrest := ih.1 (lo, mid) hle rfl
      rw [← hlo] at hrest ⊢
      exact .cons hcurrent hrest
    · exact ih.1 (current.1, mid) (hcurrent.trans (hlo ▸ hle)) rfl

theorem split_preserving_tiles (hpatterns : patterns.SeparatorEnds) {range : Nat × Nat}
    (hrange : range.1 ≤ range.2) (separator : Separator) :
    tiling.Tiles range.1 range.2 (split_preserving patterns value range separator) := by
  have hends : ∀ point ∈ (patterns.separator_ends separator
      (slice value range.1 range.2)).map (range.1 + ·), range.1 ≤ point ∧ point ≤ range.2 := by
    intro point hpoint
    obtain ⟨stop, hstop, rfl⟩ := List.mem_map.mp hpoint
    have hle := hpatterns.le separator _ stop hstop
    rw [slice_length] at hle
    omega
  unfold split_preserving
  apply tiling.tiles_zip_tail
  · change ([range.1] ++ ((patterns.separator_ends separator
      (slice value range.1 range.2)).map (range.1 + ·) ++ [range.2])).Pairwise (· ≤ ·)
    rw [List.pairwise_append, List.pairwise_append, List.pairwise_map]
    refine ⟨List.pairwise_singleton _ _, ⟨?_, List.pairwise_singleton _ _, ?_⟩, ?_⟩
    · exact (hpatterns.sorted separator _).imp fun h => Nat.add_le_add_left h _
    · intro point hpoint last hlast
      rw [List.mem_singleton.mp hlast]
      exact (hends point hpoint).2
    · intro first hfirst point hpoint
      rw [List.mem_singleton.mp hfirst]
      rcases List.mem_append.mp hpoint with hpoint | hlast
      · exact (hends point hpoint).1
      · rw [List.mem_singleton.mp hlast]
        exact hrange
  · change ([range.1] ++ (patterns.separator_ends separator
      (slice value range.1 range.2)).map (range.1 + ·) ++ [range.2]).getLast _ = range.2
    exact List.getLast_concat

end Packing

section Windows

/-- The characters of the tokens from one on, as many as the limit allows. -/
def window (value : List Char) (offsets : List Nat) (total limit base start : Nat) : Nat × Nat :=
  (base + offsets.getD start 0, base + offsets.getD (min (start + limit) total) value.length)

variable {offsets : List Nat} {total step rounds start : Nat}

theorem windows_from_cons (hstart : start < total) :
    windows_from value offsets total limit step base (rounds + 1) start =
      window value offsets total limit base start ::
        if total ≤ start + limit then []
        else windows_from value offsets total limit step base rounds (start + step) := by
  rw [windows_from, if_neg (Nat.not_le.mpr hstart), window]
  by_cases hlast : total ≤ start + limit
  · simp only [Nat.min_eq_right hlast, if_true, hlast]
  · rw [if_neg hlast, Nat.min_eq_left (Nat.le_of_not_le hlast), if_neg (by omega)]

/-- Every window starts at a token. -/
theorem exists_of_mem_windows {w : Nat × Nat}
    (hw : w ∈ windows_from value offsets total limit step base rounds start) :
    ∃ token, start ≤ token ∧ token < total ∧ w = window value offsets total limit base token := by
  induction rounds generalizing start with
  | zero => cases hw
  | succ rounds ih =>
    by_cases hstart : start < total
    · rw [windows_from_cons hstart] at hw
      cases List.mem_cons.mp hw with
      | inl hfirst => exact ⟨start, le_refl _, hstart, hfirst⟩
      | inr hrest =>
        split_ifs at hrest
        · cases hrest
        · obtain ⟨token, hle, htoken⟩ := ih hrest
          exact ⟨token, by omega, htoken⟩
    · rw [windows_from, if_pos (Nat.le_of_not_lt hstart)] at hw
      cases hw

/-- Offsets in order, one for each token, in the text. -/
structure OffsetTable (value : List Char) (offsets : List Nat) (total : Nat) : Prop where
  length_eq : offsets.length = total
  sorted : offsets.Pairwise (· ≤ ·)
  inside : ∀ offset ∈ offsets, offset < value.length

theorem OffsetTable.lt (h : OffsetTable value offsets total) {i d : Nat} (hi : i < total) :
    offsets.getD i d < value.length := by
  rw [List.getD_eq_getElem?_getD, List.getElem?_eq_getElem (h.length_eq ▸ hi), Option.getD_some]
  exact h.inside _ (List.getElem_mem _)

/-- Behind the last token the text ends. -/
theorem OffsetTable.getD_total (h : OffsetTable value offsets total) :
    offsets.getD total value.length = value.length := by
  rw [List.getD_eq_getElem?_getD, List.getElem?_eq_none h.length_eq.le, Option.getD_none]

theorem OffsetTable.getD_eq (h : OffsetTable value offsets total) {i : Nat} (hi : i < total)
    (d d' : Nat) : offsets.getD i d = offsets.getD i d' := by
  rw [List.getD_eq_getElem?_getD, List.getD_eq_getElem?_getD,
    List.getElem?_eq_getElem (h.length_eq ▸ hi), Option.getD_some, Option.getD_some]

theorem OffsetTable.mono (h : OffsetTable value offsets total) {i j d : Nat} (hij : i ≤ j)
    (hi : i < total) : offsets.getD i d ≤ offsets.getD j value.length := by
  by_cases hj : j < total
  · have hlt := h.length_eq ▸ hj
    rcases hij.eq_or_lt with rfl | hij
    · rw [List.getD_eq_getElem?_getD, List.getD_eq_getElem?_getD, List.getElem?_eq_getElem hlt,
        Option.getD_some, Option.getD_some]
    · rw [List.getD_eq_getElem?_getD, List.getD_eq_getElem?_getD,
        List.getElem?_eq_getElem (hij.trans hlt), List.getElem?_eq_getElem hlt]
      exact List.pairwise_iff_getElem.mp h.sorted i j (hij.trans hlt) hlt hij
  · have hend : offsets.getD j value.length = value.length := by
      rw [List.getD_eq_getElem?_getD,
        List.getElem?_eq_none (h.length_eq.trans_le (Nat.le_of_not_lt hj)), Option.getD_none]
    rw [hend]
    exact (h.lt hi).le

/-- A window lies in the text. -/
theorem OffsetTable.window_bounds (h : OffsetTable value offsets total) (hstart : start < total) :
    base ≤ (window value offsets total limit base start).1 ∧
      (window value offsets total limit base start).1 < base + value.length ∧
      (window value offsets total limit base start).1 ≤
        (window value offsets total limit base start).2 ∧
      (window value offsets total limit base start).2 ≤ base + value.length := by
  have hlt := @OffsetTable.lt _ _ _ h start 0 hstart
  have hle := @OffsetTable.mono _ _ _ h start (min (start + limit) total) 0 (by omega) hstart
  have hend := @OffsetTable.mono _ _ _ h (min (start + limit) total) total value.length (by omega)
  rw [h.getD_total] at hend
  have hupper : offsets.getD (min (start + limit) total) value.length ≤ value.length := by
    by_cases hlast : min (start + limit) total < total
    · exact hend hlast
    · rw [Nat.le_antisymm (Nat.min_le_right _ _) (Nat.le_of_not_lt hlast), h.getD_total]
  simp only [window]
  omega

/-- Windows that overlap, or follow one another, cover the text behind the first one's start. -/
theorem OffsetTable.windows_cover (h : OffsetTable value offsets total) (hstep : 0 < step)
    (hlimit : step ≤ limit) (hstart : start < total) (hrounds : total ≤ start + rounds) {n : Nat}
    (hlower : base + offsets.getD start 0 ≤ n) (hupper : n < base + value.length) :
    ∃ w ∈ windows_from value offsets total limit step base rounds start, w.1 ≤ n ∧ n < w.2 := by
  induction rounds generalizing start with
  | zero => omega
  | succ rounds ih =>
    rw [windows_from_cons hstart]
    by_cases hin : n < (window value offsets total limit base start).2
    · exact ⟨_, List.mem_cons_self, hlower, hin⟩
    · by_cases hlast : total ≤ start + limit
      · have hend : (window value offsets total limit base start).2 = base + value.length := by
          rw [window, Nat.min_eq_right hlast, h.getD_total]
        omega
      · have hmono := @OffsetTable.mono _ _ _ h (start + step) (start + limit) 0 (by omega) (by omega)
        have hsecond : (window value offsets total limit base start).2 =
            base + offsets.getD (start + limit) value.length := by
          rw [window, Nat.min_eq_left (Nat.le_of_not_le hlast)]
        obtain ⟨w, hw, hn⟩ := @ih (start + step) (by omega) (by omega) (by omega)
        rw [if_neg hlast]
        exact ⟨w, List.mem_cons_of_mem _ hw, hn⟩

/-- Windows without overlap follow one another. -/
theorem OffsetTable.windows_tile (h : OffsetTable value offsets total) (hlimit : 0 < limit)
    (hstart : start < total) (hrounds : total ≤ start + rounds) :
    tiling.Tiles (base + offsets.getD start 0) (base + value.length)
      (windows_from value offsets total limit limit base rounds start) := by
  induction rounds generalizing start with
  | zero => omega
  | succ rounds ih =>
    have hbounds := @OffsetTable.window_bounds _ limit base _ _ start h hstart
    rw [windows_from_cons hstart]
    by_cases hlast : total ≤ start + limit
    · rw [if_pos hlast, window, Nat.min_eq_right hlast, h.getD_total]
      have hlt := @OffsetTable.lt _ _ _ h start 0 hstart
      exact .single (by omega)
    · have hnext : start + limit < total := Nat.lt_of_not_le hlast
      have hsame := h.getD_eq hnext value.length 0
      rw [if_neg hlast]
      rw [window, Nat.min_eq_left hnext.le] at hbounds ⊢
      rw [hsame] at hbounds ⊢
      exact .cons hbounds.2.2.1 (ih hnext (by omega))

end Windows

section Bounded

/-- The windows of a text, if it has tokens, over a table of offsets. -/
theorem token_windows_ok (hoffsets : encoding.Offsets)
    (h : token_windows encoding value limit overlap base = .ok ranges) :
    encoding.encode value = [] ∧ ranges = [] ∨
      0 < (encoding.encode value).length ∧
        OffsetTable value (encoding.offsets value) (encoding.encode value).length ∧
        (encoding.offsets value).getD 0 0 = 0 ∧
        ranges = windows_from value (encoding.offsets value) (encoding.encode value).length limit
          (limit - overlap) base (encoding.encode value).length 0 := by
  rw [token_windows] at h
  by_cases hempty : encoding.encode value = []
  · simp only [hempty, if_true] at h
    cases h
    exact Or.inl ⟨hempty, rfl⟩
  · simp only [hempty, if_false, ite_not] at h
    by_cases hdecoded : (encoding.decode_with_offsets (encoding.encode value)).1 = value
    · rw [if_pos hdecoded] at h
      cases h
      exact Or.inr ⟨List.length_pos_iff.mpr hempty, ⟨hoffsets.length_eq value,
        hoffsets.sorted value, hoffsets.inside value hdecoded⟩, hoffsets.head value hempty, rfl⟩
    · rw [if_neg hdecoded] at h
      cases h

/-- A blank text has no characters but blanks. -/
theorem exists_not_space {start stop : Nat}
    (h : is_blank patterns (slice value start stop) = false) :
    start < stop ∧ start < value.length := by
  have hne : slice value start stop ≠ [] := by
    intro hnil
    rw [hnil] at h
    cases h
  have hpos := List.length_pos_iff.mpr hne
  rw [slice_length] at hpos
  omega

/-- The pieces of a text that the separators leave. -/
def separated (patterns : Patterns) (encoding : Encoding) (value : List Char) (limit : Nat) :
    List (Nat × Nat) :=
  [Separator.paragraphs, .sentences, .lines, .words].foldl
    (fun ranges separator => ranges.flatMap fun range =>
      if tokens_in encoding value range ≤ limit then [range]
      else pack_ranges encoding value limit none (split_preserving patterns value range separator))
    [(0, value.length)]

theorem separated_tiles (hpatterns : patterns.SeparatorEnds) :
    tiling.Tiles 0 value.length (separated patterns encoding value limit) := by
  have hrounds (separators : List Separator) (ranges : List (Nat × Nat))
      (h : tiling.Tiles 0 value.length ranges) :
      tiling.Tiles 0 value.length (separators.foldl
        (fun ranges separator => ranges.flatMap fun range =>
          if tokens_in encoding value range ≤ limit then [range]
          else pack_ranges encoding value limit none
            (split_preserving patterns value range separator)) ranges) := by
    induction separators generalizing ranges with
    | nil => exact h
    | cons separator separators ih =>
      apply ih
      apply h.flatMap
      intro range _ hrange
      split_ifs
      · exact .single hrange
      · exact (pack_ranges_tiles (split_preserving_tiles hpatterns hrange separator)).2
  exact hrounds _ _ (.single (Nat.zero_le _))

/-- A piece that is too long is cut into windows. -/
def cut (encoding : Encoding) (value : List Char) (limit : Nat) (range : Nat × Nat) :
    Except String (List (Nat × Nat)) :=
  if tokens_in encoding value range ≤ limit then .ok [range]
  else token_windows encoding (slice value range.1 range.2) limit 0 range.1

theorem bounded_ranges_eq : bounded_ranges patterns encoding value limit =
    ((separated patterns encoding value limit).mapM (cut encoding value limit)) >>= fun output =>
      .ok (output.flatten.filter fun range => !is_blank patterns (slice value range.1 range.2)) :=
  rfl

theorem cut_tiles (hoffsets : encoding.Offsets) (hlimit : 0 < limit) {range : Nat × Nat}
    (hrange : range.1 ≤ range.2) (hstop : range.2 ≤ value.length)
    (h : cut encoding value limit range = .ok ranges) : tiling.Tiles range.1 range.2 ranges := by
  rw [cut] at h
  split_ifs at h with hfits
  · cases h
    exact .single hrange
  · rcases token_windows_ok hoffsets h with ⟨hempty, -⟩ | ⟨hpos, htable, hhead, rfl⟩
    · rw [tokens_in, hempty] at hfits
      exact absurd (Nat.zero_le _) hfits
    · have hrounds := (Nat.zero_add (encoding.encode (slice value range.1 range.2)).length).ge
      have htiles : tiling.Tiles
          (range.1 + (encoding.offsets (slice value range.1 range.2)).getD 0 0)
          (range.1 + (slice value range.1 range.2).length) _ :=
        htable.windows_tile hlimit hpos hrounds
      have hstop' : range.1 + (slice value range.1 range.2).length = range.2 := by
        rw [slice_length]
        omega
      rw [hhead, Nat.add_zero, hstop'] at htiles
      rwa [Nat.sub_zero]

/-- Parents follow one another, hold something, and cover what is not blank. -/
structure ParentRanges (patterns : Patterns) (value : List Char) (ranges : List (Nat × Nat)) :
    Prop where
  nonempty : ∀ range ∈ ranges, range.1 < range.2
  stop_le : ∀ range ∈ ranges, range.2 ≤ value.length
  ordered : ranges.Pairwise fun a b => a.2 ≤ b.1
  covered : ∀ n, ∀ c ∈ value[n]?, patterns.is_space c = false →
    ∃ range ∈ ranges, range.1 ≤ n ∧ n < range.2

theorem bounded_ranges_ok (hpatterns : patterns.SeparatorEnds) (hoffsets : encoding.Offsets)
    (hlimit : 0 < limit) (h : bounded_ranges patterns encoding value limit = .ok ranges) :
    ParentRanges patterns value ranges := by
  rw [bounded_ranges_eq] at h
  obtain ⟨output, houtput, h⟩ := results.bind_ok.mp h
  cases h
  have hseparated := @separated_tiles patterns encoding value limit hpatterns
  have htiles : tiling.Tiles 0 value.length output.flatten := by
    apply hseparated.flatten
    apply (results.forall₂_of_mapM houtput).imp
    exact fun range pieces hcut hrange hstop => cut_tiles hoffsets hlimit hrange hstop hcut
  have hkept : ∀ range ∈ output.flatten.filter (fun range =>
      !is_blank patterns (slice value range.1 range.2)), range ∈ output.flatten ∧
        is_blank patterns (slice value range.1 range.2) = false := by
    intro range hrange
    rw [List.mem_filter, Bool.not_eq_true'] at hrange
    exact hrange
  constructor
  case nonempty => exact fun range hrange => (exists_not_space (hkept range hrange).2).1
  case stop_le => exact fun range hrange => (htiles.bounds (hkept range hrange).1).2.2
  case ordered => exact htiles.ordered.sublist List.filter_sublist
  case covered =>
    intro n c hc hspace
    obtain ⟨hn, -⟩ := List.getElem?_eq_some_iff.mp hc
    obtain ⟨range, hrange, hstart, hstop⟩ := htiles.covers (Nat.zero_le n) hn
    refine ⟨range, List.mem_filter.mpr ⟨hrange, ?_⟩, hstart, hstop⟩
    rw [Bool.not_eq_true', Bool.eq_false_iff]
    intro hblank
    have hall := List.all_eq_true.mp hblank c (mem_slice hstart hstop hc)
    rw [hspace] at hall
    cases hall

end Bounded

end lagraph.retrieval
