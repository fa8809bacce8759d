import LaGraph.Foundation.Text
import LaGraph.Retrieval.Chunking.Headings

open foundation

namespace lagraph.retrieval

/-- What a chunk is named by besides its document: where it is, and what kind it is. -/
abbrev Place := Nat × Nat × String

/-- The text whose digest names a place. -/
def place_text (document checksum : String) (place : Place) : String :=
  document ++ "\x00" ++ checksum ++ "\x00" ++ toString place.1 ++ "\x00" ++ toString place.2.1 ++
    "\x00" ++ place.2.2

/-- Two places of a text of `n` characters are told apart by the digests of their names. -/
def Encoding.Injective (encoding : Encoding) (document checksum : String) (n : Nat) : Prop :=
  ∀ place place' : Place, place.1 ≤ n → place.2.1 ≤ n → place'.1 ≤ n → place'.2.1 ≤ n →
    place.2.2 ∈ ["parent", "leaf-0", "leaf-1"] → place'.2.2 ∈ ["parent", "leaf-0", "leaf-1"] →
    (encoding.sha256 (place_text document checksum place)).toList.take 24 =
      (encoding.sha256 (place_text document checksum place')).toList.take 24 →
    place_text document checksum place = place_text document checksum place'

/-- The kind that the identifier of a chunk is made with. -/
def Chunk.kind (c : Chunk) : String :=
  if c.parent_id.isSome then "leaf-1" else if c.standalone then "leaf-0" else "parent"

def Chunk.place (c : Chunk) : Place :=
  (c.start_char, c.end_char, c.kind)

/-- A chunk that is named by its place in the text. -/
structure Chunk.Named (encoding : Encoding) (document checksum : String) (n : Nat) (c : Chunk) :
    Prop where
  id_eq : c.id = "source:" ++
    identity encoding document checksum c.start_char c.end_char c.kind
  start_le : c.start_char ≤ n
  stop_le : c.end_char ≤ n

section Places

theorem repr_injective {m n : Nat} (h : toString m = toString n) : m = n := by
  have hdigits : Nat.toDigits 10 m = Nat.toDigits 10 n := by
    have hlists := congrArg String.toList h
    rwa [Nat.toString_eq_ofList_toDigits, Nat.toString_eq_ofList_toDigits, String.toList_ofList,
      String.toList_ofList] at hlists
  have hvalue := congrArg (Nat.ofDigitChars 10 · 0) hdigits
  simp only [Nat.ofDigitChars_toDigits (by decide : 1 < 10) (by decide : 10 ≤ 10)] at hvalue
  exact hvalue

theorem separator_not_mem_repr (n : Nat) : '\x00' ∉ (toString n).toList := by
  rw [Nat.toString_eq_ofList_toDigits, String.toList_ofList]
  intro h
  have hdigit := Nat.isDigit_of_mem_toDigits (by decide) (by decide) h
  exact absurd hdigit (by decide)

/-- Different places have different names. -/
theorem place_text_injective {document checksum : String} {place place' : Place}
    (h : place_text document checksum place = place_text document checksum place') :
    place = place' := by
  obtain ⟨start, stop, kind⟩ := place
  obtain ⟨start', stop', kind'⟩ := place'
  have hseparator : "\x00".toList = ['\x00'] := rfl
  simp only [place_text, String.append_assoc, String.append_right_inj] at h
  have hlists := congrArg String.toList h
  simp only [String.toList_append, hseparator, List.singleton_append] at hlists
  obtain ⟨hstart, hrest⟩ := text.cut_unique (separator_not_mem_repr _)
    (separator_not_mem_repr _) hlists
  obtain ⟨hstop, hkind⟩ := text.cut_unique (separator_not_mem_repr _)
    (separator_not_mem_repr _) hrest
  rw [repr_injective (String.toList_inj.mp hstart), repr_injective (String.toList_inj.mp hstop),
    String.toList_inj.mp hkind]

variable {encoding : Encoding} {document checksum : String} {n : Nat} {chunks : List Chunk}

theorem Chunk.kind_mem (c : Chunk) : c.kind ∈ ["parent", "leaf-0", "leaf-1"] := by
  rw [Chunk.kind]
  split_ifs <;> simp

/-- Identifiers are distinct when places are. -/
theorem ids_nodup_iff_places (hdigest : encoding.Injective document checksum n)
    (hnamed : ∀ c ∈ chunks, c.Named encoding document checksum n) :
    (chunks.map (·.id)).Nodup ↔ (chunks.map Chunk.place).Nodup := by
  have hids : chunks.map (·.id) = (chunks.map Chunk.place).map fun place =>
      "source:" ++ identity encoding document checksum place.1 place.2.1 place.2.2 := by
    rw [List.map_map]
    exact List.map_congr_left fun c hc => (hnamed c hc).id_eq
  rw [hids]
  constructor
  · exact fun h => h.of_map
  · intro h
    apply h.map_on
    intro place hplace place' hplace' hsame
    obtain ⟨c, hc, rfl⟩ := List.mem_map.mp hplace
    obtain ⟨c', hc', rfl⟩ := List.mem_map.mp hplace'
    have hdigests := String.ofList_injective ((String.append_right_inj _).mp hsame)
    have hplaced := hnamed c hc
    have hplaced' := hnamed c' hc'
    exact place_text_injective (hdigest c.place c'.place hplaced.start_le hplaced.stop_le
      hplaced'.start_le hplaced'.stop_le c.kind_mem c'.kind_mem hdigests)

end Places

section Windows

variable {value : List Char} {offsets : List Nat} {total limit step base rounds start : Nat}

/-- Two windows a step apart have the same characters: the tokens that they start with belong
to one character, and so do the tokens behind them. -/
def Repeats (offsets : List Nat) (total limit step start : Nat) : Prop :=
  start + step + limit < total ∧ offsets.getD start 0 = offsets.getD (start + step) 0 ∧
    offsets.getD (start + limit) 0 = offsets.getD (start + step + limit) 0

/-- Later windows neither start nor end before earlier ones. -/
theorem OffsetTable.window_mono (h : OffsetTable value offsets total) {later : Nat}
    (hle : start ≤ later) (hlater : later < total) :
    (window value offsets total limit base start).1 ≤
        (window value offsets total limit base later).1 ∧
      (window value offsets total limit base start).2 ≤
        (window value offsets total limit base later).2 := by
  have hstart := @OffsetTable.mono _ _ _ h start later 0 hle (by omega)
  rw [h.getD_eq hlater value.length 0] at hstart
  refine ⟨Nat.add_le_add_left hstart base, ?_⟩
  by_cases hlast : total ≤ start + limit
  · have hlast' : total ≤ later + limit := by omega
    simp only [window, Nat.min_eq_right hlast, Nat.min_eq_right hlast', le_refl]
  · have hmono := @OffsetTable.mono _ _ _ h (min (start + limit) total) (min (later + limit) total)
      value.length (by omega) (by omega)
    exact Nat.add_le_add_left hmono base

/-- Neighbouring windows that go on behind have the same characters when they repeat. -/
theorem OffsetTable.window_eq_iff (h : OffsetTable value offsets total)
    (hlast : start + limit < total) :
    window value offsets total limit base start =
        window value offsets total limit base (start + step) ↔
      Repeats offsets total limit step start := by
  have hend : (window value offsets total limit base start).2 =
      base + offsets.getD (start + limit) 0 := by
    rw [window, Nat.min_eq_left hlast.le, h.getD_eq hlast value.length 0]
  rw [Prod.ext_iff, hend, Repeats]
  by_cases hnext : start + step + limit < total
  · simp only [window, Nat.min_eq_left hnext.le, h.getD_eq hnext value.length 0, hnext, true_and,
      Nat.add_left_cancel_iff]
  · have hend' : (window value offsets total limit base (start + step)).2 =
        base + value.length := by
      rw [window, Nat.min_eq_right (Nat.le_of_not_lt hnext), h.getD_total]
    have hinside := @OffsetTable.lt _ _ _ h (start + limit) 0 hlast
    simp only [hend', hnext, false_and, iff_false, not_and]
    omega

/-- The windows of a text are distinct exactly when none repeats. -/
theorem OffsetTable.windows_nodup_iff (h : OffsetTable value offsets total) (hpos : 0 < step)
    (hstep : step ≤ limit) (hrounds : total ≤ start + rounds) :
    (windows_from value offsets total limit step base rounds start).Nodup ↔
      ∀ i, ¬Repeats offsets total limit step (start + i * step) := by
  induction rounds generalizing start with
  | zero =>
    have hnone : ∀ i, ¬Repeats offsets total limit step (start + i * step) := by
      intro i hrepeats
      have hlast := hrepeats.1
      omega
    simp only [windows_from, List.nodup_nil, hnone, not_false_eq_true, implies_true]
  | succ rounds ih =>
    by_cases hlast : start + limit < total
    · have hmore : ¬total ≤ start + limit := by omega
      have hshift (i : Nat) : start + step + i * step = start + (i + 1) * step := by
        rw [Nat.add_mul, Nat.one_mul]
        omega
      have hfirst : window value offsets total limit base start ∈
          windows_from value offsets total limit step base rounds (start + step) ↔
          Repeats offsets total limit step start := by
        rw [← h.window_eq_iff hlast]
        constructor
        · intro hmem
          obtain ⟨token, hle, htoken, hsame⟩ := exists_of_mem_windows hmem
          have hbefore := @OffsetTable.window_mono _ _ _ limit base start h (start + step)
            (by omega) (by omega)
          have hbehind := @OffsetTable.window_mono _ _ _ limit base (start + step) h token hle htoken
          rw [← hsame] at hbehind
          exact Prod.ext (Nat.le_antisymm hbefore.1 hbehind.1) (Nat.le_antisymm hbefore.2 hbehind.2)
        · intro hsame
          obtain ⟨rounds', rfl⟩ : ∃ rounds', rounds = rounds' + 1 := ⟨rounds - 1, by omega⟩
          rw [windows_from_cons (by omega), hsame]
          exact List.mem_cons_self
      rw [windows_from_cons (by omega), if_neg hmore, List.nodup_cons, hfirst,
        ih (by omega)]
      constructor
      · rintro ⟨hhere, hrest⟩ i
        cases i with
        | zero => simpa using hhere
        | succ i => rw [← hshift]; exact hrest i
      · intro hall
        refine ⟨by simpa using hall 0, fun i => ?_⟩
        rw [hshift]
        exact hall (i + 1)
    · have hnone : ∀ i, ¬Repeats offsets total limit step (start + i * step) := by
        intro i hrepeats
        have hbehind := hrepeats.1
        omega
      have hnodup : (windows_from value offsets total limit step base (rounds + 1) start).Nodup := by
        by_cases hstart : start < total
        · rw [windows_from_cons hstart, if_pos (Nat.le_of_not_lt hlast)]
          exact List.nodup_singleton _
        · rw [windows_from, if_pos (Nat.le_of_not_lt hstart)]
          exact List.nodup_nil
      simp only [hnodup, hnone, not_false_eq_true, implies_true]

end Windows

section Documents

variable {patterns : Patterns} {encoding : Encoding} {value : List Char}
  {document checksum content : String} {profile : DocumentProfile} {block : StructuralBlock}
  {range : Nat × Nat} {chunks : List Chunk}

/-- Chunks of ranges in order are in distinct places when those of each range are. -/
theorem nodup_places_flatten {ι : Type} {lo hi : ι → Nat} {items : List ι}
    {lists : List (List Chunk)} (hordered : items.Pairwise fun a b => hi a ≤ lo b)
    (hlists : List.Forall₂ (fun item found => ∀ c ∈ found, lo item ≤ c.start_char ∧
      c.start_char < hi item) items lists) :
    (lists.flatten.map Chunk.place).Nodup ↔ ∀ found ∈ lists, (found.map Chunk.place).Nodup := by
  induction hlists with
  | nil => simp
  | @cons item found items lists hfound hlists ih =>
    obtain ⟨hless, hordered⟩ := List.pairwise_cons.mp hordered
    rw [List.flatten_cons, List.map_append, List.nodup_append, ih hordered, List.forall_mem_cons]
    refine and_congr_right fun _ => and_iff_left ?_
    intro place hplace place' hplace' hsame
    obtain ⟨c, hc, rfl⟩ := List.mem_map.mp hplace
    obtain ⟨c', hc', rfl⟩ := List.mem_map.mp hplace'
    obtain ⟨later, hlater, hc'⟩ := List.mem_flatten.mp hc'
    obtain ⟨other, hother, hbounds⟩ := results.forall₂_exists_left hlists hlater
    have hstart : c.start_char = c'.start_char := congrArg Prod.fst hsame
    have hupper := (hfound c hc).2
    have hlower := (hbounds c' hc').1
    have hbetween := hless other hother
    omega

/-- The chunks of a family are in distinct places when its windows are distinct. -/
theorem family_places_nodup_iff
    (h : family patterns encoding value document checksum profile block range = .ok chunks) :
    ∃ windows, leaf_windows encoding value profile block range = .ok windows ∧
      ((chunks.map Chunk.place).Nodup ↔ windows.Nodup) := by
  obtain ⟨windows, hwindows, rfl⟩ := family_ok h
  refine ⟨windows, hwindows, ?_⟩
  have hleaves : (windows.map (leaf_chunk patterns encoding value document checksum block
      range)).map Chunk.place = windows.map fun w =>
        (block.start + range.1 + w.1, block.start + range.1 + w.2, "leaf-1") := by
    rw [List.map_map]
    rfl
  have hinjective : Function.Injective fun w : Nat × Nat =>
      (block.start + range.1 + w.1, block.start + range.1 + w.2, "leaf-1") := by
    intro w w' hsame
    simp only [Prod.mk.injEq, Nat.add_left_cancel_iff, and_true] at hsame
    exact Prod.ext hsame.1 hsame.2
  rw [List.map_cons, List.nodup_cons, hleaves, List.nodup_map_iff hinjective]
  apply and_iff_right
  intro hparent
  obtain ⟨w, -, hsame⟩ := List.mem_map.mp hparent
  have hkind : "leaf-1" = "parent" := congrArg (fun place : Place => place.2.2) hsame
  exact absurd hkind (by decide)

/-- The text of a parent: of a range of a block that is longer than a leaf. -/
def ParentOf (patterns : Patterns) (encoding : Encoding) (value : List Char)
    (profile : DocumentProfile) (block : StructuralBlock) (parent : List Char) : Prop :=
  is_blank patterns (slice value block.start block.stop) = false ∧
    profile.leaf_tokens < tokens_in encoding value (block.start, block.stop) ∧
    ∃ ranges, bounded_ranges patterns encoding (slice value block.start block.stop)
        profile.parent_tokens = .ok ranges ∧
      ∃ range ∈ ranges, parent = slice value (block.start + range.1) (block.start + range.2)

/-- Some two windows of a parent, a step apart, start at tokens of one character, and have
behind them tokens of one character. -/
def RepeatsIn (encoding : Encoding) (profile : DocumentProfile) (parent : List Char) : Prop :=
  ∃ i, Repeats (encoding.offsets parent) (encoding.encode parent).length profile.leaf_tokens
    (profile.leaf_tokens - profile.overlap_tokens)
    (i * (profile.leaf_tokens - profile.overlap_tokens))

theorem leaf_windows_nodup_iff (hoffsets : encoding.Offsets) {windows : List (Nat × Nat)}
    (h : leaf_windows encoding value profile block range = .ok windows) :
    windows.Nodup ↔ ¬RepeatsIn encoding profile
      (slice value (block.start + range.1) (block.start + range.2)) := by
  have hoverlap := profile.overlap_lt_leaf
  rcases token_windows_ok hoffsets h with ⟨hempty, rfl⟩ | ⟨hpos, htable, -, rfl⟩
  · refine ⟨?_, fun _ => List.nodup_nil⟩
    rintro - ⟨i, hrepeats⟩
    have hlast := hrepeats.1
    rw [hempty, List.length_nil] at hlast
    omega
  · rw [htable.windows_nodup_iff (by omega) (Nat.sub_le _ _) (by omega), RepeatsIn, not_exists]
    simp only [Nat.zero_add]

/-- The chunks of a block are in distinct places when no parent of it repeats. -/
theorem block_places_nodup_iff (hpatterns : patterns.SeparatorEnds) (hoffsets : encoding.Offsets)
    (hstop : block.stop ≤ value.length)
    (h : block_chunks patterns encoding value document checksum profile block = .ok chunks) :
    (chunks.map Chunk.place).Nodup ↔
      ∀ parent, ParentOf patterns encoding value profile block parent →
        ¬RepeatsIn encoding profile parent := by
  rcases block_chunks_ok h with ⟨rfl, hblank⟩ | ⟨hshort, rfl⟩ |
    ⟨hblank, hlong, ranges, families, hranges, hfamilies, rfl⟩
  · refine iff_of_true List.nodup_nil ?_
    rintro parent ⟨hfull, -⟩
    rw [hblank] at hfull
    cases hfull
  · refine iff_of_true (List.nodup_singleton _) ?_
    rintro parent ⟨-, hlong, -⟩
    omega
  · have hparents := bounded_ranges_ok hpatterns hoffsets (profile_parent_pos profile) hranges
    have hordered : ranges.Pairwise fun a b => block.start + a.2 ≤ block.start + b.1 :=
      hparents.ordered.imp fun h => Nat.add_le_add_left h _
    have hbounds : List.Forall₂ (fun (range : Nat × Nat) found => ∀ c ∈ found,
        block.start + range.1 ≤ c.start_char ∧ c.start_char < block.start + range.2) ranges
        families := by
      have hboth := (List.forall₂_and_left _ _).mpr ⟨fun range (hrange : range ∈ ranges) => hrange,
        hfamilies⟩
      apply hboth.imp
      rintro range found ⟨hrange, hfamily⟩ c hc
      obtain ⟨hlt, -, hend⟩ := parent_ranges_in_block hstop hparents hrange
      obtain ⟨hlower, hupper, -⟩ := family_bounds hoffsets hlt hend hfamily hc
      exact ⟨hlower, hupper⟩
    rw [nodup_places_flatten hordered hbounds]
    constructor
    · rintro hall parent ⟨-, -, ranges', hranges', range, hrange, rfl⟩
      cases hranges.symm.trans hranges'
      obtain ⟨found, hfound, hfamily⟩ := results.forall₂_exists_right hfamilies hrange
      obtain ⟨windows, hwindows, hiff⟩ := family_places_nodup_iff hfamily
      exact (leaf_windows_nodup_iff hoffsets hwindows).mp (hiff.mp (hall found hfound))
    · intro hall found hfound
      obtain ⟨range, hrange, hfamily⟩ := results.forall₂_exists_left hfamilies hfound
      obtain ⟨windows, hwindows, hiff⟩ := family_places_nodup_iff hfamily
      exact hiff.mpr ((leaf_windows_nodup_iff hoffsets hwindows).mpr
        (hall _ ⟨hblank, hlong, ranges, hranges, range, hrange, rfl⟩))

/-- Every chunk is named by its place. -/
theorem block_chunks_named (hpatterns : patterns.SeparatorEnds) (hoffsets : encoding.Offsets)
    (hnonempty : block.start < block.stop) (hstop : block.stop ≤ value.length)
    (h : block_chunks patterns encoding value document checksum profile block = .ok chunks)
    {c : Chunk} (hc : c ∈ chunks) : c.Named encoding document checksum value.length := by
  rcases block_chunks_ok h with ⟨rfl, -⟩ | ⟨-, rfl⟩ | ⟨-, -, ranges, families, hranges, hfamilies, rfl⟩
  · cases hc
  · rw [List.mem_singleton.mp hc]
    exact ⟨rfl, hnonempty.le.trans hstop, hstop⟩
  · have hparents := bounded_ranges_ok hpatterns hoffsets (profile_parent_pos profile) hranges
    obtain ⟨found, hfound, hc⟩ := List.mem_flatten.mp hc
    obtain ⟨range, hrange, hfamily⟩ := results.forall₂_exists_left hfamilies hfound
    obtain ⟨hlt, hin, hend⟩ := parent_ranges_in_block hstop hparents hrange
    obtain ⟨windows, hwindows, rfl⟩ := family_ok hfamily
    cases List.mem_cons.mp hc with
    | inl hparent =>
      rw [hparent]
      refine ⟨rfl, ?_, hend⟩
      simp only [parent_chunk, chunk]
      omega
    | inr hleaf =>
      obtain ⟨w, hw, rfl⟩ := List.mem_map.mp hleaf
      have hbounds := leaf_windows_bounds hoffsets hwindows hend hw
      refine ⟨rfl, ?_, ?_⟩
      · simp only [leaf_chunk, chunk]
        omega
      · simp only [leaf_chunk, chunk]
        omega

/-- The chunks of a document have distinct identifiers exactly when no parent text repeats. -/
theorem chunk_ids_nodup_iff (hpatterns : patterns.SeparatorEnds) (hoffsets : encoding.Offsets)
    (hdigest : encoding.Injective document checksum content.toList.length)
    (h : build_chunks patterns encoding content document checksum profile = .ok chunks) :
    (chunks.map (·.id)).Nodup ↔
      ∀ block ∈ structural_blocks patterns content.toList profile, ∀ parent,
        ParentOf patterns encoding content.toList profile block parent →
          ¬RepeatsIn encoding profile parent := by
  obtain ⟨lists, hlists, rfl⟩ := build_chunks_ok h
  obtain ⟨hgood, hordered, -⟩ := @structural_blocks_good patterns content.toList profile
  have hnamed : ∀ c ∈ lists.flatten, c.Named encoding document checksum content.toList.length := by
    intro c hc
    obtain ⟨found, hfound, hc⟩ := List.mem_flatten.mp hc
    obtain ⟨block, hblock, hchunks⟩ := results.forall₂_exists_left hlists hfound
    exact block_chunks_named hpatterns hoffsets (hgood block hblock).nonempty
      (hgood block hblock).stop_le hchunks hc
  have hbounds : List.Forall₂ (fun (block : StructuralBlock) found => ∀ c ∈ found,
      block.start ≤ c.start_char ∧ c.start_char < block.stop)
      (structural_blocks patterns content.toList profile) lists := by
    have hboth := (List.forall₂_and_left _ _).mpr ⟨hgood, hlists⟩
    apply hboth.imp
    rintro block found ⟨hblock, hchunks⟩ c hc
    have hin := block_chunks_in_block hpatterns hoffsets hblock.nonempty hblock.stop_le hchunks hc
    exact ⟨hin.start_le, hin.start_lt⟩
  rw [ids_nodup_iff_places hdigest hnamed, nodup_places_flatten hordered hbounds]
  constructor
  · intro hall block hblock
    obtain ⟨found, hfound, hchunks⟩ := results.forall₂_exists_right hlists hblock
    exact (block_places_nodup_iff hpatterns hoffsets (hgood block hblock).stop_le hchunks).mp
      (hall found hfound)
  · intro hall found hfound
    obtain ⟨block, hblock, hchunks⟩ := results.forall₂_exists_left hlists hfound
    exact (block_places_nodup_iff hpatterns hoffsets (hgood block hblock).stop_le hchunks).mpr
      (hall block hblock)

end Documents

section Pairs

/-- The first tokens of all pairs. -/
def firsts : List Nat → List Nat
  | first :: _ :: rest => first :: firsts rest
  | rest => rest

/-- Two tokens for every character, as a byte-level tokenizer has them for one of two bytes; a
text is its own digest. -/
def pair_encoding : Encoding where
  encode := (·.flatMap fun c => [c.toNat, c.toNat])
  decode_with_offsets := fun tokens =>
    ((firsts tokens).map Char.ofNat, (List.range tokens.length).map (· / 2))
  sha256 := id

theorem length_pairs (value : List Char) : (pair_encoding.encode value).length = 2 * value.length := by
  simp [pair_encoding, List.length_flatMap, Nat.mul_comm]

theorem pair_offsets : pair_encoding.Offsets where
  length_eq := by simp [Encoding.offsets, pair_encoding]
  sorted := by
    intro value
    simp only [Encoding.offsets, pair_encoding]
    rw [List.pairwise_map]
    exact List.pairwise_lt_range.imp fun h => Nat.div_le_div_right h.le
  head := by
    intro value hvalue
    have hpos := List.length_pos_iff.mpr hvalue
    have hrange : 0 < (List.range (pair_encoding.encode value).length).length := by
      rwa [List.length_range]
    change ((List.range (pair_encoding.encode value).length).map (· / 2)).getD 0 0 = 0
    rw [List.getD_eq_getElem?_getD, List.getElem?_map, List.getElem?_range hpos, Option.map_some,
      Option.getD_some]
  inside := by
    intro value _ offset hoffset
    change offset ∈ (List.range (pair_encoding.encode value).length).map (· / 2) at hoffset
    obtain ⟨token, htoken, rfl⟩ := List.mem_map.mp hoffset
    rw [List.mem_range, length_pairs] at htoken
    omega

/-- Short places are their own digests. -/
theorem pair_injective {n : Nat} (hn : n < 1000) : pair_encoding.Injective "d" "c" n := by
  have hshort (place : Place) (hstart : place.1 ≤ n) (hstop : place.2.1 ≤ n)
      (hkind : place.2.2 ∈ ["parent", "leaf-0", "leaf-1"]) :
      (place_text "d" "c" place).toList.length ≤ 24 := by
    have hdigits (m : Nat) (hm : m ≤ n) : (toString m).length ≤ 3 := by
      rw [Nat.toString_eq_ofList_toDigits, String.length_ofList,
        Nat.length_toDigits_le_iff (by decide) (by decide)]
      omega
    have hkind' : place.2.2.length ≤ 6 := by
      simp only [List.mem_cons, List.not_mem_nil, or_false] at hkind
      rcases hkind with h | h | h <;> rw [h] <;> decide
    have hstart' := hdigits place.1 hstart
    have hstop' := hdigits place.2.1 hstop
    have hd : "d".length = 1 := rfl
    have hc : "c".length = 1 := rfl
    have hseparator : "\x00".length = 1 := rfl
    simp only [place_text, String.length_toList, String.length_append, hd, hc, hseparator]
    omega
  intro place place' hstart hstop hstart' hstop' hkind hkind' hsame
  change (place_text "d" "c" place).toList.take 24 = (place_text "d" "c" place').toList.take 24
    at hsame
  rw [List.take_of_length_le (hshort place hstart hstop hkind),
    List.take_of_length_le (hshort place' hstart' hstop' hkind')] at hsame
  exact String.toList_inj.mp hsame

theorem overlapping_leaf : 64 < 96 := by omega

theorem overlapping_overlap : 63 < 64 := by omega

/-- Leaves a token apart. -/
def overlapping_profile : DocumentProfile where
  hard_boundaries := [.page]
  leaf_tokens := 64
  parent_tokens := 96
  overlap_tokens := 63
  auto_merge_threshold := 1 / 2
  leaf_lt_parent := overlapping_leaf
  overlap_lt_leaf := overlapping_overlap

def paired_text : String := String.ofList (List.replicate 40 'é')

def paired_chunks : Except String (List Chunk) :=
  build_chunks unbroken_patterns pair_encoding paired_text "d" "c" overlapping_profile

theorem chunk_ids_nodup_iff_paired : ∃ chunks, paired_chunks = .ok chunks ∧
    ((chunks.map (·.id)).Nodup ↔
      ∀ block ∈ structural_blocks unbroken_patterns paired_text.toList overlapping_profile,
        ∀ parent, ParentOf unbroken_patterns pair_encoding paired_text.toList overlapping_profile
          block parent → ¬RepeatsIn pair_encoding overlapping_profile parent) := by
  have hrun : ∃ chunks ∈ paired_chunks.toOption, chunks.length = 18 := by decide +kernel
  obtain ⟨chunks, hchunks, -⟩ := hrun
  rw [results.mem_toOption] at hchunks
  exact ⟨chunks, hchunks, chunk_ids_nodup_iff unbroken_separator_ends pair_offsets
    (pair_injective (by decide)) hchunks⟩

/-- The first two leaves have the same characters, and so the same identifier. -/
theorem paired_ids_repeat : ¬∀ (patterns : Patterns) (encoding : Encoding)
    (content document checksum : String) (profile : DocumentProfile) (chunks : List Chunk),
    patterns.SeparatorEnds → encoding.Offsets →
    encoding.Injective document checksum content.toList.length →
    build_chunks patterns encoding content document checksum profile = .ok chunks →
    (chunks.map (·.id)).Nodup := by
  intro h
  have hrun : ∃ chunks ∈ paired_chunks.toOption,
      ((chunks.map (·.id)).drop 1).take 1 = ((chunks.map (·.id)).drop 2).take 1 ∧
        chunks.length = 18 := by decide +kernel
  obtain ⟨chunks, hchunks, hsame, hlength⟩ := hrun
  rw [results.mem_toOption] at hchunks
  have hnodup := h _ _ _ _ _ _ _ unbroken_separator_ends pair_offsets (pair_injective (by decide))
    hchunks
  have hids : (chunks.map (·.id)).length = 18 := by rw [List.length_map, hlength]
  rw [List.take_one_drop_eq_of_lt_length (by omega), List.take_one_drop_eq_of_lt_length (by omega),
    List.singleton_inj] at hsame
  have hindex := (hnodup.getElem_inj_iff).mp hsame
  omega

end Pairs

end lagraph.retrieval
