import LaGraph.Retrieval.Chunking.Identifiers

open foundation

namespace lagraph.retrieval

/-- The number of tokens that a chunk may have. -/
def Chunk.limit (c : Chunk) (profile : DocumentProfile) : Nat :=
  if c.kind = "parent" then profile.parent_tokens else profile.leaf_tokens

/-- The text of a chunk is encoded again in as many tokens as it may have. -/
def Chunk.Fits (c : Chunk) (encoding : Encoding) (profile : DocumentProfile) : Prop :=
  (encoding.encode c.text.toList).length ≤ c.limit profile

/-- The tokens from `a` to `b` are a window of a text. -/
def IsWindow (encoding : Encoding) (text : List Char) (limit step a b : Nat) : Prop :=
  ∃ i, a = i * step ∧ a < (encoding.encode text).length ∧
    (i = 0 ∨ a + limit < (encoding.encode text).length + step) ∧
    b = min (a + limit) (encoding.encode text).length

/-- The characters of the tokens from `a` to `b`: from the one that token `a` is of to the one
before that of token `b`. -/
def cut_text (encoding : Encoding) (text : List Char) (a b : Nat) : List Char :=
  slice text ((encoding.offsets text).getD a 0) ((encoding.offsets text).getD b text.length)

/-- The tokens that encoding these characters again adds. -/
def added (encoding : Encoding) (text : List Char) (a b : Nat) : Int :=
  (encoding.encode (cut_text encoding text a b)).length - (b - a)

/-- Encoding the characters of a window again adds no more tokens than the window lacks. -/
def NeverGrows (encoding : Encoding) (text : List Char) (limit step : Nat)
    (counts : List Char → Bool) : Prop :=
  ∀ a b, IsWindow encoding text limit step a b → counts (cut_text encoding text a b) = true →
    added encoding text a b ≤ limit - (b - a)

/-- A piece of a block that is still longer than a parent where no separator is left. -/
def LongPiece (patterns : Patterns) (encoding : Encoding) (value : List Char)
    (profile : DocumentProfile) (block : StructuralBlock) (piece : List Char) : Prop :=
  is_blank patterns (slice value block.start block.stop) = false ∧
    profile.leaf_tokens < tokens_in encoding value (block.start, block.stop) ∧
    ∃ range ∈ separated patterns encoding (slice value block.start block.stop)
        profile.parent_tokens,
      profile.parent_tokens < tokens_in encoding (slice value block.start block.stop) range ∧
        piece = slice (slice value block.start block.stop) range.1 range.2

section Windows

variable {value : List Char} {offsets : List Nat} {total limit step base rounds start : Nat}

/-- The windows of a text one by one. -/
theorem forall_windows_iff (hpos : 0 < step) (hrounds : total ≤ start + rounds) {P : Nat × Nat → Prop} :
    (∀ w ∈ windows_from value offsets total limit step base rounds start, P w) ↔
      ∀ i, start + i * step < total →
        (i = 0 ∨ start + i * step + limit < total + step) →
        P (window value offsets total limit base (start + i * step)) := by
  induction rounds generalizing start with
  | zero =>
    refine iff_of_true (fun w hw => absurd hw List.not_mem_nil) ?_
    intro i hi
    omega
  | succ rounds ih =>
    have hshift (i : Nat) : start + step + i * step = start + (i + 1) * step := by
      rw [Nat.add_mul, Nat.one_mul]
      omega
    by_cases hstart : start < total
    · rw [windows_from_cons hstart, List.forall_mem_cons]
      by_cases hlast : total ≤ start + limit
      · rw [if_pos hlast]
        constructor
        · rintro ⟨hfirst, -⟩ i hi hcut
          cases i with
          | zero => simpa using hfirst
          | succ i =>
            rw [← hshift] at hcut
            omega
        · intro hall
          exact ⟨by simpa using hall 0 (by omega) (Or.inl rfl), fun w hw => absurd hw List.not_mem_nil⟩
      · rw [if_neg hlast, ih (by omega)]
        constructor
        · rintro ⟨hfirst, hrest⟩ i hi hcut
          cases i with
          | zero => simpa using hfirst
          | succ i =>
            rw [← hshift] at hi hcut ⊢
            exact hrest i hi (Or.inr (by omega))
        · intro hall
          refine ⟨by simpa using hall 0 (by omega) (Or.inl rfl), fun i hi hcut => ?_⟩
          rw [hshift] at hi hcut ⊢
          apply hall (i + 1) hi
          right
          rcases hcut with rfl | hcut
          · omega
          · exact hcut
    · rw [windows_from, if_pos (Nat.le_of_not_lt hstart)]
      refine iff_of_true (fun w hw => absurd hw List.not_mem_nil) ?_
      intro i hi
      omega

end Windows

section Texts

variable {encoding : Encoding} {text : List Char} {ranges : List (Nat × Nat)}
  {limit overlap base : Nat}

/-- The windows that count fit when encoding them again never adds too many tokens. -/
theorem windows_fit_iff (hoffsets : encoding.Offsets) (hoverlap : overlap < limit)
    (h : token_windows encoding text limit overlap base = .ok ranges)
    (counts : List Char → Bool) {whole : List Char}
    (hwhole : ∀ a b, b ≤ text.length → slice whole (base + a) (base + b) = slice text a b) :
    (∀ w ∈ ranges, counts (slice whole w.1 w.2) = true →
      (encoding.encode (slice whole w.1 w.2)).length ≤ limit) ↔
      NeverGrows encoding text limit (limit - overlap) counts := by
  rcases token_windows_ok hoffsets h with ⟨hempty, rfl⟩ | ⟨hpos, htable, -, rfl⟩
  · refine iff_of_true (fun w hw => absurd hw List.not_mem_nil) ?_
    rintro a b ⟨i, -, hlt, -⟩
    rw [hempty] at hlt
    cases hlt
  · rw [forall_windows_iff (by omega) (by omega)]
    have htext (a : Nat) (ha : a < (encoding.encode text).length) :
        slice whole (window text (encoding.offsets text) (encoding.encode text).length limit base a).1
          (window text (encoding.offsets text) (encoding.encode text).length limit base a).2 =
          cut_text encoding text a (min (a + limit) (encoding.encode text).length) := by
      have hbounds := @OffsetTable.window_bounds _ limit base _ _ a htable ha
      simp only [window] at hbounds
      exact hwhole _ _ (by omega)
    constructor
    · rintro hall a b ⟨i, rfl, hlt, hcut, rfl⟩ hcounts
      have hfits := hall i (by omega) (hcut.imp_right fun h => by omega)
      rw [Nat.zero_add, htext _ hlt] at hfits
      have hle := hfits hcounts
      rw [added]
      omega
    · intro hall i hlt hcut
      rw [Nat.zero_add] at hlt hcut ⊢
      rw [htext _ hlt]
      intro hcounts
      have hgrows := hall _ _ ⟨i, rfl, hlt, hcut, rfl⟩ hcounts
      rw [added] at hgrows
      omega

end Texts

section Blocks

variable {patterns : Patterns} {encoding : Encoding} {value : List Char}
  {document checksum content : String} {profile : DocumentProfile} {block : StructuralBlock}
  {range : Nat × Nat} {chunks : List Chunk} {ranges : List (Nat × Nat)} {limit : Nat}

/-- A text that is not blank. -/
def not_blank (patterns : Patterns) (text : List Char) : Bool :=
  !is_blank patterns text

/-- The parents of a text fit when no piece grows that is cut without a separator. -/
theorem parents_fit_iff (hpatterns : patterns.SeparatorEnds) (hoffsets : encoding.Offsets)
    (hlimit : 0 < limit) (h : bounded_ranges patterns encoding value limit = .ok ranges) :
    (∀ range ∈ ranges, tokens_in encoding value range ≤ limit) ↔
      ∀ range ∈ separated patterns encoding value limit, limit < tokens_in encoding value range →
        NeverGrows encoding (slice value range.1 range.2) limit limit (not_blank patterns) := by
  rw [bounded_ranges_eq] at h
  obtain ⟨output, houtput, h⟩ := results.bind_ok.mp h
  cases h
  have hseparated := @separated_tiles patterns encoding value limit hpatterns
  have hpieces := results.forall₂_of_mapM houtput
  have hlong (range : Nat × Nat) (hrange : range ∈ separated patterns encoding value limit)
      (hlong : limit < tokens_in encoding value range) (pieces : List (Nat × Nat))
      (hcut : cut encoding value limit range = .ok pieces) :
      (∀ w ∈ pieces, not_blank patterns (slice value w.1 w.2) = true →
        (encoding.encode (slice value w.1 w.2)).length ≤ limit) ↔
        NeverGrows encoding (slice value range.1 range.2) limit limit (not_blank patterns) := by
    rw [cut, if_neg (Nat.not_le.mpr hlong)] at hcut
    have hstop := (hseparated.bounds hrange).2
    apply windows_fit_iff hoffsets hlimit hcut
    intro a b hb
    rw [slice_length] at hb
    exact (slice_slice (by omega)).symm
  constructor
  · intro hall range hrange hmore
    obtain ⟨pieces, hpiece, hcut⟩ := results.forall₂_exists_right hpieces hrange
    apply (hlong range hrange hmore pieces hcut).mp
    intro w hw hkept
    exact hall w (List.mem_filter.mpr ⟨List.mem_flatten.mpr ⟨pieces, hpiece, hw⟩, hkept⟩)
  · intro hall w hw
    obtain ⟨hw, hkept⟩ := List.mem_filter.mp hw
    obtain ⟨pieces, hpiece, hw⟩ := List.mem_flatten.mp hw
    obtain ⟨range, hrange, hcut⟩ := results.forall₂_exists_left hpieces hpiece
    by_cases hfits : tokens_in encoding value range ≤ limit
    · rw [cut, if_pos hfits] at hcut
      cases hcut
      rwa [List.mem_singleton.mp hw]
    · have hmore := Nat.lt_of_not_le hfits
      exact (hlong range hrange hmore pieces hcut).mpr (hall range hrange hmore) w hw hkept

/-- A family fits when its parent does and no window of it grows. -/
theorem family_fits_iff (hoffsets : encoding.Offsets)
    (hstop : block.start + range.2 ≤ value.length)
    (h : family patterns encoding value document checksum profile block range = .ok chunks) :
    (∀ c ∈ chunks, c.Fits encoding profile) ↔
      (encoding.encode (slice value (block.start + range.1)
        (block.start + range.2))).length ≤ profile.parent_tokens ∧
      NeverGrows encoding (slice value (block.start + range.1) (block.start + range.2))
        profile.leaf_tokens (profile.leaf_tokens - profile.overlap_tokens) fun _ => true := by
  obtain ⟨windows, hwindows, rfl⟩ := family_ok h
  rw [List.forall_mem_cons]
  apply and_congr
  · simp only [Chunk.Fits, Chunk.limit, Chunk.kind, parent_chunk, chunk, Option.isSome_none,
      Bool.false_eq_true, if_false, if_true, String.toList_ofList]
  · rw [← windows_fit_iff hoffsets profile.overlap_lt_leaf hwindows (fun _ => true)
      (fun a b _ => by rw [Nat.zero_add, Nat.zero_add]), List.forall_mem_map]
    apply forall₂_congr
    intro w hw
    have hbounds := leaf_windows_bounds hoffsets hwindows hstop hw
    have hslice : slice (slice value (block.start + range.1) (block.start + range.2)) w.1 w.2 =
        slice value (block.start + range.1 + w.1) (block.start + range.1 + w.2) :=
      slice_slice (by omega)
    have hkind : "leaf-1" ≠ "parent" := by decide
    simp only [Chunk.Fits, Chunk.limit, Chunk.kind, leaf_chunk, chunk, Option.isSome_some, if_true,
      String.toList_ofList, hslice, hkind, if_false, forall_const]

/-- The chunks of a block fit when none of its cuts grows. -/
theorem block_fits_iff (hpatterns : patterns.SeparatorEnds) (hoffsets : encoding.Offsets)
    (hstop : block.stop ≤ value.length)
    (h : block_chunks patterns encoding value document checksum profile block = .ok chunks) :
    (∀ c ∈ chunks, c.Fits encoding profile) ↔
      (∀ piece, LongPiece patterns encoding value profile block piece →
        NeverGrows encoding piece profile.parent_tokens profile.parent_tokens
          (not_blank patterns)) ∧
      ∀ parent, ParentOf patterns encoding value profile block parent →
        NeverGrows encoding parent profile.leaf_tokens
          (profile.leaf_tokens - profile.overlap_tokens) fun _ => true := by
  rcases block_chunks_ok h with ⟨rfl, hblank⟩ | ⟨hshort, rfl⟩ |
    ⟨hblank, hlong, ranges, families, hranges, hfamilies, rfl⟩
  · refine iff_of_true (fun c hc => absurd hc List.not_mem_nil) ⟨?_, ?_⟩
    · rintro piece ⟨hfull, -⟩
      rw [hblank] at hfull
      cases hfull
    · rintro parent ⟨hfull, -⟩
      rw [hblank] at hfull
      cases hfull
  · refine iff_of_true ?_ ⟨?_, ?_⟩
    · intro c hc
      have hkind : "leaf-0" ≠ "parent" := by decide
      rw [List.mem_singleton.mp hc]
      simpa only [Chunk.Fits, Chunk.limit, Chunk.kind, standalone_chunk, chunk, Option.isSome_none,
        Bool.false_eq_true, if_false, if_true, String.toList_ofList, hkind, tokens_in] using hshort
    · rintro piece ⟨-, hlong, -⟩
      omega
    · rintro parent ⟨-, hlong, -⟩
      omega
  · have hparents := bounded_ranges_ok hpatterns hoffsets (profile_parent_pos profile) hranges
    have hpieces := parents_fit_iff hpatterns hoffsets (profile_parent_pos profile) hranges
    have hslice (range : Nat × Nat) (hrange : range ∈ ranges) :
        slice (slice value block.start block.stop) range.1 range.2 =
          slice value (block.start + range.1) (block.start + range.2) :=
      slice_slice (parent_ranges_in_block hstop hparents hrange).2.1
    have hfamily (range : Nat × Nat) (hrange : range ∈ ranges) (found : List Chunk)
        (h : family patterns encoding value document checksum profile block range = .ok found) :=
      family_fits_iff hoffsets (parent_ranges_in_block hstop hparents hrange).2.2 h
    constructor
    · intro hall
      have hfound (range : Nat × Nat) (hrange : range ∈ ranges) :
          (encoding.encode (slice value (block.start + range.1)
            (block.start + range.2))).length ≤ profile.parent_tokens ∧
          NeverGrows encoding (slice value (block.start + range.1) (block.start + range.2))
            profile.leaf_tokens (profile.leaf_tokens - profile.overlap_tokens) fun _ => true := by
        obtain ⟨found, hfound, hok⟩ := results.forall₂_exists_right hfamilies hrange
        exact (hfamily range hrange found hok).mp fun c hc =>
          hall c (List.mem_flatten.mpr ⟨found, hfound, hc⟩)
      constructor
      · rintro piece ⟨-, -, range, hrange, hmore, rfl⟩
        refine hpieces.mp (fun parent hparent => ?_) range hrange hmore
        rw [tokens_in, hslice parent hparent]
        exact (hfound parent hparent).1
      · rintro parent ⟨-, -, ranges', hranges', range, hrange, rfl⟩
        cases hranges.symm.trans hranges'
        exact (hfound range hrange).2
    · rintro ⟨hcuts, hleaves⟩ c hc
      obtain ⟨found, hfound, hc⟩ := List.mem_flatten.mp hc
      obtain ⟨range, hrange, hok⟩ := results.forall₂_exists_left hfamilies hfound
      refine (hfamily range hrange found hok).mpr ⟨?_, ?_⟩ c hc
      · have hfits := hpieces.mpr (fun piece hpiece hmore =>
          hcuts _ ⟨hblank, hlong, piece, hpiece, hmore, rfl⟩) range hrange
        rwa [tokens_in, hslice range hrange] at hfits
      · exact hleaves _ ⟨hblank, hlong, ranges, hranges, range, hrange, rfl⟩

end Blocks

section Pairs

/-- Leaves of an odd number of tokens, where every character has two. -/
def odd_profile : DocumentProfile where
  hard_boundaries := [.page]
  leaf_tokens := 65
  parent_tokens := 256
  overlap_tokens := 0
  auto_merge_threshold := 1 / 2
  leaf_lt_parent := by decide
  overlap_lt_leaf := by decide

def long_paired_text : String := String.ofList (List.replicate 70 'é')

def long_paired_chunks : Except String (List Chunk) :=
  build_chunks unbroken_patterns pair_encoding long_paired_text "d" "c" odd_profile

end Pairs

end lagraph.retrieval
