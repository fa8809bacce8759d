import LaGraph.Retrieval.Chunking.Ranges

open foundation

namespace lagraph.retrieval

/-- A chunk that starts in a block and carries its page, headings and article. -/
structure InBlock (block : StructuralBlock) (c : Chunk) : Prop where
  start_le : block.start ≤ c.start_char
  start_lt : c.start_char < block.stop
  page : c.page_number = block.page_number
  headings : c.section_path = block.section_path
  article : c.article = block.article

variable {patterns : Patterns} {encoding : Encoding} {value : List Char}
  {document checksum content : String} {profile : DocumentProfile} {block : StructuralBlock}
  {range : Nat × Nat} {chunks : List Chunk}

/-- The leaf of a window. -/
def leaf_chunk (patterns : Patterns) (encoding : Encoding) (value : List Char)
    (document checksum : String) (block : StructuralBlock) (range window : Nat × Nat) : Chunk :=
  chunk patterns encoding value document checksum block (block.start + range.1 + window.1)
    (block.start + range.1 + window.2) 1
    (some ("source:" ++ identity encoding document checksum (block.start + range.1)
      (block.start + range.2) "parent")) [] false none

/-- The parent of its leaves. -/
def parent_chunk (patterns : Patterns) (encoding : Encoding) (value : List Char)
    (document checksum : String) (block : StructuralBlock) (range : Nat × Nat)
    (leaves : List Chunk) : Chunk :=
  chunk patterns encoding value document checksum block (block.start + range.1)
    (block.start + range.2) 0 none (leaves.map (·.id)) false
    (some ("source:" ++ identity encoding document checksum (block.start + range.1)
      (block.start + range.2) "parent"))

/-- The chunk of a block that is short enough. -/
def standalone_chunk (patterns : Patterns) (encoding : Encoding) (value : List Char)
    (document checksum : String) (block : StructuralBlock) : Chunk :=
  chunk patterns encoding value document checksum block block.start block.stop 0 none [] true none

/-- The windows of a parent. -/
def leaf_windows (encoding : Encoding) (value : List Char) (profile : DocumentProfile)
    (block : StructuralBlock) (range : Nat × Nat) : Except String (List (Nat × Nat)) :=
  token_windows encoding (slice value (block.start + range.1) (block.start + range.2))
    profile.leaf_tokens profile.overlap_tokens 0

theorem family_ok
    (h : family patterns encoding value document checksum profile block range = .ok chunks) :
    ∃ windows, leaf_windows encoding value profile block range = .ok windows ∧
      chunks = parent_chunk patterns encoding value document checksum block range
          (windows.map (leaf_chunk patterns encoding value document checksum block range)) ::
        windows.map (leaf_chunk patterns encoding value document checksum block range) := by
  obtain ⟨windows, hwindows, h⟩ := results.bind_ok.mp h
  cases h
  exact ⟨windows, hwindows, rfl⟩

/-- The chunks of a block: none, itself, or families. -/
theorem block_chunks_ok
    (h : block_chunks patterns encoding value document checksum profile block = .ok chunks) :
    chunks = [] ∧ is_blank patterns (slice value block.start block.stop) = true ∨
      tokens_in encoding value (block.start, block.stop) ≤ profile.leaf_tokens ∧
        chunks = [standalone_chunk patterns encoding value document checksum block] ∨
      is_blank patterns (slice value block.start block.stop) = false ∧
        profile.leaf_tokens < tokens_in encoding value (block.start, block.stop) ∧
        ∃ ranges families, bounded_ranges patterns encoding (slice value block.start block.stop)
            profile.parent_tokens = .ok ranges ∧
          List.Forall₂ (fun range found =>
            family patterns encoding value document checksum profile block range = .ok found)
            ranges families ∧ chunks = families.flatten := by
  simp only [block_chunks] at h
  by_cases hblank : is_blank patterns (slice value block.start block.stop) = true
  · rw [if_pos hblank] at h
    cases h
    exact Or.inl ⟨rfl, hblank⟩
  · rw [if_neg hblank] at h
    by_cases hshort : (encoding.encode (slice value block.start block.stop)).length ≤
        profile.leaf_tokens
    · rw [if_pos hshort] at h
      cases h
      exact Or.inr (Or.inl ⟨hshort, rfl⟩)
    · rw [if_neg hshort] at h
      obtain ⟨ranges, hranges, h⟩ := results.bind_ok.mp h
      obtain ⟨families, hfamilies, h⟩ := results.bind_ok.mp h
      cases h
      exact Or.inr (Or.inr ⟨Bool.eq_false_iff.mpr hblank, Nat.lt_of_not_le hshort, ranges, families,
        hranges, results.forall₂_of_mapM hfamilies, rfl⟩)

theorem build_chunks_ok
    (h : build_chunks patterns encoding content document checksum profile = .ok chunks) :
    ∃ lists, List.Forall₂ (fun block found =>
        block_chunks patterns encoding content.toList document checksum profile block = .ok found)
      (structural_blocks patterns content.toList profile) lists ∧ chunks = lists.flatten := by
  obtain ⟨lists, hlists, h⟩ := results.bind_ok.mp h
  cases h
  exact ⟨lists, results.forall₂_of_mapM hlists, rfl⟩

theorem profile_parent_pos (profile : DocumentProfile) : 0 < profile.parent_tokens :=
  Nat.zero_lt_of_lt profile.leaf_lt_parent

/-- The windows of a parent start in it and end in it. -/
theorem leaf_windows_bounds (hoffsets : encoding.Offsets) {windows : List (Nat × Nat)}
    (h : leaf_windows encoding value profile block range = .ok windows)
    (hstop : block.start + range.2 ≤ value.length) {w : Nat × Nat} (hw : w ∈ windows) :
    w.1 < range.2 - range.1 ∧ w.1 ≤ w.2 ∧ w.2 ≤ range.2 - range.1 := by
  rcases token_windows_ok hoffsets h with ⟨-, hnone⟩ | ⟨-, htable, -, hwindows⟩
  · rw [hnone] at hw
    cases hw
  · rw [hwindows] at hw
    obtain ⟨token, -, htoken, rfl⟩ := exists_of_mem_windows hw
    have hbounds := @OffsetTable.window_bounds _ profile.leaf_tokens 0 _ _ token htable htoken
    rw [slice_length] at hbounds
    omega

/-- The chunks of a family start in its range. -/
theorem family_bounds (hoffsets : encoding.Offsets) (hrange : range.1 < range.2)
    (hstop : block.start + range.2 ≤ value.length)
    (h : family patterns encoding value document checksum profile block range = .ok chunks)
    {c : Chunk} (hc : c ∈ chunks) :
    block.start + range.1 ≤ c.start_char ∧ c.start_char < block.start + range.2 ∧
      c.page_number = block.page_number ∧ c.section_path = block.section_path ∧
      c.article = block.article := by
  obtain ⟨windows, hwindows, rfl⟩ := family_ok h
  cases List.mem_cons.mp hc with
  | inl hparent =>
    rw [hparent]
    exact ⟨le_refl _, by simp only [parent_chunk, chunk]; omega, rfl, rfl, rfl⟩
  | inr hleaf =>
    obtain ⟨w, hw, rfl⟩ := List.mem_map.mp hleaf
    have hbounds := leaf_windows_bounds hoffsets hwindows hstop hw
    refine ⟨?_, ?_, rfl, rfl, rfl⟩
    · simp only [leaf_chunk, chunk]
      omega
    · simp only [leaf_chunk, chunk]
      omega

/-- The parents of a block lie in it. -/
theorem parent_ranges_in_block (hstop : block.stop ≤ value.length) {ranges : List (Nat × Nat)}
    (hranges : ParentRanges patterns (slice value block.start block.stop) ranges)
    (hrange : range ∈ ranges) :
    range.1 < range.2 ∧ block.start + range.2 ≤ block.stop ∧
      block.start + range.2 ≤ value.length := by
  have hnonempty := hranges.nonempty range hrange
  have hle := hranges.stop_le range hrange
  rw [slice_length] at hle
  omega

/-- The chunks of a block start in it. -/
theorem block_chunks_in_block (hpatterns : patterns.SeparatorEnds) (hoffsets : encoding.Offsets)
    (hnonempty : block.start < block.stop) (hstop : block.stop ≤ value.length)
    (h : block_chunks patterns encoding value document checksum profile block = .ok chunks)
    {c : Chunk} (hc : c ∈ chunks) : InBlock block c := by
  rcases block_chunks_ok h with ⟨rfl, -⟩ | ⟨-, rfl⟩ | ⟨-, -, ranges, families, hranges, hfamilies, rfl⟩
  · cases hc
  · rw [List.mem_singleton.mp hc]
    exact ⟨le_refl _, hnonempty, rfl, rfl, rfl⟩
  · have hparents := bounded_ranges_ok hpatterns hoffsets (profile_parent_pos profile) hranges
    obtain ⟨found, hfound, hc⟩ := List.mem_flatten.mp hc
    obtain ⟨range, hrange, hfamily⟩ := results.forall₂_exists_left hfamilies hfound
    obtain ⟨hlt, hin, hend⟩ := parent_ranges_in_block hstop hparents hrange
    obtain ⟨hlower, hupper, hpage, hheadings, harticle⟩ :=
      family_bounds hoffsets hlt hend hfamily hc
    exact ⟨by omega, by omega, hpage, hheadings, harticle⟩

/-- Every chunk carries what the events up to its start say. -/
theorem chunk_context (hpatterns : patterns.SeparatorEnds) (hoffsets : encoding.Offsets)
    (h : build_chunks patterns encoding content document checksum profile = .ok chunks)
    {c : Chunk} (hc : c ∈ chunks) :
    let state := context (block_events patterns content.toList profile.hard_boundaries)
      (c.start_char + 1)
    c.page_number = (if .page ∈ profile.hard_boundaries then some state.page else none) ∧
      c.section_path = state.headings ∧ c.article = state.article := by
  obtain ⟨lists, hlists, rfl⟩ := build_chunks_ok h
  obtain ⟨found, hfound, hc⟩ := List.mem_flatten.mp hc
  obtain ⟨block, hblock, hchunks⟩ := results.forall₂_exists_left hlists hfound
  have hgood := structural_blocks_good.1 block hblock
  have hin := block_chunks_in_block hpatterns hoffsets hgood.nonempty hgood.stop_le hchunks hc
  have hcontext := hgood.context_eq hin.start_le hin.start_lt
  dsimp only
  rw [hcontext]
  exact ⟨hin.page.trans hgood.page, hin.headings.trans hgood.headings,
    hin.article.trans hgood.article⟩

end lagraph.retrieval
