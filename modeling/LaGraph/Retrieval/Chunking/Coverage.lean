import LaGraph.Retrieval.Chunking.Headings
import Mathlib.Data.List.Pairwise

open foundation

namespace lagraph.retrieval

/-- A chunk has characters of another one's range. -/
def Chunk.Overlaps (c c' : Chunk) : Prop :=
  c.start_char < c'.end_char ∧ c'.start_char < c.end_char

/-- A chunk has the whole range of another one. -/
def Chunk.Contains (c c' : Chunk) : Prop :=
  c.start_char ≤ c'.start_char ∧ c'.end_char ≤ c.end_char

/-- A chunk at the top, alone or with leaves that lie in it and cover it. -/
structure ChunkFamily (value : List Char) (top : Chunk) (leaves : List Chunk) : Prop where
  lt : top.start_char < top.end_char
  level : top.level = 0
  inside : ∀ leaf ∈ leaves, leaf.level = 1 ∧ leaf.parent_id = some top.id ∧ top.Contains leaf ∧
    leaf.start_char ≤ leaf.end_char
  covered : top.standalone = false → ∀ n, top.start_char ≤ n → n < top.end_char →
    ∃ leaf ∈ leaves, leaf.start_char ≤ n ∧ n < leaf.end_char
  texts : ∀ c ∈ top :: leaves, c.text = String.ofList (slice value c.start_char c.end_char)

/-- The text of every chunk is its range; leaves cover what is not blank; leaves lie in their
parents; the chunks at the top come in order and are disjoint; only leaves of one parent
overlap without one containing the other; and no chunk goes beyond a boundary. -/
structure Covers (patterns : Patterns) (value : List Char) (boundaries : List Boundary)
    (chunks : List Chunk) : Prop where
  texts : ∀ c ∈ chunks, c.text = String.ofList (slice value c.start_char c.end_char)
  covered : ∀ n, ∀ char ∈ value[n]?, patterns.is_space char = false →
    ∃ c ∈ chunks, (c.level = 1 ∨ c.standalone = true) ∧ c.start_char ≤ n ∧ n < c.end_char
  leaves : ∀ c ∈ chunks, c.level = 1 → ∃ parent ∈ chunks, parent.level = 0 ∧
    c.parent_id = some parent.id ∧ parent.Contains c
  ordered : (chunks.filter (·.level = 0)).Pairwise fun a b => a.end_char ≤ b.start_char
  overlaps : ∀ c ∈ chunks, ∀ c' ∈ chunks, c.Overlaps c' → ¬c.Contains c' → ¬c'.Contains c →
    c.level = 1 ∧ c'.level = 1 ∧ ∃ parent ∈ chunks, parent.level = 0 ∧
      c.parent_id = some parent.id ∧ c'.parent_id = some parent.id ∧
      parent.Contains c ∧ parent.Contains c'
  bounded : ∀ c ∈ chunks, ∀ event ∈ block_events patterns value boundaries,
    event.1 ≤ c.start_char ∨ c.end_char ≤ event.1

variable {patterns : Patterns} {encoding : Encoding} {value : List Char}
  {document checksum content : String} {profile : DocumentProfile} {block : StructuralBlock}
  {range : Nat × Nat} {chunks leaves : List Chunk} {top : Chunk} {lo hi : Nat}

/-- All chunks of a family lie in its range. -/
theorem ChunkFamily.bounds (h : ChunkFamily value top leaves) {c : Chunk}
    (hc : c ∈ top :: leaves) :
    top.start_char ≤ c.start_char ∧ c.start_char ≤ c.end_char ∧ c.end_char ≤ top.end_char := by
  cases List.mem_cons.mp hc with
  | inl htop =>
    have hlt := h.lt
    rw [htop]
    omega
  | inr hleaf =>
    obtain ⟨-, -, ⟨hlower, hupper⟩, hrange⟩ := h.inside c hleaf
    exact ⟨hlower, hrange, hupper⟩

/-- Two chunks of a family that do not contain one another are leaves. -/
theorem ChunkFamily.leaf_of_not_contains (h : ChunkFamily value top leaves) {c c' : Chunk}
    (hc : c ∈ top :: leaves) (hc' : c' ∈ top :: leaves) (hnot : ¬c.Contains c') : c ∈ leaves := by
  cases List.mem_cons.mp hc with
  | inl htop =>
    obtain ⟨hlower, -, hupper⟩ := h.bounds hc'
    rw [htop] at hnot
    exact absurd ⟨hlower, hupper⟩ hnot
  | inr hleaf => exact hleaf

/-- The windows of a parent cover it. -/
theorem leaf_windows_cover (hoffsets : encoding.Offsets) {windows : List (Nat × Nat)}
    (h : leaf_windows encoding value profile block range = .ok windows)
    (hfull : encoding.encode (slice value (block.start + range.1) (block.start + range.2)) ≠ [])
    (hstop : block.start + range.2 ≤ value.length) {n : Nat} (hn : n < range.2 - range.1) :
    ∃ w ∈ windows, w.1 ≤ n ∧ n < w.2 := by
  have hoverlap := profile.overlap_lt_leaf
  rcases token_windows_ok hoffsets h with ⟨hempty, -⟩ | ⟨hpos, htable, hhead, rfl⟩
  · exact absurd hempty hfull
  · have hlength : n < 0 + (slice value (block.start + range.1)
        (block.start + range.2)).length := by
      rw [slice_length]
      omega
    exact htable.windows_cover (by omega) (Nat.sub_le _ _) hpos (by omega)
      (by rw [hhead]; omega) hlength

/-- A tokenizer whose tokens decode back to their text. -/
def Encoding.DecodesBack (encoding : Encoding) : Prop :=
  ∀ value, (encoding.decode_with_offsets (encoding.encode value)).1 = value

/-- Only the empty text has no tokens. -/
theorem encode_ne_nil (hoffsets : encoding.Offsets) (hdecode : encoding.DecodesBack)
    {text : List Char} (htext : text ≠ []) : encoding.encode text ≠ [] := by
  have hempty : encoding.encode [] = [] := by
    have hnone : encoding.offsets [] = [] := by
      rw [List.eq_nil_iff_forall_not_mem]
      intro offset hoffset
      exact absurd (hoffsets.inside [] (hdecode []) offset hoffset) (Nat.not_lt_zero _)
    rw [← List.length_eq_zero_iff, ← hoffsets.length_eq, hnone, List.length_nil]
  intro hnil
  apply htext
  rw [← hdecode text, hnil, ← hempty, hdecode]

section Success

theorem token_windows_succeed (hdecode : encoding.DecodesBack) (text : List Char)
    (limit overlap base : Nat) :
    ∃ windows, token_windows encoding text limit overlap base = .ok windows := by
  rw [token_windows]
  by_cases hempty : encoding.encode text = []
  · simp only [hempty, if_true]
    exact ⟨_, rfl⟩
  · simp only [hempty, if_false, ite_not]
    rw [if_pos (hdecode text)]
    exact ⟨_, rfl⟩

theorem bounded_ranges_succeed (hdecode : encoding.DecodesBack) (text : List Char) (limit : Nat) :
    ∃ ranges, bounded_ranges patterns encoding text limit = .ok ranges := by
  have hcuts : ∃ output, (separated patterns encoding text limit).mapM
      (cut encoding text limit) = .ok output ∧
        List.Forall₂ (fun _ _ => True) (separated patterns encoding text limit) output := by
    apply results.mapM_ok
    intro range _
    rw [cut]
    split_ifs
    · exact ⟨_, rfl, trivial⟩
    · obtain ⟨windows, hwindows⟩ := token_windows_succeed hdecode
        (slice text range.1 range.2) limit 0 range.1
      exact ⟨windows, hwindows, trivial⟩
  obtain ⟨output, houtput, -⟩ := hcuts
  rw [bounded_ranges_eq]
  exact ⟨_, results.bind_ok.mpr ⟨output, houtput, rfl⟩⟩

theorem block_chunks_succeed (hdecode : encoding.DecodesBack) (block : StructuralBlock) :
    ∃ chunks, block_chunks patterns encoding value document checksum profile block =
      .ok chunks := by
  simp only [block_chunks]
  split_ifs
  · exact ⟨_, rfl⟩
  · exact ⟨_, rfl⟩
  · obtain ⟨ranges, hranges⟩ := @bounded_ranges_succeed patterns encoding hdecode
      (slice value block.start block.stop) profile.parent_tokens
    have hfamilies : ∃ families, ranges.mapM
        (family patterns encoding value document checksum profile block) = .ok families ∧
        List.Forall₂ (fun _ _ => True) ranges families := by
      apply results.mapM_ok
      intro range _
      obtain ⟨windows, hwindows⟩ := token_windows_succeed hdecode
        (slice value (block.start + range.1) (block.start + range.2)) profile.leaf_tokens
        profile.overlap_tokens 0
      exact ⟨_, results.bind_ok.mpr ⟨windows, hwindows, rfl⟩, trivial⟩
    obtain ⟨families, hfamilies, -⟩ := hfamilies
    exact ⟨_, results.bind_ok.mpr ⟨ranges, hranges, results.bind_ok.mpr ⟨families, hfamilies, rfl⟩⟩⟩

theorem build_chunks_succeed (hdecode : encoding.DecodesBack) :
    ∃ chunks, build_chunks patterns encoding content document checksum profile = .ok chunks := by
  have hlists : ∃ lists, (structural_blocks patterns content.toList profile).mapM
      (block_chunks patterns encoding content.toList document checksum profile) = .ok lists ∧
      List.Forall₂ (fun _ _ => True) (structural_blocks patterns content.toList profile) lists := by
    apply results.mapM_ok
    intro block _
    obtain ⟨chunks, hchunks⟩ := block_chunks_succeed hdecode block
    exact ⟨chunks, hchunks, trivial⟩
  obtain ⟨lists, hlists, -⟩ := hlists
  exact ⟨_, results.bind_ok.mpr ⟨lists, hlists, rfl⟩⟩

end Success

/-- Families of chunks, one after the other, that cover what is not blank in a range. -/
structure InFamilies (patterns : Patterns) (value : List Char) (lo hi : Nat)
    (families : List (Chunk × List Chunk)) : Prop where
  family : ∀ found ∈ families, ChunkFamily value found.1 found.2
  bounds : ∀ found ∈ families, lo ≤ found.1.start_char ∧ found.1.end_char ≤ hi
  ordered : families.Pairwise fun a b => a.1.end_char ≤ b.1.start_char
  covered : ∀ n, lo ≤ n → n < hi → ∀ char ∈ value[n]?, patterns.is_space char = false →
    ∃ found ∈ families, found.1.start_char ≤ n ∧ n < found.1.end_char

/-- The chunks of families, each parent before its leaves. -/
def chunks_of (families : List (Chunk × List Chunk)) : List Chunk :=
  families.flatMap fun found => found.1 :: found.2

variable {families : List (Chunk × List Chunk)}

theorem mem_chunks_of {c : Chunk} :
    c ∈ chunks_of families ↔ ∃ found ∈ families, c ∈ found.1 :: found.2 :=
  List.mem_flatMap

theorem chunks_of_flatten (groups : List (List (Chunk × List Chunk))) :
    chunks_of groups.flatten = (groups.map chunks_of).flatten := by
  induction groups with
  | nil => rfl
  | cons families groups ih =>
    rw [List.map_cons, List.flatten_cons, List.flatten_cons, ← ih]
    exact List.flatMap_append

/-- The chunks at the top are those of the families. -/
theorem chunks_of_top (h : ∀ found ∈ families, ChunkFamily value found.1 found.2) :
    (chunks_of families).filter (·.level = 0) = families.map (·.1) := by
  induction families with
  | nil => rfl
  | cons found families ih =>
    obtain ⟨hfound, hrest⟩ := List.forall_mem_cons.mp h
    have hleaves : found.2.filter (·.level = 0) = [] := by
      rw [List.filter_eq_nil_iff]
      intro leaf hleaf
      rw [(hfound.inside leaf hleaf).1]
      decide
    have htop : (found.1 :: found.2).filter (·.level = 0) = [found.1] := by
      rw [List.filter_cons, hleaves, if_pos (decide_eq_true hfound.level)]
    rw [chunks_of, List.flatMap_cons, List.filter_append, htop, ← chunks_of, ih hrest]
    rfl

/-- The chunks of a range are a family. -/
theorem family_is_family (hoffsets : encoding.Offsets) (hdecode : encoding.DecodesBack)
    (hlt : range.1 < range.2) (hstop : block.start + range.2 ≤ value.length)
    (h : family patterns encoding value document checksum profile block range = .ok chunks) :
    ∃ found : Chunk × List Chunk, chunks = found.1 :: found.2 ∧
      found.1.start_char = block.start + range.1 ∧ found.1.end_char = block.start + range.2 ∧
      ChunkFamily value found.1 found.2 := by
  obtain ⟨windows, hwindows, rfl⟩ := family_ok h
  refine ⟨(_, _), rfl, rfl, rfl, ⟨?_, rfl, ?_, ?_, ?_⟩⟩
  · dsimp only [parent_chunk, chunk]
    omega
  · intro leaf hleaf
    obtain ⟨w, hw, rfl⟩ := List.mem_map.mp hleaf
    have hbounds := leaf_windows_bounds hoffsets hwindows hstop hw
    refine ⟨rfl, rfl, ⟨?_, ?_⟩, ?_⟩ <;> dsimp only [leaf_chunk, parent_chunk, chunk] <;> omega
  · intro _ n hlower hupper
    dsimp only [parent_chunk, chunk] at hlower hupper
    have hfull : slice value (block.start + range.1) (block.start + range.2) ≠ [] := by
      rw [← List.length_pos_iff, slice_length]
      omega
    obtain ⟨w, hw, hstart, hend⟩ := leaf_windows_cover hoffsets hwindows
      (encode_ne_nil hoffsets hdecode hfull) hstop
      (by omega : n - (block.start + range.1) < range.2 - range.1)
    refine ⟨_, List.mem_map_of_mem hw, ?_⟩
    simp only [leaf_chunk, chunk]
    omega
  · intro c hc
    cases List.mem_cons.mp hc with
    | inl htop =>
      subst htop
      rfl
    | inr hleaf =>
      obtain ⟨w, -, rfl⟩ := List.mem_map.mp hleaf
      rw [leaf_chunk, chunk]

/-- The chunks of a block are families in it. -/
theorem block_in_families (hpatterns : patterns.SeparatorEnds) (hoffsets : encoding.Offsets)
    (hdecode : encoding.DecodesBack) (hlt : block.start < block.stop)
    (hstop : block.stop ≤ value.length)
    (h : block_chunks patterns encoding value document checksum profile block = .ok chunks) :
    ∃ families, chunks = chunks_of families ∧
      InFamilies patterns value block.start block.stop families := by
  rcases block_chunks_ok h with ⟨rfl, hblank⟩ | ⟨-, rfl⟩ | ⟨-, -, ranges, found, hranges, hfound, rfl⟩
  · refine ⟨[], rfl, ⟨by simp, by simp, .nil, ?_⟩⟩
    intro n hlower hupper c hc hspace
    have hall := List.all_eq_true.mp hblank c (mem_slice hlower hupper hc)
    rw [hspace] at hall
    cases hall
  · refine ⟨[(standalone_chunk patterns encoding value document checksum block, [])], rfl, ?_⟩
    constructor
    case family =>
      intro found hfound
      rw [List.mem_singleton.mp hfound]
      refine ⟨hlt, rfl, by simp, fun hfamily => absurd hfamily Bool.true_eq_false.mp, ?_⟩
      intro c hc
      rw [List.mem_singleton.mp hc, standalone_chunk, chunk]
    case bounds =>
      intro found hfound
      rw [List.mem_singleton.mp hfound]
      exact ⟨le_refl _, le_refl _⟩
    case ordered => exact List.pairwise_singleton _ _
    case covered =>
      intro n hlower hupper _ _ _
      exact ⟨_, List.mem_singleton_self _, hlower, hupper⟩
  · have hparents := bounded_ranges_ok hpatterns hoffsets (profile_parent_pos profile) hranges
    have hchosen : List.Forall₂ (fun range chunks => ∃ found : Chunk × List Chunk,
        chunks = found.1 :: found.2 ∧ (range ∈ ranges ∧
          found.1.start_char = block.start + range.1 ∧
          found.1.end_char = block.start + range.2 ∧ ChunkFamily value found.1 found.2))
        ranges found := by
      apply ((List.forall₂_and_left _ _).mpr ⟨fun _ hrange => hrange, hfound⟩).imp
      intro range chunks hboth
      obtain ⟨hrange, hfamily⟩ := hboth
      obtain ⟨hlt', -, hend⟩ := parent_ranges_in_block hstop hparents hrange
      obtain ⟨top, hchunks, htop⟩ := family_is_family hoffsets hdecode hlt' hend hfamily
      exact ⟨top, hchunks, hrange, htop⟩
    obtain ⟨families, rfl, hfamilies⟩ := results.forall₂_choose hchosen
    refine ⟨families, rfl, ?_⟩
    constructor
    case family =>
      intro found hfound
      obtain ⟨range, -, -, -, -, hfamily⟩ := results.forall₂_exists_left hfamilies hfound
      exact hfamily
    case bounds =>
      intro found hfound
      obtain ⟨range, -, hrange, hstart, hend, -⟩ :=
        results.forall₂_exists_left hfamilies hfound
      have hin := parent_ranges_in_block hstop hparents hrange
      omega
    case ordered =>
      apply results.forall₂_pairwise hfamilies hparents.ordered
      intro range range' found found' hle hfound hfound'
      omega
    case covered =>
      intro n hlower hupper c hc hspace
      have hshifted : c ∈ (slice value block.start block.stop)[n - block.start]? := by
        rw [slice, List.getElem?_drop, Nat.add_sub_cancel' hlower, List.getElem?_take_of_lt hupper]
        exact hc
      obtain ⟨range, hrange, hstart, hend⟩ := hparents.covered _ c hshifted hspace
      obtain ⟨found, hfound, -, hfirst, hlast, -⟩ :=
        results.forall₂_exists_right hfamilies hrange
      exact ⟨found, hfound, by omega, by omega⟩

/-- The chunks of a document are families in order, each between two boundaries. -/
theorem build_chunks_families (hpatterns : patterns.SeparatorEnds) (hoffsets : encoding.Offsets)
    (hdecode : encoding.DecodesBack)
    (h : build_chunks patterns encoding content document checksum profile = .ok chunks) :
    ∃ families, chunks = chunks_of families ∧
      InFamilies patterns content.toList 0 content.toList.length families ∧
      ∀ found ∈ families,
        ∀ event ∈ block_events patterns content.toList profile.hard_boundaries,
          event.1 ≤ found.1.start_char ∨ found.1.end_char ≤ event.1 := by
  obtain ⟨lists, hlists, rfl⟩ := build_chunks_ok h
  obtain ⟨hgood, hordered, hcovered⟩ :=
    @structural_blocks_good patterns content.toList profile
  have hchosen : List.Forall₂ (fun block chunks => ∃ families, chunks = chunks_of families ∧
      (block ∈ structural_blocks patterns content.toList profile ∧
        InFamilies patterns content.toList block.start block.stop families))
      (structural_blocks patterns content.toList profile) lists := by
    apply ((List.forall₂_and_left _ _).mpr ⟨fun _ hblock => hblock, hlists⟩).imp
    intro block chunks ⟨hblock, hchunks⟩
    have hin := hgood block hblock
    obtain ⟨families, hfamilies, hall⟩ :=
      block_in_families hpatterns hoffsets hdecode hin.nonempty hin.stop_le hchunks
    exact ⟨families, hfamilies, hblock, hall⟩
  obtain ⟨groups, rfl, hgroups⟩ := results.forall₂_choose hchosen
  have hmem : ∀ found ∈ groups.flatten, ∃ block ∈ structural_blocks patterns content.toList profile,
      ∃ families, found ∈ families ∧
        InFamilies patterns content.toList block.start block.stop families := by
    intro found hfound
    obtain ⟨families, hfamilies, hfound⟩ := List.mem_flatten.mp hfound
    obtain ⟨block, -, hblock, hall⟩ := results.forall₂_exists_left hgroups hfamilies
    exact ⟨block, hblock, families, hfound, hall⟩
  refine ⟨groups.flatten, ?_, ?_, ?_⟩
  · exact (chunks_of_flatten groups).symm
  · constructor
    case family =>
      intro found hfound
      obtain ⟨block, -, families, hfamilies, hall⟩ := hmem found hfound
      exact hall.family found hfamilies
    case bounds =>
      intro found hfound
      obtain ⟨block, hblock, families, hfamilies, hall⟩ := hmem found hfound
      have hin := hall.bounds found hfamilies
      have hstop := (hgood block hblock).stop_le
      omega
    case ordered =>
      rw [List.pairwise_flatten]
      refine ⟨?_, ?_⟩
      · intro families hfamilies
        obtain ⟨block, -, -, hall⟩ := results.forall₂_exists_left hgroups hfamilies
        exact hall.ordered
      · apply results.forall₂_pairwise hgroups hordered
        intro block block' families families' hle hall hall' found hfound found' hfound'
        have hbounds := hall.2.bounds found hfound
        have hbounds' := hall'.2.bounds found' hfound'
        omega
    case covered =>
      intro n _ _ c hc hspace
      obtain ⟨block, hblock, hstart, hend⟩ := hcovered n c hc hspace
      obtain ⟨families, hfamilies, -, hall⟩ := results.forall₂_exists_right hgroups hblock
      obtain ⟨found, hfound, hin⟩ := hall.covered n hstart hend c hc hspace
      exact ⟨found, List.mem_flatten_of_mem hfamilies hfound, hin⟩
  · intro found hfound event hevent
    obtain ⟨block, hblock, families, hfamilies, hall⟩ := hmem found hfound
    have hin := hall.bounds found hfamilies
    have hinside := (hgood block hblock).inside event hevent
    omega

/-- Two families lie apart. -/
theorem InFamilies.apart (h : InFamilies patterns value lo hi families)
    {found found' : Chunk × List Chunk} (hfound : found ∈ families) (hfound' : found' ∈ families)
    (hne : found ≠ found') :
    found.1.end_char ≤ found'.1.start_char ∨ found'.1.end_char ≤ found.1.start_char := by
  have hsymm : Std.Symm fun a b : Chunk × List Chunk =>
      a.1.end_char ≤ b.1.start_char ∨ b.1.end_char ≤ a.1.start_char := ⟨fun _ _ => Or.symm⟩
  have heither := h.ordered.imp fun {a b} hle => (Or.inl hle :
    a.1.end_char ≤ b.1.start_char ∨ b.1.end_char ≤ a.1.start_char)
  exact heither.forall hfound hfound' hne

/-- Families in order cover what they are in. -/
theorem InFamilies.covers {boundaries : List Boundary}
    (h : InFamilies patterns value 0 value.length families)
    (hbounded : ∀ found ∈ families, ∀ event ∈ block_events patterns value boundaries,
      event.1 ≤ found.1.start_char ∨ found.1.end_char ≤ event.1) :
    Covers patterns value boundaries (chunks_of families) := by
  have hin : ∀ c ∈ chunks_of families, ∃ found ∈ families, c ∈ found.1 :: found.2 ∧
      ChunkFamily value found.1 found.2 := by
    intro c hc
    obtain ⟨found, hfound, hc⟩ := mem_chunks_of.mp hc
    exact ⟨found, hfound, hc, h.family found hfound⟩
  constructor
  case texts =>
    intro c hc
    obtain ⟨found, -, hmem, hfamily⟩ := hin c hc
    exact hfamily.texts c hmem
  case covered =>
    intro n c hc hspace
    obtain ⟨hn, -⟩ := List.getElem?_eq_some_iff.mp hc
    obtain ⟨found, hfound, hstart, hend⟩ := h.covered n (Nat.zero_le n) hn c hc hspace
    cases hstandalone : found.1.standalone with
    | true =>
      refine ⟨found.1, mem_chunks_of.mpr ⟨found, hfound, List.mem_cons_self⟩, ?_⟩
      exact ⟨Or.inr hstandalone, hstart, hend⟩
    | false =>
      have hfamily := h.family found hfound
      obtain ⟨leaf, hleaf, hlower, hupper⟩ := hfamily.covered hstandalone n hstart hend
      refine ⟨leaf, mem_chunks_of.mpr ⟨found, hfound, List.mem_cons_of_mem _ hleaf⟩, ?_⟩
      exact ⟨Or.inl (hfamily.inside leaf hleaf).1, hlower, hupper⟩
  case leaves =>
    intro c hc hlevel
    obtain ⟨found, hfound, hmem, hfamily⟩ := hin c hc
    cases List.mem_cons.mp hmem with
    | inl htop =>
      rw [htop, hfamily.level] at hlevel
      cases hlevel
    | inr hleaf =>
      obtain ⟨-, hparent, hcontains, -⟩ := hfamily.inside c hleaf
      exact ⟨found.1, mem_chunks_of.mpr ⟨found, hfound, List.mem_cons_self⟩, hfamily.level,
        hparent, hcontains⟩
  case ordered =>
    rw [chunks_of_top h.family, List.pairwise_map]
    exact h.ordered
  case overlaps =>
    intro c hc c' hc' hoverlaps hnot hnot'
    obtain ⟨found, hfound, hmem, hfamily⟩ := hin c hc
    obtain ⟨found', hfound', hmem', hfamily'⟩ := hin c' hc'
    have hsame : found = found' := by
      by_contra hne
      have hapart := h.apart hfound hfound' hne
      have hbounds := hfamily.bounds hmem
      have hbounds' := hfamily'.bounds hmem'
      unfold Chunk.Overlaps at hoverlaps
      omega
    subst hsame
    have hleaf := hfamily.leaf_of_not_contains hmem hmem' hnot
    have hleaf' := hfamily.leaf_of_not_contains hmem' hmem hnot'
    obtain ⟨hlevel, hparent, hcontains, -⟩ := hfamily.inside c hleaf
    obtain ⟨hlevel', hparent', hcontains', -⟩ := hfamily.inside c' hleaf'
    exact ⟨hlevel, hlevel', found.1, mem_chunks_of.mpr ⟨found, hfound, List.mem_cons_self⟩,
      hfamily.level, hparent, hparent', hcontains, hcontains'⟩
  case bounded =>
    intro c hc event hevent
    obtain ⟨found, hfound, hmem, hfamily⟩ := hin c hc
    have hbounds := hfamily.bounds hmem
    have hapart := hbounded found hfound event hevent
    omega

/-- Chunking a text succeeds, and its chunks cover it within the boundaries of the profile. -/
theorem chunks_cover (patterns : Patterns) (encoding : Encoding)
    (content document checksum : String) (profile : DocumentProfile)
    (hpatterns : patterns.SeparatorEnds) (hoffsets : encoding.Offsets)
    (hdecode : encoding.DecodesBack) :
    ∃ chunks, build_chunks patterns encoding content document checksum profile = .ok chunks ∧
      Covers patterns content.toList profile.hard_boundaries chunks := by
  obtain ⟨chunks, hchunks⟩ :=
    @build_chunks_succeed patterns encoding document checksum content profile hdecode
  obtain ⟨families, rfl, hfamilies, hbounded⟩ :=
    build_chunks_families hpatterns hoffsets hdecode hchunks
  exact ⟨_, hchunks, hfamilies.covers hbounded⟩

theorem character_decodes_back : character_encoding.DecodesBack := by
  intro value
  simp only [character_encoding, List.map_map]
  exact List.map_id'' Char.ofNat_toNat value

theorem chunks_cover_long : ∃ chunks,
    build_chunks unbroken_patterns character_encoding (String.ofList (List.replicate 70 'a'))
      "law.md" "c" short_profile = .ok chunks ∧
    Covers unbroken_patterns (String.ofList (List.replicate 70 'a')).toList [.page] chunks :=
  chunks_cover _ _ _ _ _ short_profile unbroken_separator_ends character_encoding_offsets
    character_decodes_back

end lagraph.retrieval
