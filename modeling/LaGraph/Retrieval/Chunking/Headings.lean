import LaGraph.Foundation.Outlines
import LaGraph.Retrieval.Chunking.Pages

open foundation

namespace lagraph.retrieval

/-- `s.strip()`. -/
def strip (is_space : Char → Bool) (s : List Char) : List Char :=
  ((s.dropWhile is_space).reverse.dropWhile is_space).reverse

/-- The match of `^(#{1,6})\s+(.+?)\s*$` in a line without line feeds: the depth and the title
without the blanks around it. The first run of number signs is the whole group, since a
blank follows it; the blanks behind give way to a title that is blank itself. -/
def HEADING (is_space : Char → Bool) (line : List Char) : Option (Nat × String) :=
  let depth := (line.takeWhile (· = '#')).length
  match line.drop depth with
  | c :: title =>
    if 1 ≤ depth ∧ depth ≤ 6 ∧ is_space c ∧ title ≠ [] then
      some (depth, String.ofList (strip is_space title))
    else none
  | [] => none

/-- The patterns with the one for Markdown headings. -/
def Patterns.with_headings (patterns : Patterns) : Patterns :=
  { patterns with heading := HEADING patterns.is_space }

/-- The headings at or before a position with their levels. -/
def headings_at (patterns : Patterns) (value : List Char) (position : Nat) :
    List (Nat × String) :=
  ((line_starts 0 (split_lines value [])).filter (·.1 ≤ position)).filterMap fun start =>
    patterns.heading (line_text start.2)

variable {patterns : Patterns} {encoding : Encoding} {value : List Char}
  {boundaries : List Boundary}

theorem HEADING_depth {is_space : Char → Bool} {line : List Char} {found : Nat × String}
    (h : HEADING is_space line = some found) : 0 < found.1 := by
  simp only [HEADING] at h
  split at h
  case h_1 =>
    split_ifs at h with hmatch
    cases h
    exact hmatch.1
  case h_2 => cases h

/-- Events other than headings leave the path alone. -/
theorem foldl_line_headings (hheadings : .markdown_heading ∈ boundaries) (line : List Char)
    {state : BlockState} {path : List (Nat × String)} (hpath : state.headings = path.map (·.2)) :
    ((events_of_line patterns boundaries line).foldl BlockState.apply state).headings =
      (((patterns.heading (line_text line)).toList).foldl outlines.place path).map (·.2) := by
  have harticles (l : List String) (state : BlockState) :
      ((l.map Event.article).foldl BlockState.apply state).headings = state.headings := by
    induction l generalizing state with
    | nil => rfl
    | cons number l ih => exact ih _
  have hlast (state : BlockState) : ((if .legal_article ∈ boundaries then
      (patterns.article (line_text line)).toList.map fun number => Event.article number
      else []).foldl BlockState.apply state).headings = state.headings := by
    split_ifs
    · exact harticles _ state
    · rfl
  rw [events_of_line, if_pos hheadings, List.foldl_append, hlast]
  cases patterns.heading (line_text line) with
  | none => exact hpath
  | some found =>
    simp only [Option.toList_some, List.map_cons, List.map_nil, List.foldl_cons, List.foldl_nil,
      BlockState.apply, outlines.place, hpath, List.map_append, List.map_take]

theorem foldl_lines_headings (hheadings : .markdown_heading ∈ boundaries)
    (starts : List (Nat × List Char)) {state : BlockState} {path : List (Nat × String)}
    (hpath : state.headings = path.map (·.2)) :
    ((starts.flatMap fun start => events_of_line patterns boundaries start.2).foldl
        BlockState.apply state).headings =
      ((starts.filterMap fun start => patterns.heading (line_text start.2)).foldl outlines.place
        path).map (·.2) := by
  induction starts generalizing state path with
  | nil => exact hpath
  | cons start starts ih =>
    rw [List.flatMap_cons, List.foldl_append, ih (foldl_line_headings hheadings start.2 hpath),
      List.filterMap_cons]
    cases patterns.heading (line_text start.2) with
    | none => rfl
    | some found => rfl

/-- The headings of the context are the path by places. -/
theorem context_headings (hheadings : .markdown_heading ∈ boundaries) (n : Nat) :
    (context (block_events patterns value boundaries) (n + 1)).headings =
      (outlines.placed (headings_at patterns value n)).map (·.2) := by
  have hsorted := @line_starts_sorted (split_lines value []) 0 (ne_nil_of_mem_split_lines value [])
  have hevents (n : Nat) (state : BlockState) :
      ((events_at (block_events patterns value boundaries) n).foldl
        BlockState.apply state).headings =
      ((((line_starts 0 (split_lines value [])).filter (·.1 = n)).flatMap fun start =>
        events_of_line patterns boundaries start.2).foldl BlockState.apply
        ((if .page ∈ boundaries ∧ 0 < n ∧ value[n - 1]? = some '\x0c' then [Event.page]
          else []).foldl BlockState.apply state)).headings := by
    rw [block_events, events_at_append, events_at_lines, List.foldl_append]
    by_cases hpages : .page ∈ boundaries
    · rw [if_pos hpages, events_at_pages]
      simp only [hpages, true_and]
    · rw [if_neg hpages]
      simp only [hpages, false_and, if_false]
      rfl
  have hpage (n : Nat) (state : BlockState) :
      ((if .page ∈ boundaries ∧ 0 < n ∧ value[n - 1]? = some '\x0c' then [Event.page]
        else []).foldl BlockState.apply state).headings = state.headings := by
    split_ifs
    · rfl
    · rfl
  induction n with
  | zero =>
    have hfirst : headings_at patterns value 0 =
        ((line_starts 0 (split_lines value [])).filter (·.1 = 0)).filterMap fun start =>
          patterns.heading (line_text start.2) := by
      simp only [headings_at, Nat.le_zero]
    have hstart : ((if .page ∈ boundaries ∧ 0 < 0 ∧ value[0 - 1]? = some '\x0c' then [Event.page]
        else []).foldl BlockState.apply
          (context (block_events patterns value boundaries) 0)).headings =
        ([] : List (Nat × String)).map (·.2) := hpage 0 .init
    rw [context, hevents, foldl_lines_headings hheadings _ hstart, hfirst, outlines.placed]
  | succ n ih =>
    have hnext : headings_at patterns value (n + 1) = headings_at patterns value n ++
        ((line_starts 0 (split_lines value [])).filter (·.1 = n + 1)).filterMap fun start =>
          patterns.heading (line_text start.2) := by
      have hsplit := filter_le_succ hsorted (fun _ => true) n
      simp only [and_true] at hsplit
      rw [headings_at, hsplit, List.filterMap_append]
      rfl
    have hstate :=
      (hpage (n + 1) (context (block_events patterns value boundaries) (n + 1))).trans ih
    rw [context, hevents, foldl_lines_headings hheadings _ hstate, hnext, outlines.placed,
      outlines.placed, List.foldl_append]

/-- A chunk has the outline path of its position exactly when no heading up to it is stale
there. -/
theorem chunk_outline_iff (hpatterns : patterns.SeparatorEnds) (hoffsets : encoding.Offsets)
    {content document checksum : String} {profile : DocumentProfile} {chunks : List Chunk}
    (hheadings : .markdown_heading ∈ profile.hard_boundaries)
    (h : build_chunks patterns.with_headings encoding content document checksum profile =
      .ok chunks) :
    ∀ c ∈ chunks, c.section_path = (outlines.outline
        (headings_at patterns.with_headings content.toList c.start_char)).map (·.2) ↔
      ¬outlines.Stale
        ((headings_at patterns.with_headings content.toList c.start_char).map (·.1)) := by
  intro c hc
  have hends : patterns.with_headings.SeparatorEnds := ⟨hpatterns.sorted, hpatterns.le⟩
  have hlevels : ∀ found ∈ headings_at patterns.with_headings content.toList c.start_char,
      0 < found.1 := by
    intro found hfound
    obtain ⟨start, -, hmatch⟩ := List.mem_filterMap.mp hfound
    exact HEADING_depth hmatch
  obtain ⟨-, hpath, -⟩ := chunk_context hends hoffsets h hc
  rw [hpath, context_headings hheadings, outlines.placed_eq_outline_iff hlevels,
    outlines.placed_increasing_iff hlevels]

theorem unbroken_separator_ends : unbroken_patterns.SeparatorEnds :=
  ⟨fun _ _ => List.Pairwise.nil, fun _ _ _ h => absurd h List.not_mem_nil⟩

def markdown_profile : DocumentProfile :=
  { short_profile with hard_boundaries := [.markdown_heading] }

/-- A level is skipped, and a heading of the same level follows. -/
def skipping_text : String := "# A\n### B\n### D\n"

def skipping_chunks : Except String (List Chunk) :=
  build_chunks unbroken_patterns.with_headings character_encoding skipping_text "law.md" "c"
    markdown_profile

/-- The section before the skipped level is left keeps its outline path. -/
theorem chunk_outline_skipping : ∃ chunks, skipping_chunks = .ok chunks ∧ ∃ c ∈ chunks,
    c.section_path = ["A", "B"] ∧ (c.section_path = (outlines.outline (headings_at
      unbroken_patterns.with_headings skipping_text.toList c.start_char)).map (·.2) ↔
      ¬outlines.Stale ((headings_at unbroken_patterns.with_headings skipping_text.toList
        c.start_char).map (·.1))) := by
  have hrun : ∃ chunks ∈ skipping_chunks.toOption, ∃ c ∈ chunks, c.section_path = ["A", "B"] := by
    decide +kernel
  obtain ⟨chunks, hchunks, c, hc, hpath⟩ := hrun
  rw [results.mem_toOption] at hchunks
  exact ⟨chunks, hchunks, c, hc, hpath, chunk_outline_iff unbroken_separator_ends
    character_encoding_offsets (List.mem_singleton_self _) hchunks c hc⟩

/-- The heading of the skipped level stays in the path of the next one. -/
theorem skipped_level_stays : ¬∀ (patterns : Patterns) (encoding : Encoding)
    (content document checksum : String) (profile : DocumentProfile) (chunks : List Chunk),
    patterns.SeparatorEnds → encoding.Offsets → .markdown_heading ∈ profile.hard_boundaries →
    build_chunks patterns.with_headings encoding content document checksum profile = .ok chunks →
    ∀ c ∈ chunks, c.section_path = (outlines.outline
      (headings_at patterns.with_headings content.toList c.start_char)).map (·.2) := by
  intro h
  have hrun : ∃ chunks ∈ skipping_chunks.toOption, ∃ c ∈ chunks,
      c.section_path = ["A", "B", "D"] ∧ (outlines.outline (headings_at
        unbroken_patterns.with_headings skipping_text.toList c.start_char)).map (·.2) =
          ["A", "D"] := by decide +kernel
  obtain ⟨chunks, hchunks, c, hc, hpath, houtline⟩ := hrun
  rw [results.mem_toOption] at hchunks
  have hsame := h _ _ _ _ _ _ _ unbroken_separator_ends character_encoding_offsets
    (List.mem_singleton_self _) hchunks c hc
  rw [hpath, houtline] at hsame
  exact absurd hsame (by decide)

end lagraph.retrieval
