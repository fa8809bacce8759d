import LaGraph.Retrieval.Chunking.Blocks

open foundation

namespace lagraph.retrieval

/-- The lines behind a position, each with the position where it starts. -/
def line_starts : Nat → List (List Char) → List (Nat × List Char)
  | _, [] => []
  | position, line :: rest => (position, line) :: line_starts (position + line.length) rest

/-- `line.rstrip("\n\r\f")`. -/
def line_text (line : List Char) : List Char :=
  (line.reverse.dropWhile (· ∈ ['\n', '\r', '\x0c'])).reverse

/-- The form feeds before a position. -/
def feeds (value : List Char) (position : Nat) : Nat :=
  (value.take position).count '\x0c'

section Lines

variable {value line : List Char} {lines : List (List Char)} {position : Nat}

/-- The lines of a text make up the text. -/
theorem split_lines_flatten (value line : List Char) :
    (split_lines value line).flatten = line.reverse ++ value := by
  fun_induction split_lines value line with
  | case1 => rfl
  | case2 line hline => rw [List.flatten_singleton, List.append_nil]
  | case3 rest line ih =>
    rw [List.flatten_cons, ih, List.reverse_cons, List.reverse_cons]
    simp only [List.append_assoc, List.reverse_nil, List.nil_append, List.cons_append]
  | case4 c line rest hpair hbreak ih =>
    rw [List.flatten_cons, ih, List.reverse_cons, List.append_assoc]
    rfl
  | case5 line c rest hpair hinside ih => rw [ih, List.reverse_cons, List.append_assoc,
      List.singleton_append]

theorem ne_nil_of_mem_split_lines (value line : List Char) : [] ∉ split_lines value line := by
  fun_induction split_lines value line with
  | case1 => simp
  | case2 line hline =>
    rw [List.mem_singleton]
    intro hempty
    exact hline (List.reverse_eq_nil_iff.mp hempty.symm)
  | case3 rest line ih => simpa using ih
  | case4 c line rest hpair hbreak ih => simpa using ih
  | case5 c line rest hpair hinside ih => exact ih

/-- Lines start between the position of the first one and the end of the text. -/
theorem line_starts_bounds {start : Nat × List Char} (h : start ∈ line_starts position lines) :
    position ≤ start.1 ∧ start.1 + start.2.length ≤ position + lines.flatten.length := by
  induction lines generalizing position with
  | nil => cases h
  | cons line lines ih =>
    rw [List.flatten_cons, List.length_append]
    cases List.mem_cons.mp h with
    | inl hfirst =>
      rw [hfirst]
      dsimp only
      exact ⟨le_refl _, by omega⟩
    | inr hrest =>
      obtain ⟨hlower, hupper⟩ := ih hrest
      exact ⟨by omega, by omega⟩

/-- Lines start in order, none where another does. -/
theorem line_starts_sorted (hlines : [] ∉ lines) :
    (line_starts position lines).Pairwise fun a b => a.1 < b.1 := by
  induction lines generalizing position with
  | nil => exact List.Pairwise.nil
  | cons line lines ih =>
    rw [List.mem_cons, not_or] at hlines
    rw [line_starts, List.pairwise_cons]
    refine ⟨?_, ih hlines.2⟩
    intro start hstart
    have hbounds := line_starts_bounds hstart
    have hpos := List.length_pos_iff.mpr (Ne.symm hlines.1)
    dsimp only
    omega

end Lines

section Events

variable {patterns : Patterns} {value : List Char} {boundaries : List Boundary}

/-- The events at the start of a line. -/
def events_of_line (patterns : Patterns) (boundaries : List Boundary) (line : List Char) :
    List Event :=
  (if .markdown_heading ∈ boundaries then
      (patterns.heading (line_text line)).toList.map fun found => Event.heading found.1 found.2
    else []) ++
  if .legal_article ∈ boundaries then
      (patterns.article (line_text line)).toList.map fun number => Event.article number
    else []

theorem line_events_eq (position : Nat) (lines : List (List Char)) :
    line_events patterns boundaries position lines =
      (line_starts position lines).flatMap fun start =>
        (events_of_line patterns boundaries start.2).map fun event => (start.1, event) := by
  induction lines generalizing position with
  | nil => rfl
  | cons line lines ih =>
    rw [line_starts, List.flatMap_cons, ← ih, line_events, events_of_line, List.map_append]
    split_ifs <;> simp [line_text, Function.comp_def]

theorem mem_page_events {event : Nat × Event} : event ∈ page_events value ↔
    ∃ n, value[n]? = some '\x0c' ∧ event = (n + 1, .page) := by
  simp only [page_events, List.mem_filterMap, Option.ite_none_right_eq_some, Prod.exists,
    List.mk_mem_zipIdx_iff_le_and_getElem?_sub, Option.some.injEq]
  constructor
  · rintro ⟨c, n, ⟨hn, hc⟩, rfl, rfl⟩
    exact ⟨n - 1, hc, by rw [Nat.sub_add_cancel hn]⟩
  · rintro ⟨n, hn, rfl⟩
    exact ⟨'\x0c', n + 1, ⟨by omega, hn⟩, rfl, rfl⟩

/-- No event is behind the end of the text. -/
theorem block_events_le {event : Nat × Event}
    (h : event ∈ block_events patterns value boundaries) : event.1 ≤ value.length := by
  rw [block_events, List.mem_append] at h
  cases h with
  | inl hpage =>
    split_ifs at hpage
    · obtain ⟨n, hn, rfl⟩ := mem_page_events.mp hpage
      obtain ⟨hlt, -⟩ := List.getElem?_eq_some_iff.mp hn
      exact hlt
    · cases hpage
  | inr hline =>
    rw [line_events_eq, List.mem_flatMap] at hline
    obtain ⟨start, hstart, hevent⟩ := hline
    obtain ⟨found, -, rfl⟩ := List.mem_map.mp hevent
    have hbounds := (line_starts_bounds hstart).2
    rw [split_lines_flatten] at hbounds
    simp only [List.reverse_nil, List.nil_append] at hbounds
    dsimp only
    omega

variable {profile : DocumentProfile}

/-- The blocks of a text are good, in order, and cover what is not blank. -/
theorem structural_blocks_good :
    (∀ block ∈ structural_blocks patterns value profile, GoodBlock value profile.hard_boundaries
        (block_events patterns value profile.hard_boundaries) block) ∧
      (structural_blocks patterns value profile).Pairwise (fun a b => a.stop ≤ b.start) ∧
      ∀ n, ∀ c ∈ value[n]?, patterns.is_space c = false →
        ∃ block ∈ structural_blocks patterns value profile, block.start ≤ n ∧ n < block.stop := by
  have hstart := @LoopInvariant.start patterns value profile.hard_boundaries
    (block_events patterns value profile.hard_boundaries) fun event => block_events_le
  obtain ⟨lower, hloop⟩ := hstart.rounds
  obtain ⟨hgood, hordered, hcovered⟩ := hloop.flush hloop.start_le (le_refl _)
    fun p hp => absurd hp List.not_mem_nil
  rw [structural_blocks_eq]
  refine ⟨fun block hblock => (hgood block hblock).1, hordered, ?_⟩
  intro n c hc
  obtain ⟨hn, -⟩ := List.getElem?_eq_some_iff.mp hc
  exact hcovered n hn c hc

/-- Inside a block the context does not change. -/
theorem GoodBlock.context_eq {events : List (Nat × Event)} {block : StructuralBlock} {n : Nat}
    (h : GoodBlock value boundaries events block) (hstart : block.start ≤ n)
    (hstop : n < block.stop) : context events (n + 1) = context events (block.start + 1) := by
  apply retrieval.context_eq (by omega)
  intro event hevent
  have hinside := h.inside event hevent
  omega

end Events

end lagraph.retrieval
