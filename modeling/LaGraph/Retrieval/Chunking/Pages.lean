import LaGraph.Retrieval.Chunking.Families
import LaGraph.Retrieval.Haystack.Scope

open foundation

namespace lagraph.retrieval

/-- The lines at or before a position that start on its page. -/
def lines_of_page (value : List Char) (position : Nat) : List (Nat × List Char) :=
  (line_starts 0 (split_lines value [])).filter fun start =>
    start.1 ≤ position ∧ feeds value start.1 = feeds value position

/-- The article that the last of these lines mentions that mentions one. -/
def article_at (patterns : Patterns) (value : List Char) (position : Nat) : Option String :=
  ((lines_of_page value position).filterMap fun start =>
    patterns.article (line_text start.2)).getLast?

section Sorted

/-- Selecting the next position from a sorted list appends what is there. -/
theorem filter_le_succ {α : Type} {l : List (Nat × α)} (h : l.Pairwise fun a b => a.1 < b.1)
    (keep : Nat × α → Bool) (n : Nat) :
    l.filter (fun a => a.1 ≤ n + 1 ∧ keep a) =
      l.filter (fun a => a.1 ≤ n ∧ keep a) ++ l.filter (fun a => a.1 = n + 1 ∧ keep a) := by
  induction l with
  | nil => rfl
  | cons a l ih =>
    obtain ⟨hless, hl⟩ := List.pairwise_cons.mp h
    by_cases hbefore : a.1 ≤ n
    · have hle : a.1 ≤ n + 1 := by omega
      have hne : a.1 ≠ n + 1 := by omega
      rw [List.filter_cons, List.filter_cons, List.filter_cons, ih hl]
      simp only [hbefore, hle, hne, true_and, false_and, decide_false, Bool.false_eq_true, if_false]
      split_ifs
      · rfl
      · rfl
    · have hnone : (a :: l).filter (fun a => a.1 ≤ n ∧ keep a) = [] := by
        rw [List.filter_eq_nil_iff]
        intro b hb
        have hb' : a.1 ≤ b.1 := by
          cases List.mem_cons.mp hb with
          | inl hsame => rw [hsame]
          | inr hb => exact (hless b hb).le
        simp only [decide_eq_true_eq, not_and]
        omega
      have hsame : (a :: l).filter (fun a => a.1 ≤ n + 1 ∧ keep a) =
          (a :: l).filter (fun a => a.1 = n + 1 ∧ keep a) := by
        apply List.filter_congr
        intro b hb
        have hb' : a.1 ≤ b.1 := by
          cases List.mem_cons.mp hb with
          | inl hsame => rw [hsame]
          | inr hb => exact (hless b hb).le
        have hiff : b.1 ≤ n + 1 ↔ b.1 = n + 1 := by omega
        simp only [hiff]
      rw [hnone, hsame, List.nil_append]

end Sorted

variable {patterns : Patterns} {encoding : Encoding} {value : List Char}
  {boundaries : List Boundary} {state : BlockState}

theorem feeds_succ (n : Nat) :
    feeds value (n + 1) = feeds value n + if value[n]? = some '\x0c' then 1 else 0 := by
  rw [feeds, feeds, List.take_add_one, List.count_append]
  cases value[n]? with
  | none => rfl
  | some c =>
    rw [Option.toList_some, List.count_singleton]
    simp only [beq_iff_eq, Option.some.injEq]

theorem feeds_mono {m n : Nat} (h : m ≤ n) : feeds value m ≤ feeds value n := by
  induction n, h using Nat.le_induction with
  | base => exact le_refl _
  | succ n _ ih =>
    rw [feeds_succ]
    omega

theorem events_at_append {events events' : List (Nat × Event)} (n : Nat) :
    events_at (events ++ events') n = events_at events n ++ events_at events' n := by
  simp only [events_at, List.filter_append, List.map_append]

theorem events_at_cons (event : Nat × Event) (events : List (Nat × Event)) (n : Nat) :
    events_at (event :: events) n =
      (if event.1 = n then [event.2] else []) ++ events_at events n := by
  simp only [events_at, List.filter_cons, decide_eq_true_eq]
  split_ifs
  · rfl
  · rfl

theorem events_at_pages (n : Nat) : events_at (page_events value) n =
    if 0 < n ∧ value[n - 1]? = some '\x0c' then [.page] else [] := by
  have hzip (start : Nat) : events_at ((value.zipIdx (start + 1)).filterMap fun item =>
      if item.1 = '\x0c' then some (item.2, Event.page) else none) n =
      if start < n ∧ value[n - start - 1]? = some '\x0c' then [.page] else [] := by
    induction value generalizing start with
    | nil => simp [events_at]
    | cons c value ih =>
      have hrest := ih (start + 1)
      rw [List.zipIdx_cons, List.filterMap_cons]
      by_cases hhere : n = start + 1
      · have hindex : n - start - 1 = 0 := by omega
        have hnone : ¬start + 1 < n := by omega
        simp only [hnone, false_and, if_false] at hrest
        rw [hindex, List.getElem?_cons_zero]
        by_cases hfeed : c = '\x0c'
        · simp only [hfeed, if_true]
          rw [events_at_cons, hrest, if_pos hhere.symm, if_pos ⟨by omega, trivial⟩]
          rfl
        · have hne : ¬(start < n ∧ some c = some '\x0c') := fun h => hfeed (Option.some.inj h.2)
          simp only [hfeed, if_false]
          rw [hrest, if_neg hne]
      · have hskip : events_at ((value.zipIdx (start + 1 + 1)).filterMap fun item =>
            if item.1 = '\x0c' then some (item.2, Event.page) else none) n =
            if start < n ∧ (c :: value)[n - start - 1]? = some '\x0c' then [.page] else [] := by
          rw [hrest]
          by_cases hlt : start < n
          · have hindex : n - start - 1 = n - (start + 1) - 1 + 1 := by omega
            have hlt' : start + 1 < n := by omega
            rw [hindex, List.getElem?_cons_succ]
            simp only [hlt, hlt']
          · have hlt' : ¬start + 1 < n := by omega
            simp only [hlt, hlt', false_and]
        by_cases hfeed : c = '\x0c'
        · simp only [hfeed, if_true] at hskip ⊢
          rw [events_at_cons, if_neg (Ne.symm hhere), List.nil_append, hskip]
        · simp only [hfeed, if_false]
          exact hskip
  exact hzip 0

/-- The events of the lines that start at a position. -/
theorem events_at_lines (n : Nat) (lines : List (List Char)) (position : Nat) :
    events_at (line_events patterns boundaries position lines) n =
      ((line_starts position lines).filter (·.1 = n)).flatMap fun start =>
        events_of_line patterns boundaries start.2 := by
  rw [line_events_eq]
  induction line_starts position lines with
  | nil => rfl
  | cons start starts ih =>
    rw [List.flatMap_cons, events_at_append, ih, List.filter_cons]
    by_cases hsame : start.1 = n
    · simp [events_at, hsame, List.filter_map, Function.comp_def]
    · simp [events_at, hsame, List.filter_map, Function.comp_def]

/-- Headings change neither page nor article. -/
theorem foldl_headings (l : List Event)
    (hl : ∀ event ∈ l, ∃ depth title, event = .heading depth title) (state : BlockState) :
    (l.foldl BlockState.apply state).page = state.page ∧
      (l.foldl BlockState.apply state).article = state.article := by
  induction l generalizing state with
  | nil => exact ⟨rfl, rfl⟩
  | cons event l ih =>
    obtain ⟨depth, title, rfl⟩ := hl _ List.mem_cons_self
    exact ih (fun event hevent => hl event (List.mem_cons_of_mem _ hevent)) _

theorem foldl_line (harticles : .legal_article ∈ boundaries) (line : List Char)
    (state : BlockState) :
    ((events_of_line patterns boundaries line).foldl BlockState.apply state).page = state.page ∧
      ((events_of_line patterns boundaries line).foldl BlockState.apply state).article =
        (patterns.article (line_text line)).or state.article := by
  rw [events_of_line, if_pos harticles, List.foldl_append]
  obtain ⟨hpage, harticle⟩ := foldl_headings (if .markdown_heading ∈ boundaries then
      (patterns.heading (line_text line)).toList.map fun found => Event.heading found.1 found.2
    else []) (by
      intro event hevent
      split_ifs at hevent
      · obtain ⟨found, -, rfl⟩ := List.mem_map.mp hevent
        exact ⟨_, _, rfl⟩
      · cases hevent) state
  cases patterns.article (line_text line) with
  | none => exact ⟨hpage, harticle⟩
  | some number => exact ⟨hpage, rfl⟩

/-- The events of lines in turn. -/
theorem foldl_lines (harticles : .legal_article ∈ boundaries) (starts : List (Nat × List Char))
    (state : BlockState) :
    ((starts.flatMap fun start => events_of_line patterns boundaries start.2).foldl
        BlockState.apply state).page = state.page ∧
      ((starts.flatMap fun start => events_of_line patterns boundaries start.2).foldl
        BlockState.apply state).article =
          ((starts.filterMap fun start => patterns.article (line_text start.2)).getLast?).or
            state.article := by
  induction starts generalizing state with
  | nil => exact ⟨rfl, rfl⟩
  | cons start starts ih =>
    obtain ⟨hpage, harticle⟩ := foldl_line harticles start.2 state
    obtain ⟨hpage', harticle'⟩ := ih
      ((events_of_line patterns boundaries start.2).foldl BlockState.apply state)
    rw [List.flatMap_cons, List.foldl_append, hpage', harticle', hpage, harticle]
    refine ⟨rfl, ?_⟩
    rw [List.filterMap_cons]
    cases patterns.article (line_text start.2) with
    | none => rw [Option.none_or]
    | some number =>
      dsimp only
      rw [List.getLast?_cons]
      cases (starts.filterMap fun start => patterns.article (line_text start.2)).getLast? with
      | none => rfl
      | some last => rfl

/-- The articles of a page after one more position. -/
theorem article_at_succ (n : Nat) : article_at patterns value (n + 1) =
    ((((line_starts 0 (split_lines value [])).filter (·.1 = n + 1)).filterMap fun start =>
      patterns.article (line_text start.2)).getLast?).or
      (if value[n]? = some '\x0c' then none else article_at patterns value n) := by
  have hsorted := @line_starts_sorted (split_lines value []) 0 (ne_nil_of_mem_split_lines value [])
  have hnext : (line_starts 0 (split_lines value [])).filter (fun start => start.1 = n + 1 ∧
        (feeds value start.1 = feeds value (n + 1) : Bool)) =
      (line_starts 0 (split_lines value [])).filter (·.1 = n + 1) := by
    apply List.filter_congr
    intro start _
    simp only [decide_eq_true_eq, decide_eq_decide, and_iff_left_iff_imp]
    intro hstart
    rw [hstart]
  have hsplit := filter_le_succ hsorted
    (fun start => (feeds value start.1 = feeds value (n + 1) : Bool)) n
  rw [hnext] at hsplit
  by_cases hfeed : value[n]? = some '\x0c'
  · have hnone : (line_starts 0 (split_lines value [])).filter (fun start => start.1 ≤ n ∧
        (feeds value start.1 = feeds value (n + 1) : Bool)) = [] := by
      rw [List.filter_eq_nil_iff]
      intro start _
      simp only [decide_eq_true_eq, not_and]
      intro hle hsame
      have hmono := @feeds_mono value _ _ hle
      rw [hsame, feeds_succ, if_pos hfeed] at hmono
      omega
    rw [if_pos hfeed, Option.or_none, article_at, lines_of_page]
    simp only [decide_eq_true_eq] at hsplit hnone
    rw [hsplit, hnone, List.nil_append]
  · have hsame : feeds value (n + 1) = feeds value n := by
      rw [feeds_succ, if_neg hfeed, Nat.add_zero]
    rw [if_neg hfeed, article_at, article_at, lines_of_page, lines_of_page]
    simp only [decide_eq_true_eq] at hsplit
    rw [hsplit, hsame, List.filterMap_append, List.getLast?_append]

/-- Page and article of the context. -/
theorem context_page (hpages : .page ∈ boundaries) (harticles : .legal_article ∈ boundaries)
    (n : Nat) :
    (context (block_events patterns value boundaries) (n + 1)).page = 1 + feeds value n ∧
      (context (block_events patterns value boundaries) (n + 1)).article =
        article_at patterns value n := by
  have hevents (n : Nat) : events_at (block_events patterns value boundaries) n =
      (if 0 < n ∧ value[n - 1]? = some '\x0c' then [.page] else []) ++
        ((line_starts 0 (split_lines value [])).filter (·.1 = n)).flatMap fun start =>
          events_of_line patterns boundaries start.2 := by
    rw [block_events, if_pos hpages, events_at_append, events_at_pages, events_at_lines]
  induction n with
  | zero =>
    have hfirst : lines_of_page value 0 =
        (line_starts 0 (split_lines value [])).filter (·.1 = 0) := by
      apply List.filter_congr
      intro start _
      simp only [Nat.le_zero, decide_eq_decide, and_iff_left_iff_imp]
      intro hstart
      rw [hstart]
    obtain ⟨hpage, harticle⟩ := @foldl_lines patterns boundaries harticles
      ((line_starts 0 (split_lines value [])).filter (·.1 = 0)) .init
    rw [context, hevents, article_at, hfirst]
    exact ⟨hpage, harticle.trans Option.or_none⟩
  | succ n ih =>
    rw [context, hevents, List.foldl_append, article_at_succ, feeds_succ]
    simp only [Nat.zero_lt_succ, true_and, Nat.add_one_sub_one]
    by_cases hfeed : value[n]? = some '\x0c'
    · obtain ⟨hpage, harticle⟩ := @foldl_lines patterns boundaries harticles
        ((line_starts 0 (split_lines value [])).filter (·.1 = n + 1))
        ((context (block_events patterns value boundaries) (n + 1)).apply .page)
      simp only [if_pos hfeed, List.foldl_cons, List.foldl_nil]
      exact ⟨hpage.trans (congrArg (· + 1) ih.1), harticle⟩
    · obtain ⟨hpage, harticle⟩ := @foldl_lines patterns boundaries harticles
        ((line_starts 0 (split_lines value [])).filter (·.1 = n + 1))
        (context (block_events patterns value boundaries) (n + 1))
      simp only [if_neg hfeed, List.foldl_nil, Nat.add_zero]
      rw [← ih.2]
      exact ⟨hpage.trans ih.1, harticle⟩

/-- Every chunk has the page it starts on and the article that the last line up to its start
mentions that is on this page and mentions one. -/
theorem chunk_page (hpatterns : patterns.SeparatorEnds) (hoffsets : encoding.Offsets)
    {content document checksum : String} {profile : DocumentProfile} {chunks : List Chunk}
    (hpages : .page ∈ profile.hard_boundaries)
    (harticles : .legal_article ∈ profile.hard_boundaries)
    (h : build_chunks patterns encoding content document checksum profile = .ok chunks) :
    ∀ c ∈ chunks, c.page_number = some (1 + feeds content.toList c.start_char) ∧
      c.article = article_at patterns content.toList c.start_char := by
  intro c hc
  obtain ⟨hpage, -, harticle⟩ := chunk_context hpatterns hoffsets h hc
  obtain ⟨hpage', harticle'⟩ := @context_page patterns content.toList _ hpages harticles c.start_char
  rw [hpage, harticle, if_pos hpages, hpage', harticle']
  exact ⟨rfl, rfl⟩

theorem character_encoding_offsets : character_encoding.Offsets where
  length_eq := by simp [Encoding.offsets, character_encoding]
  sorted := by
    intro value
    simp only [Encoding.offsets, character_encoding]
    exact List.pairwise_lt_range.imp Nat.le_of_lt
  head := by
    intro value hvalue
    have hpos := List.length_pos_iff.mpr hvalue
    simp only [Encoding.offsets]
    change (List.range (character_encoding.encode value).length).getD 0 0 = 0
    rw [List.getD_eq_getElem?_getD, List.getElem?_range hpos, Option.getD_some]
  inside := by
    intro value _ offset hoffset
    simpa [Encoding.offsets, character_encoding] using hoffset

/-- Lines that begin with an article. -/
def article_patterns : Patterns :=
  { unbroken_patterns with
    is_space := fun c => c.isWhitespace || c = '\x0c'
    article := fun line =>
      if "ARTICULO ".toList.isPrefixOf line then
        some (String.ofList ((line.drop 9).takeWhile Char.isDigit))
      else none }

theorem article_separator_ends : article_patterns.SeparatorEnds :=
  ⟨fun _ _ => List.Pairwise.nil, fun _ _ _ h => absurd h List.not_mem_nil⟩

def legal_profile : DocumentProfile :=
  { short_profile with hard_boundaries := [.page, .legal_article] }

/-- An empty page, and a page whose article starts behind its first line. -/
theorem chunk_page_legal : ∃ chunks,
    build_chunks article_patterns character_encoding "ARTICULO 1\nuno\x0c\x0cdos\nARTICULO 2 tres" "law.md"
      "c" legal_profile = .ok chunks ∧
    chunks.map (fun c => (c.page_number, c.article)) =
      [(some 1, some "1"), (some 3, none), (some 3, some "2")] ∧
    ∀ c ∈ chunks, c.page_number = some (1 + feeds
        "ARTICULO 1\nuno\x0c\x0cdos\nARTICULO 2 tres".toList c.start_char) ∧
      c.article = article_at article_patterns "ARTICULO 1\nuno\x0c\x0cdos\nARTICULO 2 tres".toList
        c.start_char := by
  have hrun : ∃ chunks ∈ (build_chunks article_patterns character_encoding
      "ARTICULO 1\nuno\x0c\x0cdos\nARTICULO 2 tres" "law.md" "c" legal_profile).toOption,
      chunks.map (fun c => (c.page_number, c.article)) =
        [(some 1, some "1"), (some 3, none), (some 3, some "2")] := by decide +kernel
  obtain ⟨chunks, hchunks, hplaces⟩ := hrun
  rw [results.mem_toOption] at hchunks
  refine ⟨chunks, hchunks, hplaces, ?_⟩
  apply chunk_page article_separator_ends character_encoding_offsets _ _ hchunks
  · decide
  · decide

end lagraph.retrieval
