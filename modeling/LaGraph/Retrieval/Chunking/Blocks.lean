import LaGraph.Retrieval.Chunking

open foundation

namespace lagraph.retrieval

variable (patterns : Patterns)

/-- The events of a text with their positions. -/
def block_events (value : List Char) (boundaries : List Boundary) : List (Nat × Event) :=
  (if .page ∈ boundaries then page_events value else []) ++
    line_events patterns boundaries 0 (split_lines value [])

def events_at (events : List (Nat × Event)) (position : Nat) : List Event :=
  (events.filter (·.1 = position)).map (·.2)

/-- Where the loop starts. -/
def BlockState.init : BlockState :=
  ⟨1, [], none, 0, []⟩

/-- One round of the loop. -/
def BlockState.round (value : List Char) (boundaries : List Boundary)
    (events : List (Nat × Event)) (state : BlockState) (position : Nat) : BlockState :=
  (events_at events position).foldl BlockState.apply
    (state.flush patterns value boundaries position)

/-- The page, headings and article after all events before a position. -/
def context (events : List (Nat × Event)) : Nat → BlockState
  | 0 => .init
  | n + 1 => (events_at events n).foldl BlockState.apply (context events n)

/-- Two states of the loop that differ in their blocks only. -/
structure BlockState.Agrees (state state' : BlockState) : Prop where
  page : state.page = state'.page
  headings : state.headings = state'.headings
  article : state.article = state'.article

/-- A block that carries what the events up to its start say, with no event inside it. -/
structure GoodBlock (value : List Char) (boundaries : List Boundary)
    (events : List (Nat × Event)) (block : StructuralBlock) : Prop where
  nonempty : block.start < block.stop
  stop_le : block.stop ≤ value.length
  inside : ∀ event ∈ events, event.1 ≤ block.start ∨ block.stop ≤ event.1
  page : block.page_number =
    if .page ∈ boundaries then some (context events (block.start + 1)).page else none
  headings : block.section_path = (context events (block.start + 1)).headings
  article : block.article = (context events (block.start + 1)).article

/-- Before the rounds of the positions left, the state has seen the events below `lower`, and its
blocks are good, in order, and cover what is not blank. -/
structure LoopInvariant (value : List Char) (boundaries : List Boundary)
    (events : List (Nat × Event)) (positions : List Nat) (lower : Nat) (state : BlockState) :
    Prop where
  lower_le : lower ≤ state.start + 1
  start_le : state.start ≤ value.length
  sorted : positions.Pairwise (· < ·)
  ahead : ∀ position ∈ positions, lower ≤ position ∧ state.start ≤ position ∧
    position ≤ value.length
  seen : ∀ event ∈ events, event.1 < lower ∨ event.1 ∈ positions
  agrees : ∀ n, lower ≤ n → (∀ position ∈ positions, n ≤ position) →
    state.Agrees (context events n)
  good : ∀ block ∈ state.blocks, GoodBlock value boundaries events block
  behind : ∀ block ∈ state.blocks, block.stop ≤ state.start
  ordered : state.blocks.Pairwise fun a b => a.stop ≤ b.start
  covered : ∀ n < state.start, ∀ c ∈ value[n]?, patterns.is_space c = false →
    ∃ block ∈ state.blocks, block.start ≤ n ∧ n < block.stop

variable {patterns} {value : List Char} {boundaries : List Boundary}
  {events : List (Nat × Event)} {positions : List Nat} {lower n position : Nat}
  {state state' : BlockState}

theorem structural_blocks_eq (profile : DocumentProfile) :
    structural_blocks patterns value profile =
      (((sorted.ofList ((block_events patterns value profile.hard_boundaries).map (·.1))).foldl
        (BlockState.round patterns value profile.hard_boundaries
          (block_events patterns value profile.hard_boundaries)) .init).flush patterns value
          profile.hard_boundaries value.length).blocks := rfl

theorem BlockState.Agrees.apply (h : state.Agrees state') (event : Event) :
    (state.apply event).Agrees (state'.apply event) := by
  obtain ⟨hpage, hheadings, harticle⟩ := h
  cases event with
  | page => exact ⟨congrArg (· + 1) hpage, hheadings, rfl⟩
  | heading depth title => exact ⟨hpage, by simp only [BlockState.apply, hheadings], harticle⟩
  | article number => exact ⟨hpage, hheadings, rfl⟩

theorem BlockState.Agrees.foldl (h : state.Agrees state') (l : List Event) :
    (l.foldl BlockState.apply state).Agrees (l.foldl BlockState.apply state') := by
  induction l generalizing state state' with
  | nil => exact h
  | cons event l ih => exact ih (h.apply event)

theorem BlockState.apply_blocks (state : BlockState) (event : Event) :
    (state.apply event).start = state.start ∧ (state.apply event).blocks = state.blocks := by
  cases event <;> exact ⟨rfl, rfl⟩

/-- The events of a position leave start and blocks alone. -/
theorem BlockState.foldl_blocks (state : BlockState) (l : List Event) :
    (l.foldl BlockState.apply state).start = state.start ∧
      (l.foldl BlockState.apply state).blocks = state.blocks := by
  induction l generalizing state with
  | nil => exact ⟨rfl, rfl⟩
  | cons event l ih =>
    obtain ⟨hstart, hblocks⟩ := ih (state.apply event)
    obtain ⟨hstart', hblocks'⟩ := state.apply_blocks event
    exact ⟨hstart.trans hstart', hblocks.trans hblocks'⟩

theorem events_at_eq_nil (h : ∀ event ∈ events, event.1 ≠ n) : events_at events n = [] := by
  rw [events_at, List.map_eq_nil_iff, List.filter_eq_nil_iff]
  intro event hevent
  simpa using h event hevent

/-- Where no event is, nothing changes. -/
theorem context_eq {m : Nat} (hle : n ≤ m) (h : ∀ event ∈ events, event.1 < n ∨ m ≤ event.1) :
    context events m = context events n := by
  induction m, hle using Nat.le_induction with
  | base => rfl
  | succ m hle ih =>
    have hnone : events_at events m = [] := by
      apply events_at_eq_nil
      intro event hevent hsame
      have hoff := h event hevent
      omega
    rw [context, hnone, List.foldl_nil]
    apply ih
    intro event hevent
    have hoff := h event hevent
    omega

theorem mem_slice {start stop : Nat} {c : Char} (hstart : start ≤ n) (hstop : n < stop)
    (hc : c ∈ value[n]?) : c ∈ slice value start stop := by
  have hget : (slice value start stop)[n - start]? = some c := by
    rw [slice, List.getElem?_drop, Nat.add_sub_cancel' hstart, List.getElem?_take_of_lt hstop]
    exact hc
  exact List.mem_of_getElem? hget

/-- Flushing up to a position keeps the blocks good, in order and covering. -/
theorem LoopInvariant.flush
    (h : LoopInvariant patterns value boundaries events positions lower state)
    (hstart : state.start ≤ n) (hn : n ≤ value.length) (hpositions : ∀ p ∈ positions, n ≤ p) :
    (∀ block ∈ (state.flush patterns value boundaries n).blocks,
        GoodBlock value boundaries events block ∧ block.stop ≤ n) ∧
      (state.flush patterns value boundaries n).blocks.Pairwise (fun a b => a.stop ≤ b.start) ∧
      ∀ m < n, ∀ c ∈ value[m]?, patterns.is_space c = false →
        ∃ block ∈ (state.flush patterns value boundaries n).blocks,
          block.start ≤ m ∧ m < block.stop := by
  have hbehind : ∀ block ∈ state.blocks, block.stop ≤ n :=
    fun block hblock => (h.behind block hblock).trans hstart
  by_cases hflush : state.start < n ∧ ¬ is_blank patterns (slice value state.start n)
  · have hagrees := h.agrees (state.start + 1) h.lower_le fun p hp => by
      have hp := hpositions p hp
      omega
    simp only [BlockState.flush, if_pos hflush]
    refine ⟨?_, ?_, ?_⟩
    · intro block hblock
      rcases List.mem_append.mp hblock with hblock | hblock
      · exact ⟨h.good block hblock, hbehind block hblock⟩
      · rw [List.mem_singleton] at hblock
        rw [hblock]
        refine ⟨⟨hflush.1, hn, ?_, ?_, hagrees.headings, hagrees.article⟩, le_refl n⟩
        · intro event hevent
          have hlower := h.lower_le
          rcases h.seen event hevent with hseen | hleft
          · exact Or.inl (by dsimp only; omega)
          · exact Or.inr (hpositions _ hleft)
        · rw [← hagrees.page]
    · rw [List.pairwise_append]
      refine ⟨h.ordered, List.pairwise_singleton _ _, ?_⟩
      intro block hblock last hlast
      rw [List.mem_singleton] at hlast
      rw [hlast]
      exact h.behind block hblock
    · intro m hm c hc hspace
      by_cases hbefore : m < state.start
      · obtain ⟨block, hblock, hin⟩ := h.covered m hbefore c hc hspace
        exact ⟨block, List.mem_append_left _ hblock, hin⟩
      · exact ⟨_, List.mem_append_right _ (List.mem_singleton_self _), by dsimp only; omega, hm⟩
  · simp only [BlockState.flush, if_neg hflush]
    refine ⟨fun block hblock => ⟨h.good block hblock, hbehind block hblock⟩, h.ordered, ?_⟩
    intro m hm c hc hspace
    by_cases hbefore : m < state.start
    · exact h.covered m hbefore c hc hspace
    · exfalso
      apply hflush
      refine ⟨by omega, ?_⟩
      intro hblank
      have hall := List.all_eq_true.mp hblank c (mem_slice (by omega) hm hc)
      rw [hspace] at hall
      cases hall

theorem LoopInvariant.round
    (h : LoopInvariant patterns value boundaries events (position :: positions) lower state) :
    LoopInvariant patterns value boundaries events positions (position + 1)
      (state.round patterns value boundaries events position) := by
  obtain ⟨hlower, hstart, hposition⟩ := h.ahead position List.mem_cons_self
  obtain ⟨hless, hsorted⟩ := List.pairwise_cons.mp h.sorted
  have hpositions : ∀ p ∈ position :: positions, position ≤ p := by
    rw [List.forall_mem_cons]
    exact ⟨le_refl _, fun p hp => (hless p hp).le⟩
  obtain ⟨hblocks, hordered, hcovered⟩ := h.flush hstart hposition hpositions
  obtain ⟨hstart', hblocks'⟩ := (state.flush patterns value boundaries position).foldl_blocks
    (events_at events position)
  have hflushed : (state.flush patterns value boundaries position).start = position := rfl
  have hagrees : (state.flush patterns value boundaries position).Agrees
      (context events position) := by
    obtain ⟨hpage, hheadings, harticle⟩ := h.agrees position hlower hpositions
    exact ⟨hpage, hheadings, harticle⟩
  unfold BlockState.round
  constructor
  case lower_le => rw [hstart', hflushed]
  case start_le => rwa [hstart', hflushed]
  case sorted => exact hsorted
  case ahead =>
    intro p hp
    have hp' := hless p hp
    rw [hstart', hflushed]
    exact ⟨hp', hp'.le, (h.ahead p (List.mem_cons_of_mem _ hp)).2.2⟩
  case seen =>
    intro event hevent
    rcases h.seen event hevent with hseen | hleft
    · exact Or.inl (by omega)
    · exact (List.mem_cons.mp hleft).imp (by omega) id
  case agrees =>
    intro n hn hleft
    have hsame : context events n = context events (position + 1) := by
      apply context_eq hn
      intro event hevent
      rcases h.seen event hevent with hseen | hmem
      · exact Or.inl (by omega)
      · exact (List.mem_cons.mp hmem).imp (by omega) (hleft _)
    rw [hsame]
    exact hagrees.foldl _
  case good =>
    rw [hblocks']
    exact fun block hblock => (hblocks block hblock).1
  case behind =>
    rw [hblocks', hstart', hflushed]
    exact fun block hblock => (hblocks block hblock).2
  case ordered => rwa [hblocks']
  case covered => rwa [hblocks', hstart', hflushed]

theorem LoopInvariant.rounds
    (h : LoopInvariant patterns value boundaries events positions lower state) :
    ∃ lower', LoopInvariant patterns value boundaries events [] lower'
      (positions.foldl (BlockState.round patterns value boundaries events) state) := by
  induction positions generalizing lower state with
  | nil => exact ⟨lower, h⟩
  | cons position positions ih => exact ih h.round

theorem LoopInvariant.start (hevents : ∀ event ∈ events, event.1 ≤ value.length) :
    LoopInvariant patterns value boundaries events (sorted.ofList (events.map (·.1))) 0 .init where
  lower_le := Nat.zero_le _
  start_le := Nat.zero_le _
  sorted := sorted.ofList_increasing _
  ahead := by
    intro p hp
    obtain ⟨event, hevent, rfl⟩ := List.mem_map.mp (sorted.mem_ofList.mp hp)
    exact ⟨Nat.zero_le _, Nat.zero_le _, hevents event hevent⟩
  seen := fun event hevent => Or.inr (sorted.mem_ofList.mpr (List.mem_map_of_mem hevent))
  agrees := by
    intro n _ hleft
    have hnone : context events n = context events 0 := by
      apply context_eq (Nat.zero_le n)
      exact fun event hevent =>
        Or.inr (hleft _ (sorted.mem_ofList.mpr (List.mem_map_of_mem hevent)))
    rw [hnone]
    exact ⟨rfl, rfl, rfl⟩
  good := fun block hblock => absurd hblock List.not_mem_nil
  behind := fun block hblock => absurd hblock List.not_mem_nil
  ordered := List.Pairwise.nil
  covered := fun n hn => absurd hn (Nat.not_lt_zero n)

end lagraph.retrieval
