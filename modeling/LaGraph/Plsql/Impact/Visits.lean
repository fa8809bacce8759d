import LaGraph.Plsql.Impact.Graph

open foundation

namespace lagraph.plsql

section Visits

variable {direction : ImpactDirection} {depth : Nat} {base : Reached} {keys : List String}
  {adjacency steps : List (String × PlsqlDependencyRecord)} {walk : Reached × List String}
  {step : String × PlsqlDependencyRecord}

/-- The edges of a round in the order they are visited, with the objects they leave. -/
def walked (adjacency : List (String × PlsqlDependencyRecord)) (keys : List String) :
    List (String × PlsqlDependencyRecord) :=
  keys.flatMap fun current => (edges_at adjacency current).map (current, ·)

theorem visit_round_eq : visit_round direction depth adjacency keys base =
    (walked adjacency keys).foldl (fun walk step => visit direction depth step.1 walk step.2)
      (base, []) := by
  unfold visit_round walked
  generalize (base, ([] : List String)) = walk
  induction keys generalizing walk with
  | nil => rfl
  | cons current keys ih =>
    rw [List.foldl_cons, ih, List.flatMap_cons, List.foldl_append, List.foldl_map]

/-- Every edge of the round is visited once. -/
theorem walked_perm (hkeys : keys.Nodup) (hall : ∀ entry ∈ adjacency, entry.1 ∈ keys) :
    (walked adjacency keys).Perm adjacency := by
  refine List.perm_iff_count.mpr fun entry => ?_
  obtain ⟨current, edge⟩ := entry
  have hat (key : String) : ((edges_at adjacency key).map (key, ·)).count (current, edge) =
      if key = current then adjacency.count (current, edge) else 0 := by
    by_cases hkey : key = current
    · subst hkey
      have hinjective : Function.Injective ((key, ·) : PlsqlDependencyRecord → _) :=
        fun a b hab => (Prod.mk.inj hab).2
      have hfilter : ((adjacency.filter (·.1 = key)).map (·.2)).map (key, ·) =
          adjacency.filter (·.1 = key) := by
        rw [List.map_map]
        refine (List.map_congr_left fun entry hentry => ?_).trans (List.map_id _)
        have hfirst := (List.mem_filter.mp hentry).2
        simp only [decide_eq_true_eq] at hfirst
        rw [Function.comp_apply, ← hfirst, id]
      rw [if_pos rfl, edges_at, ((List.perm_insertionSort _ _).map _).count_eq, hfilter,
        List.count_filter (by simp)]
    · rw [if_neg hkey, List.count_eq_zero]
      intro hmem
      obtain ⟨other, -, hother⟩ := List.mem_map.mp hmem
      exact hkey (Prod.mk.inj hother).1
  rw [walked, List.count_flatMap]
  have hsum : keys.map (List.count (current, edge) ∘ fun key =>
      (edges_at adjacency key).map (key, ·)) =
        keys.map fun key => if key = current then adjacency.count (current, edge) else 0 :=
    List.map_congr_left fun key _ => hat key
  rw [hsum, Multigraph.sum_map_ite]
  by_cases hcurrent : current ∈ keys
  · rw [List.count_eq_one_of_mem hkeys hcurrent, Nat.one_mul]
  · have hnone : adjacency.count (current, edge) = 0 :=
      List.count_eq_zero.mpr fun hmem => hcurrent (hall _ hmem)
    rw [hnone, Nat.mul_zero]

/-- The step leads to an object that no earlier round has reached. -/
def leads_on (direction : ImpactDirection) (base : Reached)
    (step : String × PlsqlDependencyRecord) : Bool :=
  direction.far_end step.2 ≠ step.1 && direction.far_end step.2 ∉ base.distance.map (·.1)

/-- What the steps of a round have reached. -/
structure Visited (direction : ImpactDirection) (depth : Nat) (base : Reached)
    (steps : List (String × PlsqlDependencyRecord)) (walk : Reached × List String) : Prop where
  table : walk.1.edge_by_id = base.edge_by_id
  distance : walk.1.distance = base.distance ++ walk.2.map (·, depth)
  nodup : walk.2.Nodup
  fresh : ∀ x, x ∈ walk.2 ↔ ∃ step ∈ steps, leads_on direction base step = true ∧
    direction.far_end step.2 = x
  parents : walk.1.parents = base.parents ++
    (steps.filter (leads_on direction base)).map fun step => (direction.far_end step.2, step.2)

theorem Visited.start : Visited direction depth base [] (base, []) where
  table := rfl
  distance := by simp
  nodup := List.nodup_nil
  fresh := by simp
  parents := by simp

theorem Visited.skip (h : Visited direction depth base steps walk)
    (hskip : leads_on direction base step = false) :
    Visited direction depth base (steps ++ [step]) walk where
  table := h.table
  distance := h.distance
  nodup := h.nodup
  fresh := fun x => by
    rw [h.fresh x]
    simp [or_and_right, exists_or, hskip]
  parents := by
    rw [h.parents, List.filter_append, List.filter_singleton, hskip]
    simp

/-- An object is found at the depth of the round, an earlier one or not at all. -/
theorem Visited.lookup (h : Visited direction depth base steps walk) {x : String}
    (hx : x ∉ base.distance.map (·.1)) :
    walk.1.distance.lookup x = if x ∈ walk.2 then some depth else none := by
  have hbase : base.distance.lookup x = none := by
    rw [List.lookup_eq_none_iff]
    intro entry hentry
    have hne : x ≠ entry.1 := fun heq => hx (heq ▸ List.mem_map_of_mem hentry)
    simpa using hne
  rw [h.distance, List.lookup_append, hbase, Option.none_or]
  induction walk.2 with
  | nil => rfl
  | cons y l ih =>
    rw [List.map_cons, List.lookup_cons]
    by_cases hxy : x = y
    · simp [hxy]
    · have hbeq : (x == y) = false := by simpa using hxy
      rw [hbeq]
      simpa [hxy] using ih

theorem Visited.visit_skips (h : Visited direction depth base steps walk)
    (hbase : ∀ entry ∈ base.distance, entry.2 ≠ depth)
    (hskip : leads_on direction base step = false) :
    visit direction depth step.1 walk step.2 = walk := by
  unfold visit
  by_cases hloop : direction.far_end step.2 = step.1
  · simp only [if_pos hloop]
  · have hold : direction.far_end step.2 ∈ base.distance.map (·.1) := by
      simpa [leads_on, hloop] using hskip
    obtain ⟨entry, hentry, hname⟩ := List.mem_map.mp hold
    have hsome : (base.distance.lookup (direction.far_end step.2)).isSome = true := by
      rw [List.lookup_isSome_iff]
      exact ⟨entry, hentry, by simp [hname]⟩
    obtain ⟨reached_at, hreached⟩ := Option.isSome_iff_exists.mp hsome
    obtain ⟨before, after, hsplit, -⟩ := List.lookup_eq_some_iff.mp hreached
    have hother : reached_at ≠ depth :=
      hbase (direction.far_end step.2, reached_at) (by rw [hsplit]; simp)
    have hfound : walk.1.distance.lookup (direction.far_end step.2) = some reached_at := by
      rw [h.distance, List.lookup_append, hreached, Option.some_or]
    simp only [if_neg hloop, hfound, if_neg hother]

/-- An object that the round reaches again gets another parent. -/
theorem Visited.again (h : Visited direction depth base steps walk)
    (hlead : leads_on direction base step = true) (hmem : direction.far_end step.2 ∈ walk.2) :
    Visited direction depth base (steps ++ [step])
      ({ walk.1 with parents := walk.1.parents ++ [(direction.far_end step.2, step.2)] },
        walk.2) where
  table := h.table
  distance := h.distance
  nodup := h.nodup
  fresh := fun x => by
    have hold := h.fresh x
    simp only [List.mem_append, List.mem_singleton, or_and_right, exists_or, exists_eq_left, hlead,
      true_and]
    rw [← hold]
    constructor
    · exact Or.inl
    · rintro (hx | rfl)
      · exact hx
      · exact hmem
  parents := by
    rw [h.parents, List.filter_append, List.filter_singleton, hlead]
    simp

/-- An object that the round reaches for the first time gets its distance. -/
theorem Visited.reach (h : Visited direction depth base steps walk)
    (hlead : leads_on direction base step = true) (hmem : direction.far_end step.2 ∉ walk.2) :
    Visited direction depth base (steps ++ [step])
      ({ walk.1 with
          distance := walk.1.distance ++ [(direction.far_end step.2, depth)],
          parents := walk.1.parents ++ [(direction.far_end step.2, step.2)] },
        walk.2 ++ [direction.far_end step.2]) where
  table := h.table
  distance := by simp [h.distance]
  nodup := by
    rw [List.nodup_append_comm, List.singleton_append, List.nodup_cons]
    exact ⟨hmem, h.nodup⟩
  fresh := fun x => by
    have hold := h.fresh x
    simp only [List.mem_append, List.mem_singleton, or_and_right, exists_or, exists_eq_left, hlead,
      true_and]
    rw [← hold, eq_comm]
  parents := by
    rw [h.parents, List.filter_append, List.filter_singleton, hlead]
    simp

/-- One step keeps what has been reached up to date. -/
theorem Visited.visit (h : Visited direction depth base steps walk)
    (hbase : ∀ entry ∈ base.distance, entry.2 ≠ depth) :
    Visited direction depth base (steps ++ [step])
      (visit direction depth step.1 walk step.2) := by
  cases hlead : leads_on direction base step with
  | false =>
    rw [h.visit_skips hbase hlead]
    exact h.skip hlead
  | true =>
    have hnew : direction.far_end step.2 ≠ step.1 ∧
        direction.far_end step.2 ∉ base.distance.map (·.1) := by
      simpa [leads_on] using hlead
    have hlookup := h.lookup hnew.2
    unfold lagraph.plsql.visit
    by_cases hmem : direction.far_end step.2 ∈ walk.2
    · rw [if_pos hmem] at hlookup
      simp only [if_neg hnew.1, hlookup, if_true]
      exact h.again hlead hmem
    · rw [if_neg hmem] at hlookup
      simp only [if_neg hnew.1, hlookup]
      exact h.reach hlead hmem

/-- A round reaches what its edges lead on to. -/
theorem visited_round (hbase : ∀ entry ∈ base.distance, entry.2 ≠ depth) :
    Visited direction depth base (walked adjacency keys)
      (visit_round direction depth adjacency keys base) := by
  rw [visit_round_eq]
  induction walked adjacency keys using List.reverseRecOn with
  | nil => exact .start
  | append_singleton steps step ih =>
    rw [List.foldl_append]
    exact ih.visit hbase

end Visits

end lagraph.plsql
