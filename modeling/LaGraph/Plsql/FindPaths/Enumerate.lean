import LaGraph.Plsql.FindPaths.Rounds

open foundation

namespace lagraph.plsql

variable {client : Neo4jPlsqlAnalysisClient} {db : GraphDb} {source target : String}

/-- A route of length `k + 1` in the frontier of a search extends one of length
`k`, and so does a reported path. -/
theorem frontier_succ {k : Nat} {p : List EdgeTriple} (hp : p.length = k + 1) :
    (path_graph client db).Frontier target source p ↔ ∃ q e, p = q ++ [e] ∧ q.length = k ∧
      (path_graph client db).Frontier target source q ∧
      (path_graph client db).Frontier target source (q ++ [e]) := by
  constructor
  · intro h
    obtain ⟨q, e, rfl⟩ : ∃ q e, p = q ++ [e] := by
      rcases List.eq_nil_or_concat p with rfl | ⟨q, e, rfl⟩
      · simp at hp
      · exact ⟨q, e, List.concat_eq_append⟩
    exact ⟨q, e, rfl, by simpa using hp, (Multigraph.frontier_concat.mp h).1, h⟩
  · rintro ⟨q, e, rfl, -, -, h⟩
    exact h

theorem arrives_le_succ {k : Nat} {trail : List String} :
    (∃ p : List EdgeTriple, p.length ≤ k + 1 ∧ (path_graph client db).Arrives target source p ∧
      trail = trail_of client p) ↔
      (∃ p : List EdgeTriple, p.length ≤ k ∧ (path_graph client db).Arrives target source p ∧
        trail = trail_of client p) ∨
      ∃ (q : List EdgeTriple) (e : EdgeTriple), q.length = k ∧
        (path_graph client db).Frontier target source q ∧
        (path_graph client db).Walk source (q ++ [e]) target ∧
        (∀ j < q.length, ¬ (path_graph client db).Reach target source j e.source) ∧
        trail = trail_of client (q ++ [e]) := by
  constructor
  · rintro ⟨p, hlen, h, rfl⟩
    by_cases hk : p.length ≤ k
    · exact Or.inl ⟨p, hk, h, rfl⟩
    · obtain ⟨q, e, rfl, hfrontier, hw, hfirst⟩ := h
      refine Or.inr ⟨q, e, ?_, hfrontier, hw, hfirst, rfl⟩
      simp only [List.length_append, List.length_singleton] at hlen hk
      omega
  · rintro (⟨p, hlen, h, rfl⟩ | ⟨q, e, hq, hfrontier, hw, hfirst, rfl⟩)
    · exact ⟨p, by omega, h, rfl⟩
    · exact ⟨q ++ [e], by simp [hq], ⟨q, e, rfl, hfrontier, hw, hfirst⟩, rfl⟩

/-- When the frontier is empty, the search has nothing left to add. -/
theorem RoundInv.idle {k : Nat} {search : Search}
    (h : RoundInv client db source target k search) (hempty : search.frontier = []) :
    RoundInv client db source target (k + 1) search := by
  have hnone : ∀ p : List EdgeTriple, p.length = k →
      ¬ (path_graph client db).Frontier target source p := by
    intro p hp hfrontier
    have hmem := (h.frontier _).mpr ⟨p, hp, hfrontier, rfl⟩
    simp [hempty] at hmem
  refine ⟨h.table_edge, ?_, ?_, ?_, h.discovered_nodup⟩
  · intro e he
    rw [h.table_seen e he, Multigraph.reach_lt_iff_frontier, Multigraph.reach_lt_iff_frontier]
    constructor
    · rintro ⟨p, hp, hfrontier, hend⟩
      exact ⟨p, by omega, hfrontier, hend⟩
    · rintro ⟨p, hp, hfrontier, hend⟩
      refine ⟨p, ?_, hfrontier, hend⟩
      have hk : p.length ≠ k := fun hk => hnone p hk hfrontier
      omega
  · intro route
    simp only [hempty, List.not_mem_nil, false_iff, not_exists, not_and]
    intro p hp hfrontier
    obtain ⟨q, e, -, hq, hq', -⟩ := (frontier_succ hp).mp hfrontier
    exact absurd hq' (hnone q hq)
  · intro trail
    rw [h.discovered trail, arrives_le_succ]
    refine ⟨Or.inl, ?_⟩
    rintro (hold | ⟨q, e, hq, hq', -⟩)
    · exact hold
    · exact absurd hq' (hnone q hq)

/-- One round either exceeds the traversal bound or moves the invariant one hop
on. -/
theorem RoundInv.expand {k : Nat} {search : Search}
    (h : RoundInv client db source target k search) (hne : source ≠ target)
    (hmap : RowsMap client db) (hids : EdgesIdentified client db) :
    expand client db target (frontier_sources search.frontier) search =
        .error traversal_bound_exceeded ∨
      ∃ next, expand client db target (frontier_sources search.frontier) search = .ok next ∧
        RoundInv client db source target (k + 1) next := by
  unfold lagraph.plsql.expand
  simp only
  split
  · exact Or.inl rfl
  rename_i hpos
  split
  · exact Or.inl rfl
  rename_i hroom
  right
  have hrows := @mem_EDGE_OUTGOING client db (frontier_sources search.frontier)
    ((client.max_traversal_edges : Int) - search.edge_by_id.length + 1).toNat (by omega)
  revert hrows
  generalize EDGE_OUTGOING db client.project_id _ _ _ = rows
  intro hrows
  obtain ⟨after, fresh, habsorb, habsorbed⟩ := absorb_spec search.edge_by_id
    (fun row hrow => hmap row ((hrows row).mp hrow).1)
  have hfresh := h.freshEdges hids hmap hrows habsorbed
  have hedge : ∀ edge ∈ fresh, (path_graph client db).Edge edge.triple ∧
      edge.id = edge.triple.id client.project_id := by
    intro edge hmem
    obtain ⟨row, hrow, hdep⟩ := habsorbed.fresh_row edge hmem
    obtain ⟨hof, hid⟩ := dependency_from_row_triple hdep
    exact ⟨⟨row, ((hrows row).mp hrow).1, hof⟩, hid⟩
  simp only [habsorb, Bind.bind, Except.bind]
  refine ⟨_, rfl, ?_, ?_, ?_, ?_, List.Nodup.union _ h.discovered_nodup⟩
  · intro edge hmem
    simp only [habsorbed.table, List.mem_append] at hmem
    exact hmem.elim (h.table_edge edge) (hedge edge)
  · intro e he
    rw [habsorbed.table, List.map_append, List.mem_append, h.table_seen e he]
    constructor
    · rintro (⟨j, hj, hreach⟩ | hfreshId)
      · exact ⟨j, by omega, hreach⟩
      · obtain ⟨edge, hmem, hid⟩ := List.mem_map.mp hfreshId
        obtain ⟨hgraph, hid'⟩ := hedge edge hmem
        have htriple : edge.triple = e := hids _ _ hgraph he (hid'.symm.trans hid)
        subst htriple
        obtain ⟨row, hrow, hdep⟩ := habsorbed.fresh_row edge hmem
        obtain ⟨-, s, hs, hsource⟩ := (hrows row).mp hrow
        obtain ⟨hof, -⟩ := dependency_from_row_triple hdep
        obtain rfl : edge.triple.source = s := by simpa [hof.2.1] using hsource
        simp only [frontier_sources, List.mem_insertionSort, List.mem_dedup, List.mem_map] at hs
        obtain ⟨route, hroute, hcurrent⟩ := hs
        obtain ⟨p, hp, hfrontier, rfl⟩ := (h.frontier route).mp hroute
        refine ⟨k, by omega, ?_⟩
        rw [← hcurrent, ← hp]
        exact hfrontier.reach
    · rintro ⟨j, hj, hreach⟩
      by_cases hold : ∃ i < k, (path_graph client db).Reach target source i e.source
      · exact Or.inl hold
      · obtain rfl : j = k := by
          by_contra hjk
          exact hold ⟨j, by omega, hreach⟩
        have hfirst : ∀ i < j, ¬ (path_graph client db).Reach target source i e.source :=
          fun i hi hreach' => hold ⟨i, hi, hreach'⟩
        obtain ⟨p, hp, hfrontier, hend⟩ := hreach.frontier hfirst
        obtain ⟨edge, hmem, rfl⟩ := (hfresh p e hp hfrontier hend.symm).mpr ⟨he, hfirst⟩
        exact Or.inr (List.mem_map.mpr ⟨edge, hmem, (hedge edge hmem).2⟩)
  · intro route
    simp only [List.mem_flatMap]
    constructor
    · rintro ⟨_, hroute, honward⟩
      obtain ⟨p, hp, hfrontier, rfl⟩ := (h.frontier _).mp hroute
      obtain ⟨e, hext, rfl⟩ :=
        (mem_onward hfresh (fun edge hmem => (hedge edge hmem).2) hp hfrontier route).mp honward
      exact ⟨p ++ [e], by simp [hp], hext, rfl⟩
    · rintro ⟨p, hp, hfrontier, rfl⟩
      obtain ⟨q, e, rfl, hq, hq', -⟩ := (frontier_succ hp).mp hfrontier
      refine ⟨_, (h.frontier _).mpr ⟨q, hq, hq', rfl⟩, ?_⟩
      exact (mem_onward hfresh (fun edge hmem => (hedge edge hmem).2) hq hq' _).mpr
        ⟨e, hfrontier, rfl⟩
  · intro trail
    rw [List.mem_union_iff, List.mem_flatMap, h.discovered trail, arrives_le_succ, or_comm]
    refine or_congr_right ?_
    constructor
    · rintro ⟨_, hroute, harrive⟩
      obtain ⟨p, hp, hfrontier, rfl⟩ := (h.frontier _).mp hroute
      obtain ⟨e, hw, hfirst, htrail⟩ := (mem_arrivals hne hfresh
        (fun edge hmem => (hedge edge hmem).2) hp hfrontier trail).mp harrive
      exact ⟨p, e, hp, hfrontier, hw, hfirst, htrail⟩
    · rintro ⟨q, e, hq, hq', hw, hfirst, htrail⟩
      refine ⟨_, (h.frontier _).mpr ⟨q, hq, hq', rfl⟩, ?_⟩
      exact (mem_arrivals hne hfresh (fun edge hmem => (hedge edge hmem).2) hq hq' trail).mpr
        ⟨e, hw, hfirst, htrail⟩

/-- The rounds of a search keep the invariant up to the hop bound, unless they
exceed the traversal bound. -/
theorem RoundInv.search_rounds (hne : source ≠ target) (hmap : RowsMap client db)
    (hids : EdgesIdentified client db) (rounds : Nat) :
    ∀ {k : Nat} {search : Search}, RoundInv client db source target k search →
      search_rounds client db target rounds search = .error traversal_bound_exceeded ∨
        ∃ final, search_rounds client db target rounds search = .ok final ∧
          RoundInv client db source target (k + rounds) final := by
  induction rounds with
  | zero => exact fun h => Or.inr ⟨_, rfl, h⟩
  | succ rounds ih =>
    intro k search h
    by_cases hsources : frontier_sources search.frontier = []
    · have hempty : search.frontier = [] := by
        rw [List.eq_nil_iff_forall_not_mem] at hsources ⊢
        intro route hroute
        apply hsources route.current
        simp only [frontier_sources, List.mem_insertionSort, List.mem_dedup]
        exact List.mem_map_of_mem hroute
      have hidle : ∀ n, RoundInv client db source target (k + n) search := by
        intro n
        induction n with
        | zero => exact h
        | succ n ihn => exact ihn.idle hempty
      exact Or.inr ⟨search, by simp only [lagraph.plsql.search_rounds, if_pos hsources],
        hidle (rounds + 1)⟩
    · simp only [lagraph.plsql.search_rounds, if_neg hsources]
      rcases h.expand hne hmap hids with hlimit | ⟨next, hnext, hinv⟩
      · exact Or.inl (by simp only [hlimit, Bind.bind, Except.bind])
      · simp only [hnext, Bind.bind, Except.bind]
        have harith : k + 1 + rounds = k + (rounds + 1) := by omega
        simpa only [harith] using ih hinv

end lagraph.plsql
