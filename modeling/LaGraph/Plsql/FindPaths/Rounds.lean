import Mathlib.Data.List.Dedup
import LaGraph.Plsql.FindPaths.Fresh

open foundation

namespace lagraph.plsql

variable {client : Neo4jPlsqlAnalysisClient} {db : GraphDb} {source target : String}

/-- The ids of an edge sequence. -/
def trail_of (client : Neo4jPlsqlAnalysisClient) (p : List EdgeTriple) : List String :=
  p.map (·.id client.project_id)

/-- The frontier entry of an edge sequence from `source`. -/
def route_of (client : Neo4jPlsqlAnalysisClient) (db : GraphDb) (source : String)
    (p : List EdgeTriple) : Route where
  current := (path_graph client db).endpoint source p
  trail := trail_of client p
  visited := ((path_graph client db).nodes source p).reverse

/-- What holds after `k` rounds: the table has exactly the edges that leave a
node reached in fewer than `k` hops, the frontier the direct routes of length
`k`, and the discovered set the direct paths of at most `k` edges. -/
structure RoundInv (client : Neo4jPlsqlAnalysisClient) (db : GraphDb) (source target : String)
    (k : Nat) (search : Search) : Prop where
  table_edge : ∀ edge ∈ search.edge_by_id, (path_graph client db).Edge edge.triple ∧
    edge.id = edge.triple.id client.project_id
  table_seen : ∀ e, (path_graph client db).Edge e →
    (e.id client.project_id ∈ search.edge_by_id.map (·.id) ↔
      ∃ j < k, (path_graph client db).Reach target source j e.source)
  frontier : ∀ route, route ∈ search.frontier ↔ ∃ p : List EdgeTriple, p.length = k ∧
    (path_graph client db).Frontier target source p ∧ route = route_of client db source p
  discovered : ∀ trail, trail ∈ search.discovered ↔ ∃ p : List EdgeTriple, p.length ≤ k ∧
    (path_graph client db).Arrives target source p ∧ trail = trail_of client p
  discovered_nodup : search.discovered.Nodup

@[simp] theorem path_graph_target (e : EdgeTriple) : (path_graph client db).target e = e.target :=
  rfl

@[simp] theorem mem_route_of_visited {p : List EdgeTriple} {x : String} :
    x ∈ (route_of client db source p).visited ↔ x ∈ (path_graph client db).nodes source p :=
  List.mem_reverse

theorem frontier_nil : (path_graph client db).Frontier target source [] :=
  ⟨⟨source, rfl⟩, by simp, by simp, Multigraph.direct_nil⟩

/-- Before the first round only the empty route is in the frontier. -/
theorem roundInv_start : RoundInv client db source target 0 (search_start source) where
  table_edge := by simp [search_start]
  table_seen := by simp [search_start]
  frontier := by
    intro route
    simp only [search_start, List.mem_singleton, List.length_eq_zero_iff]
    constructor
    · rintro rfl
      exact ⟨[], rfl, frontier_nil, rfl⟩
    · rintro ⟨p, rfl, -, rfl⟩
      rfl
  discovered := by
    intro trail
    simp only [search_start, List.not_mem_nil, false_iff, not_exists, not_and, Nat.le_zero,
      List.length_eq_zero_iff]
    rintro p rfl ⟨q, e, heq, -⟩
    simp at heq
  discovered_nodup := by simp [search_start]

/-- A route of the frontier leaves its end along the fresh edges exactly when
that end is reached there for the first time. -/
def FreshEdges (client : Neo4jPlsqlAnalysisClient) (db : GraphDb) (source target : String)
    (k : Nat) (fresh : List PlsqlDependencyRecord) : Prop :=
  ∀ (p : List EdgeTriple) (e : EdgeTriple), p.length = k →
    (path_graph client db).Frontier target source p →
    e.source = (path_graph client db).endpoint source p →
    ((∃ edge ∈ fresh, edge.triple = e) ↔ (path_graph client db).Edge e ∧
      ∀ j < k, ¬ (path_graph client db).Reach target source j e.source)

/-- The fresh edges of a round are those that leave a frontier node not expanded
before. -/
theorem RoundInv.freshEdges {k : Nat} {search : Search} {rows : List Relationship}
    {after fresh : List PlsqlDependencyRecord} {file_paths : List (String × String)}
    (h : RoundInv client db source target k search) (hids : EdgesIdentified client db)
    (hmap : ∀ row, PathRow client db row → ∃ edge,
      dependency_from_row client.project_id row file_paths = .ok (some edge))
    (hrows : ∀ row, row ∈ rows ↔ PathRow client db row ∧
      ∃ s ∈ frontier_sources search.frontier, row.source.qualifiedName = some s)
    (habsorbed : Absorbed client.project_id file_paths search.edge_by_id rows after fresh) :
    FreshEdges client db source target k fresh := by
  intro p e hp hfrontier hsource
  constructor
  · rintro ⟨edge, hedge, rfl⟩
    obtain ⟨row, hrow, hdep⟩ := habsorbed.fresh_row edge hedge
    obtain ⟨hof, hid⟩ := dependency_from_row_triple hdep
    have he : (path_graph client db).Edge edge.triple := ⟨row, ((hrows row).mp hrow).1, hof⟩
    refine ⟨he, fun j hj hreach => ?_⟩
    apply habsorbed.fresh_new edge hedge
    rw [hid]
    exact (h.table_seen _ he).mpr ⟨j, hj, hreach⟩
  · rintro ⟨he, hfirst⟩
    obtain ⟨row, hpath, hof⟩ := he
    have hrow : row ∈ rows := by
      refine (hrows row).mpr ⟨hpath, e.source, ?_, hof.2.1⟩
      simp only [frontier_sources, List.mem_insertionSort, List.mem_dedup, List.mem_map]
      exact ⟨_, (h.frontier _).mpr ⟨p, hp, hfrontier, rfl⟩, hsource.symm⟩
    obtain ⟨edge, hdep⟩ := hmap row hpath
    obtain ⟨hof', hid⟩ := dependency_from_row_triple hdep
    obtain rfl : edge.triple = e := EdgeTriple.eq_of_row hof' hof
    have hmem := habsorbed.complete row hrow edge hdep
    rw [habsorbed.table, List.map_append, List.mem_append] at hmem
    rcases hmem with hmem | hmem
    · rw [hid] at hmem
      obtain ⟨j, hj, hreach⟩ := (h.table_seen _ ⟨row, hpath, hof⟩).mp hmem
      exact absurd hreach (hfirst j hj)
    · obtain ⟨other, hother, hother_id⟩ := List.mem_map.mp hmem
      obtain ⟨row', hrow', hdep'⟩ := habsorbed.fresh_row other hother
      obtain ⟨hof'', hid'⟩ := dependency_from_row_triple hdep'
      refine ⟨other, hother, hids _ _ ⟨row', ((hrows row').mp hrow').1, hof''⟩
        ⟨row, hpath, hof⟩ ?_⟩
      rw [← hid', ← hid]
      exact hother_id

theorem mem_extensions {fresh : List PlsqlDependencyRecord} {route : Route}
    {edge : PlsqlDependencyRecord} :
    edge ∈ extensions fresh route ↔ edge ∈ fresh ∧ edge.triple.source = route.current ∧
      edge.triple.target ∉ route.visited := by
  simp only [extensions, outgoing, List.mem_filter, List.mem_insertionSort, decide_eq_true_eq,
    PlsqlDependencyRecord.triple, and_assoc]

theorem trail_of_concat (p : List EdgeTriple) (e : EdgeTriple) :
    trail_of client (p ++ [e]) = trail_of client p ++ [e.id client.project_id] := by
  simp [trail_of]

theorem route_of_concat (p : List EdgeTriple) (e : EdgeTriple) :
    route_of client db source (p ++ [e]) =
      { current := e.target, trail := (route_of client db source p).trail ++ [e.id client.project_id],
        visited := e.target :: (route_of client db source p).visited } := by
  simp [route_of, trail_of_concat, path_graph]

/-- The routes a round hands on are the frontier routes one edge longer. -/
theorem mem_onward {k : Nat} {fresh : List PlsqlDependencyRecord} {p : List EdgeTriple}
    (hfresh : FreshEdges client db source target k fresh)
    (hid : ∀ edge ∈ fresh, edge.id = edge.triple.id client.project_id)
    (hp : p.length = k) (hfrontier : (path_graph client db).Frontier target source p)
    (route : Route) :
    route ∈ onward target fresh (route_of client db source p) ↔
      ∃ e, (path_graph client db).Frontier target source (p ++ [e]) ∧
        route = route_of client db source (p ++ [e]) := by
  simp only [onward, List.mem_map, List.mem_filter, mem_extensions, decide_eq_true_eq,
    mem_route_of_visited]
  constructor
  · rintro ⟨edge, ⟨⟨hedge, hsource, hvisited⟩, htarget⟩, rfl⟩
    obtain ⟨he, hfirst⟩ := (hfresh p edge.triple hp hfrontier hsource).mp ⟨edge, hedge, rfl⟩
    refine ⟨edge.triple, Multigraph.frontier_concat.mpr
      ⟨hfrontier, he, hsource, hp ▸ hfirst, htarget, hvisited⟩, ?_⟩
    rw [route_of_concat, hid edge hedge]
    rfl
  · rintro ⟨e, hext, rfl⟩
    obtain ⟨-, he, hsource, hfirst, htarget, hnew⟩ := Multigraph.frontier_concat.mp hext
    obtain ⟨edge, hedge, rfl⟩ := (hfresh p e hp hfrontier hsource).mpr ⟨he, hp ▸ hfirst⟩
    refine ⟨edge, ⟨⟨hedge, hsource, hnew⟩, htarget⟩, ?_⟩
    rw [route_of_concat, hid edge hedge]
    rfl

/-- The trails a round discovers are the direct paths that end with it. -/
theorem mem_arrivals {k : Nat} {fresh : List PlsqlDependencyRecord} {p : List EdgeTriple}
    (hne : source ≠ target) (hfresh : FreshEdges client db source target k fresh)
    (hid : ∀ edge ∈ fresh, edge.id = edge.triple.id client.project_id)
    (hp : p.length = k) (hfrontier : (path_graph client db).Frontier target source p)
    (trail : List String) :
    trail ∈ arrivals target fresh (route_of client db source p) ↔
      ∃ e, (path_graph client db).Walk source (p ++ [e]) target ∧
        (∀ j < p.length, ¬ (path_graph client db).Reach target source j e.source) ∧
        trail = trail_of client (p ++ [e]) := by
  obtain ⟨⟨x, hw⟩, havoid, -⟩ := id hfrontier
  simp only [arrivals, List.mem_map, List.mem_filter, mem_extensions, decide_eq_true_eq,
    mem_route_of_visited, Multigraph.walk_concat, trail_of_concat]
  constructor
  · rintro ⟨edge, ⟨⟨hedge, hsource, -⟩, htarget⟩, rfl⟩
    obtain ⟨he, hfirst⟩ := (hfresh p edge.triple hp hfrontier hsource).mp ⟨edge, hedge, rfl⟩
    refine ⟨edge.triple, ⟨?_, he, htarget⟩, hp ▸ hfirst, ?_⟩
    · change (path_graph client db).Walk source p edge.triple.source
      rw [hsource, show (route_of client db source p).current = x from hw.endpoint_eq]
      exact hw
    · rw [hid edge hedge]
      rfl
  · rintro ⟨e, ⟨hwalk, he, htarget⟩, hfirst, rfl⟩
    have hsource : e.source = (path_graph client db).endpoint source p := hwalk.endpoint_eq.symm
    obtain ⟨edge, hedge, rfl⟩ := (hfresh p e hp hfrontier hsource).mpr ⟨he, hp ▸ hfirst⟩
    refine ⟨edge, ⟨⟨hedge, hsource, ?_⟩, htarget⟩, ?_⟩
    · intro hmem
      rcases List.mem_cons.mp hmem with heq | hmem
      · exact hne (heq.symm.trans htarget)
      · exact havoid (htarget ▸ hmem)
    · rw [hid edge hedge]
      rfl

end lagraph.plsql
