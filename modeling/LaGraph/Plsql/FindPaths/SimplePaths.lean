import LaGraph.Foundation.Results
import LaGraph.Plsql.FindPaths.Enumerate

open foundation

namespace lagraph.plsql

variable {client : Neo4jPlsqlAnalysisClient} {db : GraphDb} {source target : String}

/-- Distinct edge sequences have distinct trails. -/
theorem trail_of_injective (hids : EdgesIdentified client db) {p q : List EdgeTriple}
    (hp : ∀ e ∈ p, (path_graph client db).Edge e) (hq : ∀ e ∈ q, (path_graph client db).Edge e)
    (h : trail_of client p = trail_of client q) : p = q := by
  induction p generalizing q with
  | nil =>
    cases q with
    | nil => rfl
    | cons f q => simp [trail_of] at h
  | cons e p ih =>
    cases q with
    | nil => simp [trail_of] at h
    | cons f q =>
      simp only [trail_of, List.map_cons, List.cons.injEq] at h
      rw [hids e f (hp e (by simp)) (hq f (by simp)) h.1,
        ih (fun e he => hp e (List.mem_cons_of_mem _ he))
          (fun e he => hq e (List.mem_cons_of_mem _ he)) h.2]

theorem RoundInv.edge_of {k : Nat} {search : Search}
    (h : RoundInv client db source target k search) (hids : EdgesIdentified client db)
    {e : EdgeTriple} (he : (path_graph client db).Edge e)
    (hreach : ∃ j < k, (path_graph client db).Reach target source j e.source) :
    ∃ edge, edge_of search.edge_by_id (e.id client.project_id) = .ok edge ∧ e = edge.triple := by
  obtain ⟨edge, hmem, hid⟩ := List.mem_map.mp ((h.table_seen e he).mpr hreach)
  unfold lagraph.plsql.edge_of
  cases hfind : search.edge_by_id.find? (·.id = e.id client.project_id) with
  | none =>
    have hnone := List.find?_eq_none.mp hfind edge hmem
    simp [hid] at hnone
  | some other =>
    obtain ⟨hgraph, hid'⟩ := h.table_edge other (List.mem_of_find?_eq_some hfind)
    refine ⟨other, rfl, hids e other.triple he hgraph ?_⟩
    rw [← hid']
    exact (by simpa using List.find?_some hfind : other.id = e.id client.project_id).symm

/-- Every edge of a direct path leaves a node reached in fewer hops than the
path has edges. -/
theorem reach_of_arrives {p : List EdgeTriple}
    (h : (path_graph client db).Arrives target source p) :
    ∀ e ∈ p, (path_graph client db).Edge e ∧
      ∃ j < p.length, (path_graph client db).Reach target source j e.source := by
  obtain ⟨q, e, rfl, ⟨-, havoid, -, -⟩, hw, -⟩ := h
  intro f hf
  refine ⟨hw.edge f hf, ?_⟩
  obtain ⟨a, b, heq⟩ := List.append_of_mem hf
  have hwf := hw
  rw [heq] at hwf
  obtain ⟨x, ha, -, rfl, -⟩ := Multigraph.walk_append.mp hwf
  refine ⟨a.length, by simp [heq], a, rfl, ha, fun hmem => havoid ?_⟩
  obtain ⟨c, hc, hct⟩ := List.mem_map.mp hmem
  refine List.mem_map.mpr ⟨c, ?_, hct⟩
  have hqa : a <+: q ++ [e] := ⟨f :: b, heq.symm⟩
  rcases List.prefix_concat_iff.mp hqa with heqa | hpre
  · simp [heqa] at heq
  · exact hpre.subset hc

/-- The exploration of a search stays inside the traversal budget. -/
def WithinBudget (client : Neo4jPlsqlAnalysisClient) (db : GraphDb) (source target : String)
    (hops : Nat) : Prop :=
  search_rounds client db target hops (search_start source) ≠ .error traversal_bound_exceeded

/-- Inside the budget the search returns the direct paths within the hop bound,
each once. -/
theorem all_paths_spec (hne : source ≠ target) (hmap : RowsMap client db)
    (hids : EdgesIdentified client db) {hops : Nat}
    (hbudget : WithinBudget client db source target hops) :
    ∃ paths, all_paths client db source target hops = .ok paths ∧
      (paths.map (·.map (·.triple))).Nodup ∧
      ∀ p, p ∈ paths.map (·.map (·.triple)) ↔
        p.length ≤ hops ∧ (path_graph client db).Arrives target source p := by
  obtain hlimit | ⟨search, hsearch, h⟩ :=
    roundInv_start.search_rounds hne hmap hids hops
  · exact absurd hlimit hbudget
  rw [Nat.zero_add] at h
  have htrail : ∀ trail ∈ search.discovered, ∃ steps,
      trail.mapM (edge_of search.edge_by_id) = .ok steps ∧
        ((steps.map (·.triple)).length ≤ hops ∧
          (path_graph client db).Arrives target source (steps.map (·.triple)) ∧
          trail = trail_of client (steps.map (·.triple))) := by
    intro trail hmem
    obtain ⟨p, hlen, harrives, rfl⟩ := (h.discovered trail).mp hmem
    have hedges := reach_of_arrives harrives
    obtain ⟨steps, hsteps, hall⟩ := results.mapM_ok
      (f := edge_of search.edge_by_id) (l := trail_of client p)
      (R := fun eid edge => eid = edge.triple.id client.project_id ∧
        (path_graph client db).Edge edge.triple) (by
        intro eid hid
        obtain ⟨e, he, rfl⟩ := List.mem_map.mp hid
        obtain ⟨hgraph, j, hj, hreach⟩ := hedges e he
        obtain ⟨edge, hedge, rfl⟩ := h.edge_of hids hgraph ⟨j, by omega, hreach⟩
        exact ⟨edge, hedge, rfl, hgraph⟩)
    have htriples : steps.map (·.triple) = p := by
      refine trail_of_injective hids ?_ (fun e he => (hedges e he).1) ?_
      · intro e he
        obtain ⟨edge, hedge, rfl⟩ := List.mem_map.mp he
        obtain ⟨eid, -, -, hgraph⟩ := results.forall₂_exists_left hall hedge
        exact hgraph
      · symm
        rw [trail_of, trail_of, List.map_map, ← List.forall₂_eq_eq_eq, List.forall₂_map_right_iff]
        exact hall.imp fun _ _ hR => hR.1
    exact ⟨steps, hsteps, by rw [htriples]; exact ⟨hlen, harrives, rfl⟩⟩
  obtain ⟨paths, hpaths, hall⟩ := results.mapM_ok htrail
  refine ⟨paths.insertionSort path_order, ?_, ?_, ?_⟩
  · simp only [all_paths, hsearch, hpaths, Bind.bind, Except.bind]
  · have hnodup : (paths.map (·.map (·.triple))).Nodup := by
      apply List.Nodup.of_map (trail_of client)
      have heq : search.discovered = (paths.map (·.map (·.triple))).map (trail_of client) := by
        rw [List.map_map, ← List.forall₂_eq_eq_eq, List.forall₂_map_right_iff]
        exact hall.imp fun _ _ hR => hR.2.2
      rw [← heq]
      exact h.discovered_nodup
    exact ((List.perm_insertionSort path_order paths).map _).nodup_iff.mpr hnodup
  · intro p
    rw [((List.perm_insertionSort path_order paths).map _).mem_iff, List.mem_map]
    constructor
    · rintro ⟨steps, hsteps, rfl⟩
      obtain ⟨trail, -, hlen, harrives, -⟩ := results.forall₂_exists_left hall hsteps
      exact ⟨hlen, harrives⟩
    · rintro ⟨hlen, harrives⟩
      have hmem := (h.discovered _).mpr ⟨p, hlen, harrives, rfl⟩
      obtain ⟨steps, hsteps, -, harrives', htrail'⟩ := results.forall₂_exists_right hall hmem
      refine ⟨steps, hsteps, (trail_of_injective hids ?_ ?_ htrail').symm⟩
      · exact fun e he => (reach_of_arrives harrives e he).1
      · exact fun e he => (reach_of_arrives harrives' e he).1

end lagraph.plsql
