import Mathlib.Data.List.Dedup
import Mathlib.Data.List.Lex
import Mathlib.Data.Prod.Lex
import LaGraph.Foundation.Multigraph
import LaGraph.Plsql.Synthetic

open foundation

namespace lagraph.plsql.SyntheticPlsqlAnalysisClient

variable {client : SyntheticPlsqlAnalysisClient} {from_id to_id : String}

/-- An edge id determines both ends, as ids built from them do. -/
def EdgesIdentified (client : SyntheticPlsqlAnalysisClient) : Prop :=
  ∀ a ∈ client.edges, ∀ b ∈ client.edges, a.id = b.id →
    a.source_id = b.source_id ∧ a.target_id = b.target_id

/-- The graph that path search walks, with edge ids for edges. -/
def path_graph (client : SyntheticPlsqlAnalysisClient) : Multigraph String String where
  Edge id := ∃ edge ∈ client.traversed PATH_RELATIONSHIPS, edge.id = id
  source id := ((client.edge_by_id id).map (·.source_id)).getD ""
  target id := ((client.edge_by_id id).map (·.target_id)).getD ""

theorem mem_traversed {relationships : List PlsqlRelationship} {edge : PlsqlDependencyRecord}
    (h : edge ∈ client.traversed relationships) : edge ∈ client.edges :=
  (List.mem_filter.mp h).1

theorem edge_by_id_of_mem {edge : PlsqlDependencyRecord} (h : edge ∈ client.edges) :
    ∃ found ∈ client.edges, client.edge_by_id edge.id = some found ∧ found.id = edge.id := by
  have hsome : (client.edge_by_id edge.id).isSome = true := by
    rw [edge_by_id, List.find?_isSome]
    exact ⟨edge, List.mem_reverse.mpr h, by simp⟩
  obtain ⟨found, hfound⟩ := Option.isSome_iff_exists.mp hsome
  have hid := List.find?_some hfound
  exact ⟨found, List.mem_reverse.mp (List.mem_of_find?_eq_some hfound), hfound, by simpa using hid⟩

/-- The ends of an edge are those of the last edge with its id. -/
theorem ends_of_mem (hids : client.EdgesIdentified) {edge : PlsqlDependencyRecord}
    (h : edge ∈ client.edges) :
    client.path_graph.source edge.id = edge.source_id ∧
      client.path_graph.target edge.id = edge.target_id := by
  obtain ⟨found, hmem, hfound, hid⟩ := edge_by_id_of_mem h
  obtain ⟨hsource, htarget⟩ := hids found hmem edge h hid
  simp only [path_graph, hfound, Option.map_some, Option.getD_some]
  exact ⟨hsource, htarget⟩

theorem steps_targets {trail : List String} (h : ∀ id ∈ trail, client.path_graph.Edge id) :
    (client.steps trail).map (·.target_id) = trail.map client.path_graph.target := by
  induction trail with
  | nil => rfl
  | cons id trail ih =>
    obtain ⟨edge, hedge, rfl⟩ := h id List.mem_cons_self
    obtain ⟨found, -, hfound, -⟩ := edge_by_id_of_mem (mem_traversed hedge)
    have hrest := ih fun id hid => h id (List.mem_cons_of_mem _ hid)
    simp only [steps] at hrest ⊢
    rw [List.filterMap_cons_some hfound, List.map_cons, List.map_cons, hrest]
    simp only [path_graph, hfound, Option.map_some, Option.getD_some]

/-- The nodes that `walk` has visited are those of its trail. -/
theorem visited_eq {trail : List String} (h : ∀ id ∈ trail, client.path_graph.Edge id) :
    from_id :: (client.steps trail).map (·.target_id) = client.path_graph.nodes from_id trail := by
  rw [steps_targets h, Multigraph.nodes]

theorem mem_adjacency {near_end : PlsqlDependencyRecord → String}
    {relationships : List PlsqlRelationship} {current : String} {edge : PlsqlDependencyRecord} :
    edge ∈ client.adjacency near_end relationships current ↔
      edge ∈ client.traversed relationships ∧ near_end edge = current := by
  rw [adjacency, List.mem_insertionSort, List.mem_filter, decide_eq_true_eq]

theorem walk_arrived {hops : Nat} {trail : List String} (h : trail ≠ []) :
    client.walk from_id to_id hops to_id trail = [trail] := by
  unfold walk
  rw [if_pos rfl, if_neg h]

theorem walk_stops {current : String} {trail : List String} (h : current ≠ to_id) :
    client.walk from_id to_id 0 current trail = [] := by
  rw [walk, if_neg h]

theorem walk_onward {hops : Nat} {current : String} {trail : List String} (h : current ≠ to_id) :
    client.walk from_id to_id (hops + 1) current trail =
      ((client.adjacency (·.source_id) PATH_RELATIONSHIPS current).filter
        (·.target_id ∉ from_id :: (client.steps trail).map (·.target_id))).flatMap fun edge =>
          client.walk from_id to_id hops edge.target_id (trail ++ [edge.id]) := by
  rw [walk, if_neg h]

/-- A walk that has arrived goes on to its target in no other way. -/
theorem arrived_iff {hops : Nat} {current : String} {trail found : List String}
    (hwalk : client.path_graph.Walk from_id trail current)
    (hnodup : (client.path_graph.nodes from_id trail).Nodup) :
    found = trail ↔ ∃ rest, found = trail ++ rest ∧ client.path_graph.Walk current rest current ∧
      (client.path_graph.nodes from_id trail ++ rest.map client.path_graph.target).Nodup ∧
      rest.length ≤ hops := by
  constructor
  · rintro rfl
    exact ⟨[], by simp, rfl, by simpa using hnodup, by simp⟩
  · rintro ⟨rest, rfl, hrest, hall, -⟩
    rcases rest.eq_nil_or_concat with rfl | ⟨before, id, rfl⟩
    · simp
    · rw [List.concat_eq_append] at hrest hall
      have htarget := (Multigraph.walk_concat.mp hrest).2.2
      have hcurrent : current ∈ client.path_graph.nodes from_id trail := by
        rw [← hwalk.endpoint_eq]
        exact Multigraph.endpoint_mem_nodes _ _ _
      have hagain : current ∈ (before ++ [id]).map client.path_graph.target := by
        simp [htarget]
      exact (List.disjoint_of_nodup_append hall hcurrent hagain).elim

theorem mem_walk_arrived (hne : from_id ≠ to_id) {hops : Nat} {trail found : List String}
    (hwalk : client.path_graph.Walk from_id trail to_id)
    (hnodup : (client.path_graph.nodes from_id trail).Nodup) :
    found ∈ client.walk from_id to_id hops to_id trail ↔
      ∃ rest, found = trail ++ rest ∧ client.path_graph.Walk to_id rest to_id ∧
        (client.path_graph.nodes from_id trail ++ rest.map client.path_graph.target).Nodup ∧
        rest.length ≤ hops := by
  have htrail : trail ≠ [] := by
    rintro rfl
    exact hne hwalk
  rw [walk_arrived htrail, List.mem_singleton]
  exact arrived_iff hwalk hnodup

/-- Going on along an edge to a node that is not visited. -/
theorem extends_walk (hids : client.EdgesIdentified) {current : String} {trail : List String}
    {edge : PlsqlDependencyRecord} (hwalk : client.path_graph.Walk from_id trail current)
    (hnodup : (client.path_graph.nodes from_id trail).Nodup)
    (hedge : edge ∈ client.traversed PATH_RELATIONSHIPS) (hsource : edge.source_id = current)
    (hnew : edge.target_id ∉ client.path_graph.nodes from_id trail) :
    client.path_graph.Walk from_id (trail ++ [edge.id]) edge.target_id ∧
      (client.path_graph.nodes from_id (trail ++ [edge.id])).Nodup := by
  obtain ⟨hids_source, hids_target⟩ := ends_of_mem hids (mem_traversed hedge)
  constructor
  · rw [Multigraph.walk_concat, hids_source, hsource]
    exact ⟨hwalk, ⟨edge, hedge, rfl⟩, hids_target⟩
  · rw [Multigraph.nodes_concat, hids_target, List.nodup_append_comm, List.singleton_append,
      List.nodup_cons]
    exact ⟨hnew, hnodup⟩

/-- The trails that `walk` finds are those that go on from the given one to the target without
visiting a node again. -/
theorem mem_walk (hids : client.EdgesIdentified) (hne : from_id ≠ to_id) {hops : Nat}
    {current : String} {trail found : List String}
    (hwalk : client.path_graph.Walk from_id trail current)
    (hnodup : (client.path_graph.nodes from_id trail).Nodup) :
    found ∈ client.walk from_id to_id hops current trail ↔
      ∃ rest, found = trail ++ rest ∧ client.path_graph.Walk current rest to_id ∧
        (client.path_graph.nodes from_id trail ++ rest.map client.path_graph.target).Nodup ∧
        rest.length ≤ hops := by
  induction hops generalizing current trail with
  | zero =>
    by_cases harrived : current = to_id
    · subst harrived
      exact mem_walk_arrived hne hwalk hnodup
    · rw [walk_stops harrived]
      constructor
      · intro h
        cases h
      · rintro ⟨rest, -, hrest, -, hlength⟩
        rw [List.length_eq_zero_iff.mp (Nat.le_zero.mp hlength)] at hrest
        exact absurd hrest harrived
  | succ hops ih =>
    by_cases harrived : current = to_id
    · subst harrived
      exact mem_walk_arrived hne hwalk hnodup
    · simp only [walk_onward harrived, visited_eq hwalk.edge, List.mem_flatMap, List.mem_filter,
        mem_adjacency, decide_eq_true_eq]
      constructor
      · rintro ⟨edge, ⟨⟨hedge, hsource⟩, hnew⟩, hfound⟩
        obtain ⟨hids_source, hids_target⟩ := ends_of_mem hids (mem_traversed hedge)
        obtain ⟨hwalk', hnodup'⟩ := extends_walk hids hwalk hnodup hedge hsource hnew
        obtain ⟨rest, rfl, hrest, hall, hlength⟩ := (ih hwalk' hnodup').mp hfound
        refine ⟨edge.id :: rest, by simp, ⟨⟨edge, hedge, rfl⟩, hids_source.trans hsource, ?_⟩, ?_,
          by simpa using hlength⟩
        · rw [hids_target]
          exact hrest
        · simpa [Multigraph.nodes_concat] using hall
      · rintro ⟨rest, rfl, hrest, hall, hlength⟩
        cases rest with
        | nil => exact absurd hrest harrived
        | cons id rest =>
          obtain ⟨⟨edge, hedge, rfl⟩, hsource, hrest⟩ := hrest
          obtain ⟨hids_source, hids_target⟩ := ends_of_mem hids (mem_traversed hedge)
          have hnew : edge.target_id ∉ client.path_graph.nodes from_id trail := by
            intro hmem
            refine List.disjoint_of_nodup_append hall hmem ?_
            rw [← hids_target]
            exact List.mem_map_of_mem List.mem_cons_self
          have hcurrent := hids_source.symm.trans hsource
          obtain ⟨hwalk', hnodup'⟩ := extends_walk hids hwalk hnodup hedge hcurrent hnew
          refine ⟨edge, ⟨⟨hedge, hcurrent⟩, hnew⟩, (ih hwalk' hnodup').mpr
            ⟨rest, by simp, ?_, ?_, by simpa using hlength⟩⟩
          · rw [← hids_target]
            exact hrest
          · simpa [Multigraph.nodes_concat] using hall

/-- The order of trails as the order of a key. -/
def trail_key (client : SyntheticPlsqlAnalysisClient) (trail : List String) :
    Nat ×ₗ List String ×ₗ List String :=
  toLex (trail.length, toLex ((client.steps trail).map (·.target_id), trail))

theorem trail_order_iff {a b : List String} :
    client.trail_order a b ↔ client.trail_key a ≤ client.trail_key b := by
  rw [trail_key, trail_key, Prod.Lex.toLex_le_toLex, Prod.Lex.toLex_le_toLex]
  rfl

instance : Std.Total client.trail_order where
  total a b := by
    rw [trail_order_iff, trail_order_iff]
    exact le_total _ _

instance : IsTrans (List String) client.trail_order where
  trans a b c hab hbc := by
    rw [trail_order_iff] at *
    exact le_trans hab hbc

/-- The trails between two objects in the order of the result. -/
def trails (client : SyntheticPlsqlAnalysisClient) (from_id to_id : String) (max_hops : Int) :
    List (List String) :=
  (client.walk from_id to_id (bounded_hops max_hops) from_id []).dedup.insertionSort
    client.trail_order

theorem mem_trails (hids : client.EdgesIdentified) (hne : from_id ≠ to_id) {max_hops : Int}
    {p : List String} : p ∈ client.trails from_id to_id max_hops ↔
      client.path_graph.SimplePath from_id to_id p ∧ p.length ≤ max 1 max_hops := by
  have hwalk : client.path_graph.Walk from_id [] from_id := rfl
  have hnodup : (client.path_graph.nodes from_id []).Nodup := by simp
  rw [trails, List.mem_insertionSort, List.mem_dedup, mem_walk hids hne hwalk hnodup]
  simp only [List.nil_append, Multigraph.nodes_nil, List.singleton_append, exists_eq_left']
  rw [Multigraph.SimplePath, Multigraph.nodes, bounded_hops, and_assoc]
  have hbound : p.length ≤ (max 1 max_hops).toNat ↔ (p.length : Int) ≤ max 1 max_hops := by omega
  rw [hbound]

theorem nodup_trails {max_hops : Int} : (client.trails from_id to_id max_hops).Nodup :=
  (List.perm_insertionSort _ _).nodup_iff.mpr (List.nodup_dedup _)

/-- The steps of a trail are its edges. -/
theorem steps_ids {trail : List String} (h : ∀ id ∈ trail, client.path_graph.Edge id) :
    (client.steps trail).map (·.id) = trail := by
  induction trail with
  | nil => rfl
  | cons id trail ih =>
    obtain ⟨edge, hedge, rfl⟩ := h id List.mem_cons_self
    obtain ⟨found, -, hfound, hid⟩ := edge_by_id_of_mem (mem_traversed hedge)
    have hrest := ih fun id hid => h id (List.mem_cons_of_mem _ hid)
    simp only [steps] at hrest ⊢
    rw [List.filterMap_cons_some hfound, List.map_cons, hrest, hid]

/-- A path search returns a slice of one ordering, shortest first, of the simple paths within
the hop bound; the bounds are raised to one, and a page holds at most `max_rows` paths. -/
theorem find_paths_slices (hids : client.EdgesIdentified) (hne : from_id ≠ to_id)
    (max_hops : Int) :
    ∃ paths : List (List String), paths.Nodup ∧ paths.Pairwise client.trail_order ∧
      (∀ p, p ∈ paths ↔
        client.path_graph.SimplePath from_id to_id p ∧ p.length ≤ max 1 max_hops) ∧
      (∀ p ∈ paths, (client.steps p).map (·.id) = p) ∧
      ∀ (sha1 : String → String) (limit offset : Int),
        let start := (max 0 offset).toNat
        let size := (max 1 (min limit client.max_rows)).toNat
        let page := client.find_paths sha1 from_id to_id max_hops limit offset
        page.items = ((paths.drop start).take size).map (client.path_record sha1) ∧
          (page.truncated = true ↔ start + size < paths.length) ∧ page.total = paths.length := by
  refine ⟨client.trails from_id to_id max_hops, nodup_trails,
    List.pairwise_insertionSort client.trail_order _, fun p => mem_trails hids hne,
    fun p hp => steps_ids ((mem_trails hids hne).mp hp).1.1.edge, fun sha1 limit offset => ?_⟩
  have hall : client.all_paths sha1 from_id to_id max_hops =
      (client.trails from_id to_id max_hops).map (client.path_record sha1) := rfl
  simp only [find_paths, hall, bounded_limit, List.length_map, List.map_take, List.map_drop,
    decide_eq_true_eq, and_self]

def pair_object (name : String) : PlsqlObjectRecord where
  id := name
  kind := .Procedure
  name := name
  schema_name := "HR"
  qualified_name := name
  project_id := "p"
  owner := none
  evidence := none

def pair_edge (relationship : PlsqlRelationship) : PlsqlDependencyRecord where
  id := relationship.name
  relationship := relationship
  resolution := .EXACT
  source_id := "A"
  source_kind := .Procedure
  source_name := "A"
  source_qualified_name := "A"
  target_id := "B"
  target_kind := .Procedure
  target_name := "B"
  target_qualified_name := "B"
  evidence := none
  evidence_kind := none
  derived := none
  events := none
  via_table_id := none
  via_table_kind := none
  via_table_name := none
  via_table_qualified_name := none

/-- Two relationships join `A` and `B`; a page holds one path. -/
def pair_client : SyntheticPlsqlAnalysisClient where
  project_id := "p"
  max_rows := 1
  corpus := [pair_object "A", pair_object "B"]
  edges := [pair_edge .CALLS, pair_edge .READS]
  max_rows_pos := Nat.zero_lt_one

theorem pair_identified : pair_client.EdgesIdentified := by
  intro a ha b hb _
  simp only [pair_client, List.mem_cons, List.not_mem_nil, or_false] at ha hb
  rcases ha with rfl | rfl <;> rcases hb with rfl | rfl <;> exact ⟨rfl, rfl⟩

theorem find_paths_slices_pair : ∃ paths : List (List String), paths.Nodup ∧
    (pair_client.find_paths id "A" "B" 1 2 0).items =
      (paths.take 1).map (pair_client.path_record id) ∧
    (pair_client.find_paths id "A" "B" 1 2 0).total = paths.length := by
  obtain ⟨paths, hnodup, -, -, -, hpage⟩ :=
    @find_paths_slices pair_client "A" "B" pair_identified (by decide) 1
  exact ⟨paths, hnodup, (hpage id 2 0).1, (hpage id 2 0).2.2⟩

/-- The slices are those of the bounds as they are asked for. -/
def SlicesAsAsked (client : SyntheticPlsqlAnalysisClient) (from_id to_id : String)
    (max_hops : Int) : Prop :=
  ∃ paths : List (List String), paths.Nodup ∧ paths.Pairwise client.trail_order ∧
    (∀ p, p ∈ paths ↔ client.path_graph.SimplePath from_id to_id p ∧ p.length ≤ max_hops) ∧
    ∀ (sha1 : String → String) (limit offset : Nat),
      let page := client.find_paths sha1 from_id to_id max_hops limit offset
      page.items = ((paths.drop offset).take limit).map (client.path_record sha1) ∧
        (page.truncated = true ↔ offset + limit < paths.length) ∧ page.total = paths.length

/-- Asked for two paths, the client returns one of them. -/
theorem pair_page_capped : pair_client.EdgesIdentified ∧ "A" ≠ "B" ∧
    ¬ SlicesAsAsked pair_client "A" "B" 1 := by
  refine ⟨pair_identified, by decide, ?_⟩
  rintro ⟨paths, -, -, -, hpage⟩
  obtain ⟨hitems, -, htotal⟩ := hpage id 2 0
  have hlength : (pair_client.find_paths id "A" "B" 1 (2 : Nat) (0 : Nat)).items.length = 1 := by
    decide +kernel
  have hcount : (pair_client.find_paths id "A" "B" 1 (2 : Nat) (0 : Nat)).total = 2 := by
    decide +kernel
  have hsame := congrArg List.length hitems
  rw [List.length_map, List.length_take, List.length_drop, ← htotal, hlength, hcount] at hsame
  omega

end lagraph.plsql.SyntheticPlsqlAnalysisClient
