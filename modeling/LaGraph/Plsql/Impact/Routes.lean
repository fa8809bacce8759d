import LaGraph.Foundation.Results
import LaGraph.Plsql.Impact.Rounds

open foundation

namespace lagraph.plsql

/-- A walk in the direction of its edges. -/
def ImpactDirection.flow {α : Type} : ImpactDirection → List α → List α
  | .upstream, p => p.reverse
  | .downstream, p => p

variable {client : AnalysisClient} {db : AnalysisGraph} {direction : ImpactDirection}
  {relationships : List PlsqlRelationship} {anchors : List String} {hops fuel : Nat}
  {reached : Reached} {x : String} {p : List EdgeTriple}

theorem ImpactDirection.length_flow {α : Type} {l : List α} :
    (direction.flow l).length = l.length := by
  cases direction with
  | upstream => exact List.length_reverse
  | downstream => rfl

theorem ImpactDirection.map_flow {α β : Type} {f : α → β} {l : List α} :
    (direction.flow l).map f = direction.flow (l.map f) := by
  cases direction with
  | upstream => exact List.map_reverse
  | downstream => rfl

theorem ImpactDirection.mem_flow {α : Type} {a : α} {l : List α} :
    a ∈ direction.flow l ↔ a ∈ l := by
  cases direction with
  | upstream => exact List.mem_reverse
  | downstream => exact Iff.rfl

theorem ImpactDirection.flow_injective {α : Type} :
    Function.Injective (direction.flow : List α → List α) := by
  cases direction with
  | upstream => exact List.reverse_injective
  | downstream => exact fun _ _ h => h

/-- The trail of a walk. -/
def trail_in (client : AnalysisClient) (direction : ImpactDirection) (p : List EdgeTriple) :
    List String :=
  direction.flow (p.map (·.id client.project_id))

/-- The walks that the parents of a search make up. -/
def walks_to (client : AnalysisClient) (db : AnalysisGraph) (direction : ImpactDirection)
    (relationships : List PlsqlRelationship) (anchors : List String) (reached : Reached)
    (fuel : Nat) (x : String) : List (List EdgeTriple) :=
  Multigraph.routes (impact_graph client db direction relationships) (· ∈ anchors)
    (parents_of reached.parents) fuel x

/-- The routes are the trails of these walks. -/
theorem routes_from_eq
    (hids : ∀ entry ∈ reached.parents, entry.2.id = entry.2.triple.id client.project_id) :
    routes_from direction anchors reached.parents fuel x =
      (walks_to client db direction relationships anchors reached fuel x).map
        (trail_in client direction) := by
  unfold walks_to
  induction fuel generalizing x with
  | zero => rfl
  | succ fuel ih =>
    rw [routes_from, Multigraph.routes, List.map_flatMap, parents_of, List.flatMap_map,
      List.flatMap_map]
    refine List.flatMap_congr fun entry hentry => ?_
    have hid := hids entry (List.mem_of_mem_filter hentry)
    have hsource : (impact_graph client db direction relationships).source entry.2.triple =
        direction.near_end entry.2 := near_end_eq.symm
    rw [hsource, List.map_map, Multigraph.onward]
    simp only [ih]
    split_ifs with hanchor
    · cases direction <;> simp [trail_in, ImpactDirection.flow, hid]
    · rw [List.map_map]
      refine List.map_congr_left fun q _ => ?_
      cases direction <;> simp [trail_in, ImpactDirection.flow, hid]

section Lookups

variable (h : ReachedInv client db direction relationships anchors hops hops reached)
  (hids : IdsIdentify client (Fetched client db direction relationships anchors hops))
include h

theorem ReachedInv.parent_id :
    ∀ entry ∈ reached.parents, entry.2.id = entry.2.triple.id client.project_id :=
  fun entry hentry => (h.table _ (h.parents_table entry hentry)).1

/-- The walks are the shortest ones. -/
theorem ReachedInv.mem_walks (hfuel : hops ≤ fuel) :
    p ∈ walks_to client db direction relationships anchors reached fuel x ↔
      (impact_graph client db direction relationships).Geodesic (· ∈ anchors) p x ∧
        p.length ≤ hops :=
  Multigraph.mem_routes h.keeps (fun _ he => he.1) hfuel

include hids

/-- The edges of a walk are found by their ids. -/
theorem ReachedInv.steps_of_walk
    (hp : p ∈ walks_to client db direction relationships anchors reached fuel x) :
    ∃ steps, (trail_in client direction p).mapM (edge_of reached.edge_by_id) = .ok steps ∧
      steps.map (·.triple) = direction.flow p := by
  have hedge : ∀ e ∈ direction.flow p, ∃ found,
      edge_of reached.edge_by_id (e.id client.project_id) = .ok found ∧ found.triple = e := by
    intro e he
    obtain ⟨y, hy⟩ := Multigraph.mem_parents_of_routes hp e (ImpactDirection.mem_flow.mp he)
    obtain ⟨entry, hentry, rfl⟩ := List.mem_map.mp hy
    have htable := h.parents_table entry (List.mem_of_mem_filter hentry)
    obtain ⟨hid, hfetched⟩ := h.table _ htable
    have hsome : (reached.edge_by_id.find? (·.id = entry.2.id)).isSome = true := by
      rw [List.find?_isSome]
      exact ⟨entry.2, htable, by simp⟩
    obtain ⟨found, hfound⟩ := Option.isSome_iff_exists.mp hsome
    refine ⟨found, ?_, (find_of_table hids h.table hid hfetched hfound).2⟩
    rw [edge_of, ← hid, hfound]
  obtain ⟨steps, hsteps, hall⟩ := results.mapM_ok hedge
  refine ⟨steps, ?_, ?_⟩
  · rw [trail_in, ← ImpactDirection.map_flow, List.mapM_map]
    exact hsteps
  · rw [← List.forall₂_eq_eq_eq, List.forall₂_map_left_iff]
    exact hall.flip

/-- So the routes of some walks are found, in the direction of the edges. -/
theorem ReachedInv.steps_of_walks {l : List (List EdgeTriple)}
    (hl : l ⊆ walks_to client db direction relationships anchors reached fuel x) :
    ∃ routes, (l.map (trail_in client direction)).mapM (fun trail =>
        trail.mapM (edge_of reached.edge_by_id)) = .ok routes ∧
      routes.map (·.map (·.triple)) = l.map direction.flow := by
  obtain ⟨routes, hroutes, hall⟩ := results.mapM_ok fun p hp => h.steps_of_walk hids (hl hp)
  refine ⟨routes, ?_, ?_⟩
  · rw [List.mapM_map]
    exact hroutes
  · rw [← List.forall₂_eq_eq_eq, List.forall₂_map_left_iff, List.forall₂_map_right_iff]
    exact hall.flip

/-- The reached object with its first routes, if it has a record. -/
theorem ReachedInv.dependent {records : List (String × Option PlsqlObjectRecord)}
    {entry : String × Nat} {value : Option PlsqlObjectRecord}
    (hvalue : records.lookup entry.1 = some value) :
    ∃ routes, dependent_of direction anchors hops reached records entry =
        .ok (value.map fun record => { record, distance := entry.2, routes }) ∧
      routes.map (·.map (·.triple)) =
        ((walks_to client db direction relationships anchors reached hops entry.1).take
          MAX_IMPACT_ROUTES_PER_DEPENDENT).map direction.flow := by
  obtain ⟨routes, hroutes, htriples⟩ := h.steps_of_walks hids
    (List.take_subset MAX_IMPACT_ROUTES_PER_DEPENDENT
      (walks_to client db direction relationships anchors reached hops entry.1))
  refine ⟨routes, ?_, htriples⟩
  rw [List.map_take, ← routes_from_eq h.parent_id] at hroutes
  unfold dependent_of
  rw [hvalue]
  cases value with
  | none => rfl
  | some record => simp only [hroutes, Bind.bind, Except.bind, Option.map_some]

end Lookups

end lagraph.plsql
