import LaGraph.Plsql.Impact.Items
import LaGraph.Plsql.Isolation

open foundation

namespace lagraph.plsql

section Statement

variable (client : AnalysisClient) (db : AnalysisGraph) (direction : ImpactDirection)
  (relationships : List PlsqlRelationship) (anchors : List String)

/-- An object with a record, other than the changed one, that a walk of at most `hops` edges
reaches from the anchors. -/
def Affected (c : ObjectCache) (changed : PlsqlObjectRecord) (hops : Nat) (x : String) : Prop :=
  x ≠ changed.qualified_name ∧ (known_record client db c x).isSome = true ∧ ∃ k, 0 < k ∧ k ≤ hops ∧
    (impact_graph client db direction relationships).Arrive (· ∈ anchors) k x

/-- The shortest routes to an object. -/
def shortest_routes (x : String) : Set (List EdgeTriple) :=
  {p | (impact_graph client db direction relationships).Geodesic (· ∈ anchors) p x}

/-- The item of an object tells how far it is, and up to five of its shortest routes. -/
structure ItemExact (c : ObjectCache) (x : String) (item : PlsqlImpactItemRecord) : Prop where
  dependent : known_record client db c x = some item.dependent
  distance : (impact_graph client db direction relationships).Level (· ∈ anchors) item.distance x
  distinct : (item.paths.map fun path => path.steps.map (·.triple)).Nodup
  shortest : ∀ path ∈ item.paths, path.hop_count = item.distance ∧
    ∃ p ∈ shortest_routes client db direction relationships anchors x,
      path.steps.map (·.triple) = direction.flow p
  count : item.paths.length =
    min 5 (shortest_routes client db direction relationships anchors x).ncard

/-- The items are those of the affected objects, one for each. -/
def Impact.Exact (c : ObjectCache) (changed : PlsqlObjectRecord) (hops : Nat)
    (impact : Impact) : Prop :=
  ∃ entries : List (String × PlsqlImpactItemRecord), entries.map (·.2) = impact.items ∧
    (entries.map (·.1)).Nodup ∧
    (∀ x, x ∈ entries.map (·.1) ↔
      Affected client db direction relationships anchors c changed hops x) ∧
    ∀ entry ∈ entries, ItemExact client db direction relationships anchors c entry.1 entry.2

/-- Each edge on a shortest route to the object is one relationship. -/
def Undoubled (x : String) : Prop :=
  ∀ p ∈ shortest_routes client db direction relationships anchors x, ∀ e ∈ p,
    occurrences client db relationships e = 1

/-- The nodes of reached objects that are not cached can be read. -/
def NodesReadable (c : ObjectCache) (changed : PlsqlObjectRecord) (hops : Nat) : Prop :=
  ∀ x, x ≠ changed.qualified_name →
    (∃ k ≤ hops, (impact_graph client db direction relationships).Level (· ∈ anchors) k x) →
    c.lookup (object_id client.project_id x) = none →
    ∀ node ∈ db.objects, node.projectId = some client.project_id →
      node.qualifiedName = some x → ∃ record,
        object_from_node client.project_id node (client.file_map db) = .ok record

end Statement

variable {env : Environment} {client : AnalysisClient} {db : AnalysisGraph}
  {direction : ImpactDirection} {relationships : List PlsqlRelationship} {anchors : List String}
  {changed : PlsqlObjectRecord} {hops : Nat} {reached : Reached} {c : ObjectCache} {x : String}

section Walks

variable (h : ReachedInv client db direction relationships anchors hops hops reached) {k : Nat}
include h

/-- At a reached object, every shortest route is short enough. -/
theorem ReachedInv.near (hreached : (x, k) ∈ reached.distance) :
    ∀ p, (impact_graph client db direction relationships).Geodesic (· ∈ anchors) p x →
      p.length ≤ hops := by
  intro p hp
  obtain ⟨hk, hlevel⟩ := (h.distance x k).mp hreached
  have hlength := hp.2.unique hlevel
  omega

theorem ReachedInv.mem_walks_iff (hreached : (x, k) ∈ reached.distance) {p : List EdgeTriple} :
    p ∈ walks_to client db direction relationships anchors reached hops x ↔
      p ∈ shortest_routes client db direction relationships anchors x :=
  (h.mem_walks (Nat.le_refl hops)).trans ⟨fun hp => hp.1, fun hp => ⟨hp, h.near hreached p hp⟩⟩

/-- The walks are distinct when no edge on them is doubled. -/
theorem ReachedInv.nodup_walks_iff (hreached : (x, k) ∈ reached.distance) :
    (walks_to client db direction relationships anchors reached hops x).Nodup ↔
      Undoubled client db direction relationships anchors x :=
  (Multigraph.nodup_routes_iff h.keeps (fun _ he => he.1) (Nat.le_refl hops)).trans
    ⟨fun hall p hp => hall p hp (h.near hreached p hp), fun hall p hp _ => hall p hp⟩

theorem ReachedInv.ncard_routes (hreached : (x, k) ∈ reached.distance) :
    (shortest_routes client db direction relationships anchors x).ncard =
      (walks_to client db direction relationships anchors reached hops x).dedup.length :=
  Multigraph.ncard_geodesics h.keeps (fun _ he => he.1) (Nat.le_refl hops) (h.near hreached)

/-- What an item shows is exact when no edge on the routes is doubled. -/
theorem Shows.exact {entry : String × PlsqlImpactItemRecord}
    (hshows : Shows client db direction relationships anchors hops reached c entry)
    (hundoubled : Undoubled client db direction relationships anchors entry.1) :
    ItemExact client db direction relationships anchors c entry.1 entry.2 := by
  have hnodup := (h.nodup_walks_iff hshows.distance).mpr hundoubled
  obtain ⟨hk, hlevel⟩ := (h.distance _ _).mp hshows.distance
  refine ⟨hshows.dependent, hlevel, ?_, fun path hpath => ?_, ?_⟩
  · rw [hshows.paths.nodup_iff]
    exact (hnodup.sublist (List.take_sublist _ _)).map ImpactDirection.flow_injective
  · have hmem : path.steps.map (·.triple) ∈
        entry.2.paths.map fun path => path.steps.map (·.triple) :=
      List.mem_map_of_mem hpath
    rw [hshows.paths.mem_iff] at hmem
    obtain ⟨p, hp, hflow⟩ := List.mem_map.mp hmem
    have hroute := (h.mem_walks_iff hshows.distance).mp (List.mem_of_mem_take hp)
    have hlength := congrArg List.length hflow
    rw [ImpactDirection.length_flow, List.length_map, hroute.2.unique hlevel] at hlength
    exact ⟨(hshows.hops path hpath).trans hlength.symm, p, hroute, hflow.symm⟩
  · have hlength := hshows.paths.length_eq
    rw [List.length_map, List.length_map, shown_walks, List.length_take] at hlength
    rw [hlength, h.ncard_routes hshows.distance, hnodup.dedup]
    rfl

/-- Where there are fewer routes than an item can show, no edge on them is doubled if the item
shows as many as there are. -/
theorem Shows.undoubled {entry : String × PlsqlImpactItemRecord}
    (hshows : Shows client db direction relationships anchors hops reached c entry)
    (hcount : entry.2.paths.length =
      min 5 (shortest_routes client db direction relationships anchors entry.1).ncard)
    (hfew : (shortest_routes client db direction relationships anchors entry.1).ncard < 5) :
    Undoubled client db direction relationships anchors entry.1 := by
  rw [← h.nodup_walks_iff hshows.distance]
  have hlength := hshows.paths.length_eq
  rw [List.length_map, List.length_map, shown_walks, List.length_take, hcount,
    MAX_IMPACT_ROUTES_PER_DEPENDENT] at hlength
  rw [h.ncard_routes hshows.distance] at hlength hfew
  have hsame : (walks_to client db direction relationships anchors reached hops entry.1).dedup =
      walks_to client db direction relationships anchors reached hops entry.1 :=
    (List.dedup_sublist _).eq_of_length (by omega)
  rw [← hsame]
  exact List.nodup_dedup _

/-- The routes of an item tell which object it is about. -/
theorem Shows.object {entry : String × PlsqlImpactItemRecord}
    (hshows : Shows client db direction relationships anchors hops reached c entry)
    (hexact : ItemExact client db direction relationships anchors c x entry.2) : entry.1 = x := by
  obtain ⟨hk, hlevel⟩ := (h.distance _ _).mp hshows.distance
  obtain ⟨p, hp⟩ := hlevel.geodesic
  have hwalk := (h.mem_walks_iff hshows.distance).mpr hp
  have hshown : shown_walks client db direction relationships anchors hops reached entry.1 ≠ [] := by
    rw [shown_walks, Ne, List.take_eq_nil_iff, not_or]
    exact ⟨by decide, List.ne_nil_of_mem hwalk⟩
  obtain ⟨q, hq⟩ := List.exists_mem_of_ne_nil _ hshown
  have hroute := (h.mem_walks_iff hshows.distance).mp (List.mem_of_mem_take hq)
  have hmem := hshows.paths.mem_iff.mpr (List.mem_map_of_mem (f := direction.flow) hq)
  obtain ⟨path, hpath, hsteps⟩ := List.mem_map.mp hmem
  obtain ⟨-, p', hp', hflow⟩ := hexact.shortest path hpath
  have hsame : q = p' := ImpactDirection.flow_injective (hsteps.symm.trans hflow)
  exact hroute.unique_end (hsame ▸ hp')

end Walks

/-- `routes_from` of the second object goes on to the first. -/
def routes_call (direction : ImpactDirection) (anchors : List String)
    (parents : List (String × PlsqlDependencyRecord)) (current peer : String) : Prop :=
  current ∉ anchors ∧ ∃ entry ∈ parents, entry.1 = peer ∧ direction.near_end entry.2 = current

/-- The enumeration of routes ends: no chain of calls is infinite, and at every reached object
the fuel does not matter. -/
structure RoutesEnd (direction : ImpactDirection) (anchors : List String) (hops : Nat)
    (reached : Reached) : Prop where
  calls : WellFounded (routes_call direction anchors reached.parents)
  fuel : ∀ entry ∈ reached.distance, ∀ fuel, hops ≤ fuel →
    routes_from direction anchors reached.parents fuel entry.1 =
      routes_from direction anchors reached.parents hops entry.1

section Search

variable (h : ReachedInv client db direction relationships anchors hops hops reached)
include h

/-- Kept edges lead from one level to the next. -/
theorem ReachedInv.call_level {current peer : String}
    (hcall : routes_call direction anchors reached.parents current peer) :
    ∃ k, (impact_graph client db direction relationships).Level (· ∈ anchors) k current ∧
      (impact_graph client db direction relationships).Level (· ∈ anchors) (k + 1) peer := by
  obtain ⟨hanchor, entry, hentry, rfl, rfl⟩ := hcall
  have hparent : entry.2.triple ∈ parents_of reached.parents entry.1 :=
    List.mem_map_of_mem (f := fun entry : String × PlsqlDependencyRecord => entry.2.triple)
      (List.mem_filter.mpr ⟨hentry, by simp⟩)
  obtain ⟨k, -, -, -, hfront, hlevel⟩ := h.keeps.parent hparent
  rw [near_end_eq] at hanchor ⊢
  rcases hfront with ⟨-, hmem⟩ | ⟨-, hsource⟩
  · exact absurd hmem hanchor
  · exact ⟨k, hsource, hlevel⟩

theorem ReachedInv.routesEnd : RoutesEnd direction anchors hops reached := by
  have hlevel : ∀ k x, (impact_graph client db direction relationships).Level (· ∈ anchors) k x →
      Acc (routes_call direction anchors reached.parents) x := by
    intro k
    induction k with
    | zero => exact fun x hx => absurd hx.1 (Nat.lt_irrefl 0)
    | succ k ih =>
      refine fun x hx => ⟨x, fun y hcall => ?_⟩
      obtain ⟨j, hy, hx'⟩ := h.call_level hcall
      have hsame := hx.unique hx'
      exact ih y ((show j = k by omega) ▸ hy)
  refine ⟨⟨fun x => ⟨x, fun y hcall => ?_⟩⟩, fun entry hentry fuel hfuel => ?_⟩
  · obtain ⟨k, hy, -⟩ := h.call_level hcall
    exact hlevel k y hy
  · obtain ⟨hk, hreached⟩ := (h.distance entry.1 entry.2).mp hentry
    rw [@routes_from_eq client db direction relationships anchors fuel reached _ h.parent_id,
      @routes_from_eq client db direction relationships anchors hops reached _ h.parent_id]
    unfold walks_to
    rw [Multigraph.routes_stable h.keeps hreached (hk.trans hfuel),
      Multigraph.routes_stable h.keeps hreached hk]

/-- The affected objects are the reached ones with a record, besides the changed one. -/
theorem ReachedInv.affected_iff :
    Affected client db direction relationships anchors c changed hops x ↔
      x ≠ changed.qualified_name ∧ (known_record client db c x).isSome = true ∧
        x ∈ reached.distance.map (·.1) := by
  refine and_congr_right fun _ => and_congr_right fun _ => ⟨?_, fun hx => ?_⟩
  · rintro ⟨k, hpos, hk, harrive⟩
    obtain ⟨j, hj, hlevel⟩ := harrive.level hpos
    exact List.mem_map_of_mem (f := Prod.fst) ((h.distance x j).mpr ⟨hj.trans hk, hlevel⟩)
  · obtain ⟨entry, hentry, rfl⟩ := List.mem_map.mp hx
    obtain ⟨hk, hlevel⟩ := (h.distance entry.1 entry.2).mp hentry
    exact ⟨entry.2, hlevel.1, hk, hlevel.2.1⟩

end Search

/-- Within the budget the traversal answers and its route enumeration ends. The items are exact
when no edge on a shortest route to an affected object is doubled, and only then as far as the
objects with fewer than five routes go. -/
theorem compute_impact_exact (s : ClientState)
    (hanchors : impact_anchors client db changed = .ok anchors)
    (hbudget : impact_search client db anchors hops direction relationships ≠
      .error impact_bound_exceeded)
    (hids : IdsIdentify client (Fetched client db direction relationships anchors hops))
    (hrows : RowsReadable client db direction relationships anchors hops)
    (hnodes : NodesReadable client db direction relationships anchors s.object_cache changed
      hops) :
    ∃ reached impact s',
      impact_search client db anchors hops direction relationships = .ok reached ∧
      RoutesEnd direction anchors hops reached ∧
      (compute_impact env client db changed hops direction relationships).run.run s =
        (.ok impact, s') ∧
      ((∀ x, Affected client db direction relationships anchors s.object_cache changed hops x →
          Undoubled client db direction relationships anchors x) →
        Impact.Exact client db direction relationships anchors s.object_cache changed hops
          impact) ∧
      (Impact.Exact client db direction relationships anchors s.object_cache changed hops
          impact →
        ∀ x, Affected client db direction relationships anchors s.object_cache changed hops x →
          (shortest_routes client db direction relationships anchors x).ncard < 5 →
          Undoubled client db direction relationships anchors x) := by
  rcases impact_search_spec hids with ⟨error, herror, hbound⟩ | ⟨reached, hsearch, h⟩
  · rw [hbound hrows] at herror
    exact absurd herror hbudget
  have hread : ∀ name ∈ (others_of changed reached).map (·.1),
      s.object_cache.lookup (object_id client.project_id name) = none →
      ∀ node ∈ db.objects, node.projectId = some client.project_id →
        node.qualifiedName = some name → ∃ record,
          object_from_node client.project_id node (client.file_map db) = .ok record := by
    intro name hname
    obtain ⟨entry, hentry, rfl⟩ := List.mem_map.mp hname
    obtain ⟨hreached, hne⟩ := List.mem_filter.mp hentry
    exact hnodes entry.1 (by simpa using hne) ⟨entry.2, (h.distance _ _).mp hreached⟩
  obtain ⟨records, s', hobjects⟩ := objects_by_qualified_name_ok hread
  obtain ⟨impact, himpact, entries, hitems, hnodup, hnames, hshows⟩ :=
    @ReachedInv.items env client db direction relationships anchors changed hops reached
      s.object_cache records h hids fun name hname =>
        objects_by_qualified_name_known hobjects hname
  have hrun : (compute_impact env client db changed hops direction relationships).run.run s =
      (.ok impact, s') := by
    rw [compute_impact_eq, hanchors]
    simp only [hsearch, hobjects, himpact]
  refine ⟨reached, impact, s', hsearch, h.routesEnd, hrun, fun hundoubled => ?_,
    fun hexact x haffected hfew => ?_⟩
  · refine ⟨entries, hitems, hnodup, fun x => (hnames x).trans h.affected_iff.symm,
      fun entry hentry => (hshows entry hentry).exact h (hundoubled _ ?_)⟩
    exact h.affected_iff.mpr ((hnames entry.1).mp (List.mem_map_of_mem hentry))
  · obtain ⟨entries', hitems', -, hnames', hexact⟩ := hexact
    obtain ⟨entry', hentry', rfl⟩ := List.mem_map.mp ((hnames' x).mpr haffected)
    have hitem : entry'.2 ∈ entries.map (·.2) := by
      rw [hitems, ← hitems']
      exact List.mem_map_of_mem hentry'
    obtain ⟨entry, hentry, hsame⟩ := List.mem_map.mp hitem
    have hfound := hexact entry' hentry'
    rw [← hsame] at hfound
    have hobject := (hshows entry hentry).object h hfound
    rw [← hobject] at hfew hfound ⊢
    exact (hshows entry hentry).undoubled h hfound.count hfew

/-- A call of `HR.A` by `HR.B` that is stored so many times. -/
def call_graph (times : Nat) : AnalysisGraph where
  objects := [procedure_node "HR.A", procedure_node "HR.B"]
  files := []
  relationships := List.replicate times
    { source := procedure_node "HR.B", target := procedure_node "HR.A", type := "CALLS" }
  declarations := []

def call_triple : EdgeTriple where
  relationship := .CALLS
  source := "HR.B"
  target := "HR.A"

def called_record : PlsqlObjectRecord where
  id := object_id "p" "HR.A"
  kind := .Procedure
  name := "A"
  schema_name := "HR"
  qualified_name := "HR.A"
  project_id := "p"
  owner := none
  evidence := none

def call_client : AnalysisClient :=
  { one_row_client with toNeo4jPlsqlAnalysisClient := .init "p" 10 5 20000 }

/-- The call is the only edge of its graph. -/
theorem call_only {times : Nat} {e : EdgeTriple}
    (h : 0 < occurrences call_client (call_graph times) relationships e) : e = call_triple := by
  obtain ⟨row, hrow, hholds⟩ := List.countP_pos_iff.mp h
  rw [List.eq_of_mem_replicate hrow, Bool.and_eq_true] at hholds
  have htriple : triple_of call_client (call_graph times)
      { source := procedure_node "HR.B", target := procedure_node "HR.A", type := "CALLS" } =
        some call_triple := rfl
  rw [htriple] at hholds
  simpa [eq_comm] using hholds.2

theorem compute_impact_exact_call : ∃ reached impact s',
    impact_search call_client (call_graph 1) ["HR.A"] 3 .upstream [.CALLS] = .ok reached ∧
    RoutesEnd .upstream ["HR.A"] 3 reached ∧
    (compute_impact shared_environment call_client (call_graph 1) called_record 3 .upstream
      [.CALLS]).run.run .init = (.ok impact, s') ∧
    Impact.Exact call_client (call_graph 1) .upstream [.CALLS] ["HR.A"] [] called_record 3
      impact := by
  have hsearch : (impact_search call_client (call_graph 1) ["HR.A"] 3 .upstream
      [.CALLS]).toOption.isSome = true := by decide +kernel
  have hexact := @compute_impact_exact shared_environment call_client (call_graph 1) .upstream
    [.CALLS] ["HR.A"] called_record 3 .init rfl ?_ (idsIdentify_of_sources ?_) ?_ ?_
  · obtain ⟨reached, impact, s', hreached, hend, hrun, hundoubled, -⟩ := hexact
    refine ⟨reached, impact, s', hreached, hend, hrun, hundoubled fun x _ p hp e he => ?_⟩
    obtain ⟨a, -, hwalk⟩ := hp.1
    rw [call_only (hwalk.edge e he).1]
    decide +kernel
  · intro hbound
    rw [hbound] at hsearch
    cases hsearch
  · rintro e ⟨he, -⟩
    rw [call_only he]
    decide
  · rintro row hrow - -
    rw [List.eq_of_mem_replicate hrow]
    exact ⟨_, rfl⟩
  · rintro x - - - node hnode - -
    rcases List.mem_pair.mp hnode with rfl | rfl
    · exact ⟨_, rfl⟩
    · exact ⟨_, rfl⟩

/-- A call that is stored twice is shown twice. -/
theorem call_shown_twice : ∃ impact s',
    (compute_impact shared_environment call_client (call_graph 2) called_record 3 .upstream
      [.CALLS]).run.run .init = (.ok impact, s') ∧
    ¬ Impact.Exact call_client (call_graph 2) .upstream [.CALLS] ["HR.A"] [] called_record 3
      impact := by
  have hpaths : ((compute_impact shared_environment call_client (call_graph 2) called_record 3
      .upstream [.CALLS]).run.run .init).1.toOption.map (fun impact =>
        impact.items.map fun item => item.paths.map fun path => path.steps.map (·.triple)) =
      some [[[call_triple], [call_triple]]] := by decide +kernel
  rcases hrun : (compute_impact shared_environment call_client (call_graph 2) called_record 3
    .upstream [.CALLS]).run.run .init with ⟨e | impact, s'⟩
  · rw [hrun] at hpaths
    cases hpaths
  · rw [hrun] at hpaths
    refine ⟨impact, s', rfl, ?_⟩
    rintro ⟨entries, hitems, -, -, hexact⟩
    have hshows : (impact.items.map fun item =>
        item.paths.map fun path => path.steps.map (·.triple)) =
          [[[call_triple], [call_triple]]] := Option.some.inj hpaths
    have hmem : [[call_triple], [call_triple]] ∈
        impact.items.map fun item => item.paths.map fun path => path.steps.map (·.triple) := by
      rw [hshows]
      exact List.mem_singleton_self _
    rw [← hitems, List.map_map] at hmem
    obtain ⟨entry, hentry, hshown⟩ := List.mem_map.mp hmem
    have hdistinct := (hexact entry hentry).distinct
    rw [Function.comp_apply] at hshown
    rw [hshown] at hdistinct
    revert hdistinct
    decide

end lagraph.plsql
