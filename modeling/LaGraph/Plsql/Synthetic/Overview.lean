import LaGraph.Foundation.Duplicates
import LaGraph.Plsql.Synthetic.Dependencies
import LaGraph.Plsql.Synthetic.Paths

open foundation

namespace lagraph.plsql

/-- The overview agrees with the impact: its direct dependents are the ones at distance one, and
direct and indirect dependents together are all of them. -/
structure PlsqlOverviewRecord.Agrees (overview : PlsqlOverviewRecord) (impact : Impact) :
    Prop where
  direct : overview.direct_dependents = impact.items.countP (·.distance = 1)
  total : overview.direct_dependents + overview.indirect_dependents = impact.items.length

namespace SyntheticPlsqlAnalysisClient

section Model

variable (client : SyntheticPlsqlAnalysisClient)

/-- The edges into the anchors of an object. -/
def incoming_edges (object_id : String) : List PlsqlDependencyRecord :=
  client.edges.filter fun edge => edge.relationship ∈ PATH_RELATIONSHIPS &&
    edge.target_id ∈ client.impact_anchors object_id && (client.by_id edge.source_id).isSome

/-- `None` where the object has no record, which raises. -/
def overview_of (env : Environment) (object_id : String) (max_hops limit : Int) :
    Option PlsqlOverviewRecord :=
  (client.by_id object_id).map fun object =>
    let anchors := client.impact_anchors object_id
    let access := client.table_access_of object_id client.max_rows
    let impact := client.impact_of env object_id max_hops client.max_rows .upstream none 0
    let direct := (client.incoming_edges object_id).length
    let caller_ids := ((client.edges.filter fun edge =>
      edge.relationship = .CALLS && edge.target_id ∈ anchors).map (·.source_id)).eraseDups
    let callee_ids := ((client.edges.filter fun edge =>
      edge.relationship = .CALLS && edge.source_id ∈ anchors).map (·.target_id)).eraseDups
    { object, direct_dependents := direct, indirect_dependents := impact.total - direct,
      callers := caller_ids.length, callees := callee_ids.length,
      tables_accessed := ((access.items.filter fun edge =>
        edge.target_kind ∈ TABLE_OR_VIEW).map (·.target_id)).dedup.length,
      top_callers := (slice_to caller_ids limit).filterMap client.by_id }

end Model

variable {client : SyntheticPlsqlAnalysisClient} {direction : ImpactDirection}
  {relationships : List PlsqlRelationship} {hops : Nat} {current peer object_id : String}
  {seen trail : List String} {chain : List PlsqlDependencyRecord}
  {trails : List (String × List String)}

theorem length_flow {direction : ImpactDirection} : (flow direction chain).length = chain.length := by
  cases direction <;> simp [flow]

/-- A trail goes beyond the chain it starts with. -/
theorem length_of_visit (h : (peer, trail) ∈
    client.visit direction relationships hops current seen chain) :
    chain.length < trail.length := by
  induction hops generalizing current seen chain with
  | zero => exact absurd h List.not_mem_nil
  | succ hops ih =>
    rw [visit, List.mem_flatMap] at h
    obtain ⟨edge, -, hmem⟩ := h
    rcases List.mem_cons.mp hmem with hhere | hdeeper
    · rw [(Prod.mk.inj hhere).2, length_flow, List.length_append, List.length_singleton]
      omega
    · have hlength := ih hdeeper
      rw [List.length_append, List.length_singleton] at hlength
      omega

/-- The edges of one object lead to the trails with one edge more. -/
theorem mem_visit_one : (∃ trail, (peer, trail) ∈
      client.visit direction relationships (hops + 1) current seen chain ∧
        trail.length = chain.length + 1) ↔
    ∃ edge ∈ client.adjacency (near_id direction) relationships current,
      far_id direction edge ∉ seen ∧ far_id direction edge = peer := by
  simp only [visit, List.mem_flatMap, List.mem_filter, decide_eq_true_eq]
  constructor
  · rintro ⟨trail, ⟨edge, ⟨hedge, hseen⟩, hmem⟩, hlength⟩
    rcases List.mem_cons.mp hmem with hhere | hdeeper
    · exact ⟨edge, hedge, hseen, (Prod.mk.inj hhere).1.symm⟩
    · have hlonger := length_of_visit hdeeper
      rw [List.length_append, List.length_singleton] at hlonger
      omega
  · rintro ⟨edge, hedge, hseen, rfl⟩
    refine ⟨_, ⟨edge, ⟨hedge, hseen⟩, List.mem_cons_self⟩, ?_⟩
    rw [length_flow, List.length_append, List.length_singleton]

/-- What is reached has a record. -/
theorem by_id_of_visit (h : (peer, trail) ∈
    client.visit direction relationships hops current seen chain) :
    (client.by_id peer).isSome = true := by
  induction hops generalizing current seen chain with
  | zero => exact absurd h List.not_mem_nil
  | succ hops ih =>
    rw [visit, List.mem_flatMap] at h
    obtain ⟨edge, hedge, hmem⟩ := h
    rcases List.mem_cons.mp hmem with hhere | hdeeper
    · obtain ⟨htraversed, -⟩ := mem_adjacency.mp (List.mem_of_mem_filter hedge)
      have hends := (List.mem_filter.mp htraversed).2
      simp only [Bool.and_eq_true] at hends
      rw [(Prod.mk.inj hhere).1]
      cases direction with
      | upstream => exact hends.1.2
      | downstream => exact hends.2
    · exact ih hdeeper

theorem mem_trails_of : trail ∈ trails_of trails peer ↔ (peer, trail) ∈ trails := by
  simp [trails_of]

/-- The shortest trail is one of them, and none is shorter. -/
theorem shortest_spec (h : (peer, trail) ∈ trails) :
    (∃ found, (peer, found) ∈ trails ∧ found.length = shortest trails peer) ∧
      ∀ other, (peer, other) ∈ trails → shortest trails peer ≤ other.length := by
  have hmem := mem_trails_of.mpr h
  cases htrails : trails_of trails peer with
  | nil =>
    rw [htrails] at hmem
    cases hmem
  | cons first rest =>
    have hmin : (first.length :: (first :: rest).map List.length).min? =
        some (shortest trails peer) := by
      rw [List.min?_cons', shortest, htrails]
      rfl
    obtain ⟨hfound, hleast⟩ := List.min?_eq_some_iff.mp hmin
    refine ⟨?_, fun other hother => ?_⟩
    · have hlengths : shortest trails peer ∈ (first :: rest).map List.length := by
        simpa using hfound
      obtain ⟨found, hfound, hlength⟩ := List.mem_map.mp hlengths
      exact ⟨found, mem_trails_of.mp (htrails ▸ hfound), hlength⟩
    · refine hleast _ (List.mem_cons_of_mem _ (List.mem_map_of_mem ?_))
      rw [← htrails]
      exact mem_trails_of.mpr hother

theorem shortest_eq_one_iff (hpos : ∀ entry ∈ trails, 0 < entry.2.length)
    (hpeer : peer ∈ trails.map (·.1)) :
    shortest trails peer = 1 ↔ ∃ trail, (peer, trail) ∈ trails ∧ trail.length = 1 := by
  obtain ⟨entry, hentry, rfl⟩ := List.mem_map.mp hpeer
  obtain ⟨⟨found, hfound, hlength⟩, hleast⟩ := shortest_spec hentry
  constructor
  · intro h
    exact ⟨found, hfound, hlength.trans h⟩
  · rintro ⟨trail, htrail, hone⟩
    have hle := hleast trail htrail
    have hlt := hpos _ hfound
    simp only at hlt
    omega

theorem by_id_of_anchor (h : current ∈ client.impact_anchors object_id) :
    (client.by_id current).isSome = true := by
  unfold impact_anchors at h
  cases hobject : client.by_id object_id with
  | none => simp [hobject] at h
  | some object =>
    simp only [hobject] at h
    split_ifs at h with hkind
    · rw [List.mem_singleton.mp h, hobject]
      rfl
    · obtain ⟨candidate, hmem, rfl⟩ := List.mem_map.mp ((List.mem_insertionSort _).mp h)
      rw [by_id, List.find?_isSome]
      exact ⟨candidate, List.mem_reverse.mpr (List.mem_of_mem_filter hmem), by simp⟩

theorem bounded_hops_pos {max_hops : Int} : ∃ n, bounded_hops max_hops = n + 1 := by
  refine Nat.exists_eq_add_one_of_ne_zero ?_
  unfold bounded_hops
  omega

section Overview

variable {max_hops limit : Int} {env : Environment} {overview : PlsqlOverviewRecord}

theorem mem_incoming_edges {edge : PlsqlDependencyRecord} :
    edge ∈ client.incoming_edges object_id ↔ edge ∈ client.traversed PATH_RELATIONSHIPS ∧
      edge.target_id ∈ client.impact_anchors object_id := by
  simp only [incoming_edges, traversed, List.mem_filter, Bool.and_eq_true, decide_eq_true_eq]
  constructor
  · rintro ⟨hedge, ⟨hrelationship, htarget⟩, hsource⟩
    exact ⟨⟨hedge, ⟨hrelationship, hsource⟩, by_id_of_anchor htarget⟩, htarget⟩
  · rintro ⟨⟨hedge, ⟨hrelationship, hsource⟩, -⟩, htarget⟩
    exact ⟨hedge, ⟨hrelationship, htarget⟩, hsource⟩

/-- The dependents with a trail of one edge are the other ends of the incoming edges. -/
theorem direct_iff : (∃ trail, (peer, trail) ∈
      client.impact_trails object_id max_hops PATH_RELATIONSHIPS .upstream ∧ trail.length = 1) ↔
    ∃ edge ∈ client.incoming_edges object_id,
      edge.source_id = peer ∧ edge.source_id ≠ edge.target_id := by
  obtain ⟨hops, hhops⟩ := @bounded_hops_pos max_hops
  have hone (anchor : String) := @mem_visit_one client .upstream PATH_RELATIONSHIPS hops anchor
    peer [anchor] []
  simp only [List.length_nil, Nat.zero_add] at hone
  simp only [impact_trails, hhops, List.mem_flatMap]
  constructor
  · rintro ⟨trail, ⟨anchor, hanchor, hmem⟩, hlength⟩
    obtain ⟨edge, hedge, hother, hpeer⟩ := (hone anchor).mp ⟨trail, hmem, hlength⟩
    obtain ⟨htraversed, rfl⟩ := mem_adjacency.mp hedge
    refine ⟨edge, mem_incoming_edges.mpr ⟨htraversed, hanchor⟩, hpeer, ?_⟩
    rw [List.mem_singleton] at hother
    exact hother
  · rintro ⟨edge, hedge, hpeer, hother⟩
    obtain ⟨htraversed, hanchor⟩ := mem_incoming_edges.mp hedge
    obtain ⟨trail, hmem, hlength⟩ := (hone edge.target_id).mpr ⟨edge,
      mem_adjacency.mpr ⟨htraversed, rfl⟩, by rwa [List.mem_singleton], hpeer⟩
    exact ⟨trail, ⟨edge.target_id, hanchor, hmem⟩, hlength⟩

/-- The ids of the dependents. -/
def dependent_ids (client : SyntheticPlsqlAnalysisClient) (object_id : String) (max_hops : Int) :
    List String :=
  ((client.impact_trails object_id max_hops PATH_RELATIONSHIPS .upstream).map (·.1)).eraseDups

/-- The ids of the direct ones. -/
def direct_ids (client : SyntheticPlsqlAnalysisClient) (object_id : String) (max_hops : Int) :
    List String :=
  (client.dependent_ids object_id max_hops).filter fun id =>
    shortest (client.impact_trails object_id max_hops PATH_RELATIONSHIPS .upstream) id = 1

theorem mem_direct_ids : peer ∈ client.direct_ids object_id max_hops ↔
    ∃ edge ∈ client.incoming_edges object_id,
      edge.source_id = peer ∧ edge.source_id ≠ edge.target_id := by
  have hpos : ∀ entry ∈ client.impact_trails object_id max_hops PATH_RELATIONSHIPS .upstream,
      0 < entry.2.length := by
    intro entry hentry
    obtain ⟨anchor, -, hmem⟩ := List.mem_flatMap.mp hentry
    exact length_of_visit hmem
  rw [direct_ids, dependent_ids, List.mem_filter, List.mem_eraseDups, decide_eq_true_eq]
  constructor
  · rintro ⟨hmem, hshortest⟩
    exact direct_iff.mp ((shortest_eq_one_iff hpos hmem).mp hshortest)
  · intro h
    obtain ⟨trail, htrail, hlength⟩ := direct_iff.mpr h
    have hmem : peer ∈ (client.impact_trails object_id max_hops PATH_RELATIONSHIPS
        .upstream).map (·.1) := List.mem_map_of_mem (f := Prod.fst) htrail
    exact ⟨hmem, (shortest_eq_one_iff hpos hmem).mpr ⟨trail, htrail, hlength⟩⟩

/-- There is an item for each dependent. -/
theorem impact_items_perm :
    ((client.impact env object_id max_hops .upstream none).items.map (·.distance)).Perm
      ((client.dependent_ids object_id max_hops).map
        (shortest (client.impact_trails object_id max_hops PATH_RELATIONSHIPS .upstream))) := by
  have hrecord : ∀ id ∈ client.dependent_ids object_id max_hops,
      (client.by_id id).isSome = true := by
    intro id hid
    obtain ⟨entry, hentry, rfl⟩ := List.mem_map.mp (List.mem_eraseDups.mp hid)
    obtain ⟨anchor, -, hmem⟩ := List.mem_flatMap.mp hentry
    exact by_id_of_visit hmem
  refine ((List.perm_insertionSort _ _).map _).trans (.of_eq ?_)
  rw [List.map_filterMap]
  refine (List.filterMap_congr fun id hid => ?_).trans (congrFun List.filterMap_eq_map _)
  obtain ⟨record, hfound⟩ := Option.isSome_iff_exists.mp (hrecord id hid)
  rw [hfound]
  rfl

/-- The overview agrees with the impact exactly when the incoming edges come from objects of
their own, and none is a self-loop. -/
theorem agrees_iff (h : client.overview_of env object_id max_hops limit = some overview) :
    overview.Agrees (client.impact env object_id max_hops .upstream none) ↔
      ((client.incoming_edges object_id).map (·.source_id)).Nodup ∧
        ∀ edge ∈ client.incoming_edges object_id, edge.source_id ≠ edge.target_id := by
  obtain ⟨object, -, rfl⟩ := Option.map_eq_some_iff.mp h
  have hnodup : (client.dependent_ids object_id max_hops).Nodup := duplicates.nodup_eraseDups _
  have hfirst : (client.direct_ids object_id max_hops).Nodup := hnodup.sublist List.filter_sublist
  have hlength : (client.impact env object_id max_hops .upstream none).items.length =
      (client.dependent_ids object_id max_hops).length := by
    simpa using impact_items_perm.length_eq
  have hdirect : (client.impact env object_id max_hops .upstream none).items.countP
      (·.distance = 1) = (client.direct_ids object_id max_hops).length := by
    have hcount := (@impact_items_perm client object_id max_hops env).countP_eq (· = 1)
    rw [List.countP_map, List.countP_map] at hcount
    rw [direct_ids, ← List.countP_eq_length_filter]
    exact hcount
  have hle : (client.direct_ids object_id max_hops).length ≤
      (client.dependent_ids object_id max_hops).length := List.filter_sublist.length_le
  have hsub : client.direct_ids object_id max_hops ⊆
      (client.incoming_edges object_id).map (·.source_id) := by
    intro id hid
    obtain ⟨edge, hedge, rfl, -⟩ := mem_direct_ids.mp hid
    exact List.mem_map_of_mem hedge
  constructor
  · intro hagrees
    have hcount := hagrees.direct.trans hdirect
    have hperm := (hfirst.subperm hsub).perm_of_length_le (by rw [List.length_map]; exact hcount.le)
    have hsources := hperm.nodup_iff.mp hfirst
    refine ⟨hsources, fun edge hedge => ?_⟩
    obtain ⟨other, hother, hsame, hloop⟩ :=
      mem_direct_ids.mp (hperm.mem_iff.mpr (List.mem_map_of_mem hedge))
    rwa [← List.inj_on_of_nodup_map hsources hother hedge hsame]
  · rintro ⟨hsources, hloops⟩
    have hback : (client.incoming_edges object_id).map (·.source_id) ⊆
        client.direct_ids object_id max_hops := by
      intro id hid
      obtain ⟨edge, hedge, rfl⟩ := List.mem_map.mp hid
      exact mem_direct_ids.mpr ⟨edge, hedge, rfl, hloops edge hedge⟩
    have hcount := ((hfirst.subperm hsub).antisymm (hsources.subperm hback)).length_eq
    rw [List.length_map] at hcount
    constructor
    · exact hcount.symm.trans hdirect.symm
    · have htotal : (client.impact_of env object_id max_hops client.max_rows .upstream none
          0).total = (client.dependent_ids object_id max_hops).length := hlength
      simp only [htotal, hlength]
      omega

end Overview

end SyntheticPlsqlAnalysisClient

end lagraph.plsql
