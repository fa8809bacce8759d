import LaGraph.Plsql.Caches.Operations
import LaGraph.Plsql.Dependencies.Summary
import LaGraph.Plsql.Impact.Exact
import LaGraph.Plsql.Synthetic.Overview

open foundation foundation.Stateful

namespace lagraph.plsql

/-- The edges into the anchors, each as often as it is stored. -/
def incoming_edges (client : AnalysisClient) (db : AnalysisGraph) (anchors : List String) :
    List EdgeTriple :=
  (rows_at client db .upstream PATH_RELATIONSHIPS anchors).filterMap (triple_of client db)

/-- An object with a record, other than the changed one, that has an edge into an anchor other
than itself. -/
def DirectlyAffected (client : AnalysisClient) (db : AnalysisGraph) (anchors : List String)
    (c : ObjectCache) (changed : PlsqlObjectRecord) (x : String) : Prop :=
  x ≠ changed.qualified_name ∧ (known_record client db c x).isSome = true ∧
    ∃ e ∈ incoming_edges client db anchors, e.source = x ∧ e.source ≠ e.target

variable {env : Environment} {client : AnalysisClient} {db : AnalysisGraph}
  {anchors : List String} {changed : PlsqlObjectRecord} {hops : Nat} {reached : Reached}
  {c : ObjectCache} {x : String} {s s' : ClientState} {impact : Impact}

theorem arrive_one_iff :
    (impact_graph client db .upstream PATH_RELATIONSHIPS).Arrive (· ∈ anchors) 1 x ↔
      ∃ e ∈ incoming_edges client db anchors, e.source = x ∧ e.source ≠ e.target := by
  have hmem (e : EdgeTriple) : e ∈ incoming_edges client db anchors ↔
      e.target ∈ anchors ∧ 0 < occurrences client db PATH_RELATIONSHIPS e := by
    rw [incoming_edges, ← List.count_pos_iff, count_rows_at]
    by_cases hanchor : e.target ∈ anchors
    · simp [ImpactDirection.near, hanchor]
    · simp [ImpactDirection.near, hanchor]
  simp only [Multigraph.arrive_succ, Multigraph.arrive_zero, hmem]
  constructor
  · rintro ⟨e, ⟨hoccurs, hloop⟩, hanchor, hsource⟩
    exact ⟨e, ⟨hanchor, hoccurs⟩, hsource, hloop⟩
  · rintro ⟨e, ⟨hanchor, hoccurs⟩, hsource, hloop⟩
    exact ⟨e, ⟨hoccurs, hloop⟩, hanchor, hsource⟩

theorem level_one_iff :
    (impact_graph client db .upstream PATH_RELATIONSHIPS).Level (· ∈ anchors) 1 x ↔
      ∃ e ∈ incoming_edges client db anchors, e.source = x ∧ e.source ≠ e.target := by
  rw [← arrive_one_iff]
  exact ⟨fun h => h.2.1, fun h => ⟨Nat.one_pos, h, fun j hj hlt => by omega⟩⟩

section Items

variable (h : ReachedInv client db .upstream PATH_RELATIONSHIPS anchors hops hops reached)
  {entries : List (String × PlsqlImpactItemRecord)}
  (hnames : ∀ x, x ∈ entries.map (·.1) ↔ x ≠ changed.qualified_name ∧
    (known_record client db c x).isSome = true ∧ x ∈ reached.distance.map (·.1))
  (hshows : ∀ entry ∈ entries, Shows client db .upstream PATH_RELATIONSHIPS anchors hops reached
    c entry)
include h hnames hshows

/-- The items at distance one are those of the directly affected objects. -/
theorem mem_direct_names (hhops : 0 < hops) :
    x ∈ (entries.filter fun entry => entry.2.distance = 1).map (·.1) ↔
      DirectlyAffected client db anchors c changed x := by
  rw [DirectlyAffected, ← level_one_iff]
  constructor
  · intro hx
    obtain ⟨entry, hentry, rfl⟩ := List.mem_map.mp hx
    obtain ⟨hmem, hone⟩ := List.mem_filter.mp hentry
    rw [decide_eq_true_eq] at hone
    obtain ⟨hne, hknown, -⟩ := (hnames entry.1).mp (List.mem_map_of_mem hmem)
    have hlevel := ((h.distance _ _).mp (hshows entry hmem).distance).2
    rw [hone] at hlevel
    exact ⟨hne, hknown, hlevel⟩
  · rintro ⟨hne, hknown, hlevel⟩
    have hreached := (h.distance x 1).mpr ⟨hhops, hlevel⟩
    obtain ⟨entry, hentry, rfl⟩ := List.mem_map.mp ((hnames x).mpr
      ⟨hne, hknown, List.mem_map_of_mem (f := Prod.fst) hreached⟩)
    have hdistance := ((h.distance _ _).mp (hshows entry hentry).distance).2
    exact List.mem_map_of_mem (List.mem_filter.mpr
      ⟨hentry, decide_eq_true (hdistance.unique hlevel)⟩)

end Items

/-- What a search from known anchors computes its result from. -/
theorem compute_impact_from {direction : ImpactDirection} {relationships : List PlsqlRelationship}
    (hanchors : impact_anchors client db changed = .ok anchors)
    (h : (compute_impact env client db changed hops direction relationships).run.run s =
      (.ok impact, s')) :
    ∃ reached records,
      impact_search client db anchors hops direction relationships = .ok reached ∧
      (∀ name ∈ (others_of changed reached).map (·.1),
        records.lookup name = some (known_record client db s.object_cache name)) ∧
      impact_from env client direction anchors hops reached (others_of changed reached) records =
        .ok impact := by
  rw [compute_impact_eq, hanchors] at h
  simp only at h
  cases hsearch : impact_search client db anchors hops direction relationships with
  | error e =>
    rw [hsearch] at h
    cases h
  | ok reached =>
    rw [hsearch] at h
    simp only at h
    rcases hobjects : (objects_by_qualified_name client db ((others_of changed reached).map
        (·.1))).run.run s with ⟨e | records, s₁⟩
    · rw [hobjects] at h
      cases h
    · rw [hobjects] at h
      exact ⟨reached, records, rfl, fun name hname => objects_by_qualified_name_known hobjects hname,
        congrArg Prod.fst h⟩

/-- Cached or not, a traversal gives what a search gives with the same objects cached. -/
theorem impact_traversal_computed {moment : Moment} {direction : ImpactDirection}
    {relationships : List PlsqlRelationship} (hsound : SoundCaches env client db s)
    (hchanged : first_record client db changed.qualified_name = some changed)
    (h : (impact_traversal env client db moment changed hops direction relationships).run.run s =
      (.ok impact, s')) :
    ∃ s₁ s₂, s₁.object_cache = s.object_cache ∧
      (compute_impact env client db changed hops direction relationships).run.run s₁ =
        (.ok impact, s₂) := by
  by_cases httl : client.impact_cache_ttl = 0
  · unfold impact_traversal at h
    rw [if_pos httl] at h
    exact ⟨s, s', rfl, h⟩
  · by_cases hhit : ∃ entry, s.impact_cache.find? (·.key.same (impact_key changed hops direction
        relationships)) = some entry ∧ moment.asked < entry.expires_at
    · obtain ⟨entry, hfound, htime⟩ := hhit
      have hsame := List.find?_some hfound
      have hcached := hsound.computes hchanged (List.mem_of_find?_eq_some hfound) hsame s
        (Extends.refl _)
      rw [impact_traversal_hit httl hfound htime] at h
      cases h
      exact ⟨s, s, rfl, hcached⟩
    · rw [impact_traversal_miss httl fun entry hfound htime => hhit ⟨entry, hfound, htime⟩] at h
      rcases hcompute : (compute_impact env client db changed hops direction
          relationships).run.run (s.remembering
            (other_entries (impact_key changed hops direction relationships) s)) with
        ⟨e | found, s₂⟩
      · rw [hcompute] at h
        cases h
      · rw [hcompute] at h
        cases h
        exact ⟨s.remembering (other_entries (impact_key changed hops direction relationships) s),
          s₂, rfl, hcompute⟩

/-- The incoming edges of an overview are those of the graph. -/
theorem anchor_edges_sources {incoming : List PlsqlDependencyRecord}
    (h : anchor_edges client db .upstream PATH_RELATIONSHIPS anchors = .ok incoming) :
    (incoming.map (·.source_id)).Perm
      ((incoming_edges client db anchors).map fun e => object_id client.project_id e.source) := by
  unfold anchor_edges at h
  simp only at h
  split_ifs at h with hbound
  obtain ⟨mapped, hmapped, hincoming⟩ := results.bind_ok.mp h
  cases hincoming
  rw [results.filterMap_of_mapM hmapped, incoming_edges]
  refine .trans ?_ ((fetched_rows (Nat.le_of_not_lt hbound)).map _)
  refine .of_eq ?_
  rw [List.map_filterMap, List.map_filterMap]
  refine List.filterMap_congr fun row _ => ?_
  rw [triple_of, Option.map_map]
  cases hrecord : record_of client db row with
  | none => simp [record_of] at hrecord; simp [hrecord]
  | some edge =>
    have hends := (dependency_from_row_ends (record_of_eq_some.mp hrecord)).1
    rw [record_of] at hrecord
    simp [hrecord, hends, PlsqlDependencyRecord.triple]

/-- What a request for an overview has computed. -/
theorem overview_run {moment : Moment} {object_id : String} {max_hops limit : Int}
    {overview : PlsqlOverviewRecord} {s₁ : ClientState}
    (hrequire : (Reads.require_object client db object_id).run.run s = (.ok changed, s₁))
    (hanchors : impact_anchors client db changed = .ok anchors)
    (h : (overview_of env client db moment object_id max_hops limit).run.run s =
      (.ok overview, s')) :
    ∃ impact s₂ incoming,
      (impact_traversal env client db moment changed
        (bounded_hops client.toNeo4jPlsqlAnalysisClient max_hops) .upstream
        PATH_RELATIONSHIPS).run.run s₁ = (.ok impact, s₂) ∧
      Progress env client db s₂ s' ∧
      anchor_edges client db .upstream PATH_RELATIONSHIPS anchors = .ok incoming ∧
      overview.direct_dependents = (incoming.map (·.source_id)).dedup.length ∧
      overview.indirect_dependents = impact.items.length - incoming.length := by
  have hagain := require_object_repeats hrequire
  rw [overview_of, run_bind_ok hrequire, hanchors] at h
  obtain ⟨_, _, hlifted, h⟩ := of_run_bind_ok h
  cases hlifted
  obtain ⟨access, s₂, haccess, h⟩ := of_run_bind_ok h
  rw [access_run hagain] at haccess
  cases congrArg Prod.snd haccess
  obtain ⟨page, s₂, hpage, h⟩ := of_run_bind_ok h
  rw [impact_of, run_bind_ok hagain] at hpage
  obtain ⟨impact, _, himpact, hpage⟩ := of_run_bind_ok hpage
  cases hpage
  rw [run_bind, run_lift] at h
  cases hincoming : anchor_edges client db .upstream PATH_RELATIONSHIPS anchors with
  | error e =>
    rw [hincoming] at h
    cases h
  | ok incoming =>
    rw [hincoming] at h
    simp only at h
    obtain ⟨callers, _, hcallers, h⟩ := of_run_bind_ok h
    rw [run_lift] at hcallers
    cases congrArg Prod.snd hcallers
    obtain ⟨callees, _, hcallees, h⟩ := of_run_bind_ok h
    rw [run_lift] at hcallees
    cases congrArg Prod.snd hcallees
    obtain ⟨top_callers, s₃, htop, h⟩ := of_run_bind_ok h
    have hprogress : Progress env client db s₂ s₃ := by
      have hrule := @progress_rule env client db
      have hall := Guarantees.mapM hrule.refl hrule.trans hrule.get_object
        (slice_to (callers.map (·.source_id)).eraseDups limit) s₂
      rwa [htop] at hall
    cases h
    exact ⟨impact, s₂, incoming, himpact, hprogress, rfl, rfl, rfl⟩

/-- A later request answers with a settled impact. -/
theorem impact_of_settled {moment : Moment} {object_id : String} {max_hops limit offset : Int}
    (hsound : SoundCaches env client db s)
    (hcached : s.object_cache.lookup object_id = some (some changed))
    (hcomputes : Computes env client db changed
      (bounded_hops client.toNeo4jPlsqlAnalysisClient max_hops) .upstream PATH_RELATIONSHIPS impact
      s.object_cache) :
    ∃ s', (impact_of env client db moment object_id max_hops limit .upstream none
      offset).run.run s = (.ok (impact_page client impact limit offset), s') := by
  obtain ⟨s', htraversal⟩ := @impact_traversal_settled env client db s changed _ .upstream
    PATH_RELATIONSHIPS impact moment hsound (hsound.first_record hcached) hcomputes
  refine ⟨s', ?_⟩
  rw [impact_of, run_bind_ok (require_object_cached hcached)]
  exact run_bind_ok htraversal

/-- The overview agrees with the impact when the incoming edges come from affected objects, and
either each from an object of its own or nothing is affected from farther away. -/
def Headline (client : AnalysisClient) (db : AnalysisGraph) (anchors : List String)
    (c : ObjectCache) (changed : PlsqlObjectRecord) (hops : Nat) : Prop :=
  (∀ e ∈ incoming_edges client db anchors,
    DirectlyAffected client db anchors c changed e.source) ∧
  (((incoming_edges client db anchors).map (·.source)).Nodup ∨
    ∀ x, Affected client db .upstream PATH_RELATIONSHIPS anchors c changed hops x →
      DirectlyAffected client db anchors c changed x)

/-- The counts of an overview with the result of a search. -/
theorem counts_iff (h : ReachedInv client db .upstream PATH_RELATIONSHIPS anchors hops hops reached)
    (hids : IdsIdentify client (Fetched client db .upstream PATH_RELATIONSHIPS anchors hops))
    (hhops : 0 < hops) {records : List (String × Option PlsqlObjectRecord)}
    (hrecords : ∀ name ∈ (others_of changed reached).map (·.1),
      records.lookup name = some (known_record client db c name))
    (himpact : impact_from env client .upstream anchors hops reached (others_of changed reached)
      records = .ok impact) {direct rows : Nat}
    (hdirect : direct = ((incoming_edges client db anchors).map (·.source)).dedup.length)
    (hrows : rows = (incoming_edges client db anchors).length) :
    direct = impact.items.countP (·.distance = 1) ∧
        direct + (impact.items.length - rows) = impact.items.length ↔
      Headline client db anchors c changed hops := by
  obtain ⟨found, hfound, entries, hitems, hnodup, hnames, hshows⟩ :=
    @ReachedInv.items env client db .upstream PATH_RELATIONSHIPS anchors changed hops reached c
      records h hids hrecords
  rw [himpact] at hfound
  cases hfound
  have hmem (x : String) := @mem_direct_names client db anchors changed hops reached c x h entries
    hnames hshows hhops
  have hfirst : ((entries.filter fun entry => entry.2.distance = 1).map (·.1)).Nodup :=
    hnodup.sublist (List.filter_sublist.map _)
  have hpart : (entries.filter fun entry => entry.2.distance = 1).map (·.1) ⊆
      entries.map (·.1) := (List.filter_sublist.map _).subset
  have hsources : (entries.filter fun entry => entry.2.distance = 1).map (·.1) ⊆
      (incoming_edges client db anchors).map (·.source) := by
    intro x hx
    obtain ⟨-, -, e, he, rfl, -⟩ := (hmem x).mp hx
    exact List.mem_map_of_mem he
  have hcount : impact.items.countP (·.distance = 1) =
      ((entries.filter fun entry => entry.2.distance = 1).map (·.1)).length := by
    rw [← hitems, List.countP_map, List.length_map, List.countP_eq_length_filter]
    rfl
  have htotal : impact.items.length = (entries.map (·.1)).length := by
    rw [← hitems, List.length_map, List.length_map]
  have hlength : rows = ((incoming_edges client db anchors).map (·.source)).length := by
    rw [hrows, List.length_map]
  rw [hcount, htotal, hdirect, hlength,
    duplicates.split_count_iff hfirst hsources hnodup hpart, Headline]
  refine and_congr ?_ (or_congr Iff.rfl ?_)
  · simp only [List.subset_def, List.forall_mem_map, hmem]
  · simp only [List.subset_def, hmem, hnames, ← h.affected_iff]

/-- In both adapters, whatever was asked before, an overview agrees with the impact that is
answered from then on under an exact condition on the edges into the object. -/
theorem overview_agrees_iff (env : Environment) (object_id : String) (max_hops limit : Int)
    (overview : PlsqlOverviewRecord) :
    (∀ (client : AnalysisClient) (db : AnalysisGraph) (requests : List (Moment × Request))
      (moment : Moment) (changed : PlsqlObjectRecord) (anchors : List String)
      (s₁ s' : ClientState),
      (Reads.require_object client db object_id).run.run
        (state_after env client db .init requests) = (.ok changed, s₁) →
      impact_anchors client db changed = .ok anchors →
      IdsIdentify client (Fetched client db .upstream PATH_RELATIONSHIPS anchors
        (bounded_hops client.toNeo4jPlsqlAnalysisClient max_hops)) →
      (overview_of env client db moment object_id max_hops limit).run.run
        (state_after env client db .init requests) = (.ok overview, s') →
      ∃ impact,
        (∀ moment' limit' offset, ∃ s'', (impact_of env client db moment' object_id max_hops
          limit' .upstream none offset).run.run s' =
            (.ok (impact_page client impact limit' offset), s'')) ∧
        (overview.Agrees impact ↔ Headline client db anchors s₁.object_cache changed
          (bounded_hops client.toNeo4jPlsqlAnalysisClient max_hops))) ∧
    ∀ client : SyntheticPlsqlAnalysisClient,
      client.overview_of env object_id max_hops limit = some overview →
      (overview.Agrees (client.impact env object_id max_hops .upstream none) ↔
        ((client.incoming_edges object_id).map (·.source_id)).Nodup ∧
          ∀ edge ∈ client.incoming_edges object_id, edge.source_id ≠ edge.target_id) := by
  refine ⟨?_, fun client h => SyntheticPlsqlAnalysisClient.agrees_iff h⟩
  intro client db requests moment changed anchors s₁ s' hrequire hanchors hids hoverview
  obtain ⟨impact, s₂, incoming, htraversal, hprogress, hincoming, hdirect, hindirect⟩ :=
    overview_run hrequire hanchors hoverview
  have hhops : 0 < bounded_hops client.toNeo4jPlsqlAnalysisClient max_hops := by
    unfold bounded_hops
    omega
  have hcached := require_object_again hrequire
  have hsound := @soundCaches_state_after env client db requests
  have hsound₁ : SoundCaches env client db s₁ := by
    have hlearns := @require_object_learns client db object_id
      (state_after env client db .init requests)
    rw [hrequire] at hlearns
    exact (hlearns.progress hsound).1
  have hchanged := hsound₁.first_record hcached
  obtain ⟨s₃, s₄, hcache, hcompute⟩ := impact_traversal_computed hsound₁ hchanged htraversal
  obtain ⟨reached, records, hsearch, hrecords, hfrom⟩ := compute_impact_from hanchors hcompute
  rw [hcache] at hrecords
  have hrun := @impact_traversal_run env client db changed
    (bounded_hops client.toNeo4jPlsqlAnalysisClient max_hops) .upstream PATH_RELATIONSHIPS moment
    hchanged s₁
  rw [htraversal] at hrun
  obtain ⟨hsound₂, hgrows₂⟩ := hrun.1 hsound₁
  obtain ⟨hsound', hgrows'⟩ := hprogress hsound₂
  have hcomputes := (hrun.2 impact s₂ hsound₁ rfl).mono hgrows'
  refine ⟨impact, fun moment' limit' offset => impact_of_settled hsound'
    (hgrows' _ _ (hgrows₂ _ _ hcached)) hcomputes, ?_⟩
  rcases impact_search_spec hids with ⟨e, herror, -⟩ | ⟨found, hfound, h⟩
  · rw [hsearch] at herror
    cases herror
  · rw [hsearch] at hfound
    cases hfound
    have hperm := anchor_edges_sources hincoming
    have hids_injective : Function.Injective (plsql.object_id client.project_id) :=
      fun _ _ => object_id_injective
    have hnames : ((incoming_edges client db anchors).map fun e =>
        plsql.object_id client.project_id e.source) =
          ((incoming_edges client db anchors).map (·.source)).map
            (plsql.object_id client.project_id) := by
      rw [List.map_map]
      rfl
    have hsources : overview.direct_dependents =
        ((incoming_edges client db anchors).map (·.source)).dedup.length := by
      rw [hdirect, hperm.dedup.length_eq, hnames, List.dedup_map_of_injective hids_injective,
        List.length_map]
    have hrows : incoming.length = (incoming_edges client db anchors).length := by
      have hlength := hperm.length_eq
      rwa [List.length_map, List.length_map] at hlength
    rw [← counts_iff h hids hhops hrecords hfrom hsources hrows, ← hindirect]
    exact ⟨fun hagrees => ⟨hagrees.direct, hagrees.total⟩, fun hboth => ⟨hboth.1, hboth.2⟩⟩

/-- A procedure that calls itself. -/
def recursive_graph : AnalysisGraph where
  objects := [procedure_node "HR.A"]
  files := []
  relationships :=
    [{ source := procedure_node "HR.A", target := procedure_node "HR.A", type := "CALLS" }]
  declarations := []

/-- The client that knows the called procedure. -/
def called_state : ClientState where
  object_cache := [(called_record.id, some called_record)]
  impact_cache := []

theorem memory_rows_pos : 0 < 10 := by omega

/-- The relationships of a graph in memory. -/
def in_memory (db : AnalysisGraph) : SyntheticPlsqlAnalysisClient where
  project_id := "p"
  max_rows := 10
  corpus := [called_record,
    { called_record with id := object_id "p" "HR.B", name := "B", qualified_name := "HR.B" }]
  edges := db.relationships.filterMap (record_of call_client db)
  max_rows_pos := memory_rows_pos

theorem called_required {db : AnalysisGraph}
    (h : plsql.get_object call_client.toNeo4jPlsqlAnalysisClient db.toGraphDb [] called_record.id =
      .ok (some called_record, [(called_record.id, some called_record)])) :
    (Reads.require_object call_client db called_record.id).run.run .init =
      (.ok called_record, called_state) := by
  have hrun := @get_object_run call_client db .init called_record.id
  simp only [ClientState.init, h] at hrun
  rw [Reads.require_object, ClientState.init, run_bind_ok hrun]
  rfl

theorem overview_agrees_iff_call :
    (∃ overview s' impact, (overview_of shared_environment call_client (call_graph 1)
        { asked := 0, finished := 0 } called_record.id 3 5).run.run .init = (.ok overview, s') ∧
      (overview.Agrees impact ↔
        Headline call_client (call_graph 1) ["HR.A"] called_state.object_cache called_record 3)) ∧
    ∃ overview, (in_memory (call_graph 1)).overview_of shared_environment called_record.id 3 5 =
        some overview ∧
      overview.Agrees ((in_memory (call_graph 1)).impact shared_environment called_record.id 3
        .upstream none) := by
  constructor
  · have hok : ((overview_of shared_environment call_client (call_graph 1)
        { asked := 0, finished := 0 } called_record.id 3 5).run.run
          .init).1.toOption.isSome = true := by decide +kernel
    rcases hrun : (overview_of shared_environment call_client (call_graph 1)
      { asked := 0, finished := 0 } called_record.id 3 5).run.run .init with ⟨e | overview, s'⟩
    · rw [hrun] at hok
      cases hok
    · obtain ⟨impact, -, hagrees⟩ :=
        (overview_agrees_iff shared_environment called_record.id 3 5 overview).1 call_client
          (call_graph 1) [] { asked := 0, finished := 0 } called_record ["HR.A"] called_state s'
          (called_required (by decide +kernel)) rfl
          (idsIdentify_of_sources fun e he => by
            rw [call_only he.1]
            decide) hrun
      exact ⟨overview, s', impact, rfl, hagrees⟩
  · obtain ⟨overview, hoverview⟩ := Option.isSome_iff_exists.mp (show
      ((in_memory (call_graph 1)).overview_of shared_environment called_record.id 3 5).isSome =
        true by decide +kernel)
    exact ⟨overview, hoverview, ((overview_agrees_iff shared_environment called_record.id 3 5
      overview).2 _ hoverview).mpr ⟨by decide +kernel, by decide +kernel⟩⟩

/-- A procedure that calls itself has a direct dependent in both adapters, and no impact. -/
theorem recursion_counted :
    (∃ overview page s' s'',
      (overview_of shared_environment call_client recursive_graph { asked := 0, finished := 0 }
        called_record.id 3 5).run.run .init = (.ok overview, s') ∧
      (impact_of shared_environment call_client recursive_graph { asked := 0, finished := 0 }
        called_record.id 3 5 .upstream none 0).run.run s' = (.ok page, s'') ∧
      overview.direct_dependents = 1 ∧ page.total = 0) ∧
    ∃ overview,
      (in_memory recursive_graph).overview_of shared_environment called_record.id 3 5 =
        some overview ∧
      overview.direct_dependents = 1 ∧
      ((in_memory recursive_graph).impact_of shared_environment called_record.id 3 5 .upstream
        none 0).total = 0 := by
  constructor
  · have hcounts : ((do
        let overview ← overview_of shared_environment call_client recursive_graph
          { asked := 0, finished := 0 } called_record.id 3 5
        let page ← impact_of shared_environment call_client recursive_graph
          { asked := 0, finished := 0 } called_record.id 3 5 .upstream none 0
        pure (overview.direct_dependents, page.total) : Reads (Nat × Nat)).run.run
          .init).1.toOption = some (1, 0) := by decide +kernel
    rcases hrun : (do
        let overview ← overview_of shared_environment call_client recursive_graph
          { asked := 0, finished := 0 } called_record.id 3 5
        let page ← impact_of shared_environment call_client recursive_graph
          { asked := 0, finished := 0 } called_record.id 3 5 .upstream none 0
        pure (overview.direct_dependents, page.total) : Reads (Nat × Nat)).run.run
          .init with ⟨e | counts, s⟩
    · rw [hrun] at hcounts
      cases hcounts
    · rw [hrun] at hcounts
      cases hcounts
      obtain ⟨overview, s', hoverview, hrest⟩ := of_run_bind_ok hrun
      obtain ⟨page, s'', hpage, hpure⟩ := of_run_bind_ok hrest
      have hpair := Except.ok.inj (congrArg Prod.fst hpure)
      exact ⟨overview, page, s', s'', hoverview, hpage, congrArg Prod.fst hpair,
        congrArg Prod.snd hpair⟩
  · have hcounts : ((in_memory recursive_graph).overview_of shared_environment called_record.id 3
        5).map (·.direct_dependents) = some 1 := by decide +kernel
    obtain ⟨overview, hoverview, hdirect⟩ := Option.map_eq_some_iff.mp hcounts
    exact ⟨overview, hoverview, hdirect, by decide +kernel⟩

end lagraph.plsql
