import LaGraph.Plsql.Isolation.Templates
import LaGraph.Plsql.Impact

open foundation

namespace lagraph.plsql

variable {env : Environment} {client : AnalysisClient}

/-- Mapping reads nothing of a row but its columns. -/
theorem dependency_from_row_columns (project_id : String) (row : Relationship)
    (file_paths : List (String × String)) :
    dependency_from_row project_id (EDGE_COLUMNS row) file_paths =
      dependency_from_row project_id row file_paths := by
  unfold dependency_from_row
  cases hresolution : row.resolution with
  | none => simp [EDGE_COLUMNS, DatabaseObject.columns, hresolution]
  | some resolution => simp [EDGE_COLUMNS, DatabaseObject.columns, hresolution]

theorem absorb_columns (project_id : String) (file_paths : List (String × String))
    (edge_by_id : List PlsqlDependencyRecord) (rows : List Relationship) :
    absorb project_id file_paths edge_by_id (rows.map EDGE_COLUMNS) =
      absorb project_id file_paths edge_by_id rows := by
  induction rows generalizing edge_by_id with
  | nil => rfl
  | cons row rows ih => simp only [List.map_cons, absorb, dependency_from_row_columns, ih]

section Lookups

theorem get_object_respects : Respects (project_view client.project_id) fun db =>
    get_object client.toNeo4jPlsqlAnalysisClient db.toGraphDb := by
  intro a b h
  have hrows := fun name => object_by_qualified_name_respects name h
  have hfiles := file_map_respects h
  funext cache object_id
  simp only [get_object] at hrows hfiles ⊢
  simp only [hrows, hfiles]

theorem require_object_respects : Respects (project_view client.project_id) fun db =>
    require_object client.toNeo4jPlsqlAnalysisClient db.toGraphDb := by
  intro a b h
  have hget := get_object_respects h
  funext cache object_id
  simp only [require_object] at hget ⊢
  rw [hget]

theorem client_file_map_respects : Respects (project_view client.project_id) client.file_map :=
  file_map_respects

theorem Reads.get_object_respects (object_id : String) :
    Respects (project_view client.project_id) fun db => Reads.get_object client db object_id := by
  intro a b h
  have hget := plsql.get_object_respects h
  simp only [Reads.get_object] at hget ⊢
  rw [hget]

theorem Reads.require_object_respects (object_id : String) :
    Respects (project_view client.project_id) fun db =>
      Reads.require_object client db object_id :=
  (Reads.get_object_respects object_id).bind fun _ => Respects.const _

theorem lookup_chunk_respects (names : List String) :
    Respects (project_view client.project_id) fun db => lookup_chunk client db names := by
  intro a b h
  have hrows := objects_by_qualified_names_respects names h
  have hfiles := client_file_map_respects h
  simp only [lookup_chunk] at hrows ⊢
  rw [hrows, hfiles]

theorem objects_by_qualified_name_respects (names : List String) :
    Respects (project_view client.project_id) fun db =>
      objects_by_qualified_name client db names := by
  intro a b h
  have hchunk := Respects.apply lookup_chunk_respects h
  simp only [objects_by_qualified_name] at hchunk ⊢
  rw [hchunk]

theorem search_respects (query : String) (kinds : List ObjectKind) (limit : Int) :
    Respects (project_view client.project_id) fun db =>
      search_objects client db env query kinds limit := by
  intro a b h
  have hrows := fun needle kinds limit => search_objects_respects needle kinds limit h
  have hcount := fun needle kinds => count_search_objects_respects needle kinds h
  have hfiles := client_file_map_respects h
  simp only [search_objects] at hrows hcount ⊢
  simp only [hrows, hcount, hfiles]

theorem object_source_respects (object_id : String) :
    Respects (project_view client.project_id) fun db => object_source client db env object_id := by
  refine (Reads.require_object_respects object_id).bind fun record => ?_
  intro a b h
  have hrows := object_declaration_respects record.qualified_name h
  simp only at hrows ⊢
  rw [hrows]

theorem file_source_respects (file_id : String) (start_line end_line : Option Int) :
    Respects (project_view client.project_id) fun db =>
      file_source client db env file_id start_line end_line :=
  (client_file_map_respects.map (resolve_path_sync (some file_id))).bind
    fun _ => Respects.const _

end Lookups

section Paths

/-- One round reads the database through the columns of `EDGE_OUTGOING`. -/
theorem expand_respects (target : String) (sources : List String) (search : Search) :
    Respects (project_view client.project_id) fun db =>
      expand client.toNeo4jPlsqlAnalysisClient db.toGraphDb target sources search := by
  intro a b h
  have hfiles := file_map_respects h
  have hrows := edge_outgoing_respects (PATH_RELATIONSHIPS.map (·.name)) sources
    ((client.max_traversal_edges - search.edge_by_id.length : Int) + 1).toNat h
  have hlength := congrArg List.length hrows
  have habsorb := congrArg
    (absorb client.project_id (file_map b.toGraphDb client.project_id) search.edge_by_id) hrows
  simp only [List.length_map] at hlength
  simp only [absorb_columns] at habsorb
  simp only [expand] at hfiles ⊢
  rw [hlength, hfiles, habsorb]

theorem search_rounds_respects (target : String) (rounds : Nat) (search : Search) :
    Respects (project_view client.project_id) fun db =>
      search_rounds client.toNeo4jPlsqlAnalysisClient db.toGraphDb target rounds search := by
  induction rounds generalizing search with
  | zero => exact Respects.const _
  | succ rounds ih =>
    intro a b h
    have hexpand := expand_respects target (frontier_sources search.frontier) search h
    have hnext := fun next => ih next h
    simp only [search_rounds] at hexpand hnext ⊢
    rw [hexpand]
    simp only [hnext]

theorem all_paths_respects (source target : String) (hops : Nat) :
    Respects (project_view client.project_id) fun db =>
      all_paths client.toNeo4jPlsqlAnalysisClient db.toGraphDb source target hops :=
  (search_rounds_respects target hops (search_start source)).bind fun _ => Respects.const _

theorem find_paths_respects (sha1 : String → String) (cache : ObjectCache)
    (from_id to_id : String) (max_hops limit offset : Int) :
    Respects (project_view client.project_id) fun db =>
      find_paths sha1 client.toNeo4jPlsqlAnalysisClient db.toGraphDb cache from_id to_id
        max_hops limit offset := by
  intro a b h
  have hrequire := require_object_respects h
  have hpaths := fun source target hops => all_paths_respects source target hops h
  simp only [find_paths] at hrequire hpaths ⊢
  simp only [hrequire, hpaths]

theorem Reads.find_paths_respects (from_id to_id : String) (max_hops limit offset : Int) :
    Respects (project_view client.project_id) fun db =>
      Reads.find_paths env client db from_id to_id max_hops limit offset := by
  intro a b h
  have hrequire := fun id => Reads.require_object_respects id h
  have hpaths := fun cache =>
    plsql.find_paths_respects env.sha1 cache from_id to_id max_hops limit offset h
  simp only [Reads.find_paths] at hrequire hpaths ⊢
  simp only [hrequire, hpaths]

end Paths

section Dependencies

/-- A page respects the view when its select and count templates do. -/
theorem dependency_page_respects {query : AnalysisGraph → Nat → List Relationship}
    {count : AnalysisGraph → Nat} (hquery : Respects (project_view client.project_id) query)
    (hcount : Respects (project_view client.project_id) count) (limit : Int) :
    Respects (project_view client.project_id) fun db =>
      dependency_page client db (query db) (count db) limit := by
  intro a b h
  have hfiles := client_file_map_respects h
  simp only [dependency_page, hquery h, hcount h, hfiles]

theorem callers_of_respects (object_id : String) (limit : Int) :
    Respects (project_view client.project_id) fun db => callers_of client db object_id limit :=
  (Reads.require_object_respects object_id).bind fun _ =>
    (dependency_page_respects (edge_callers_respects _ _) (count_edge_callers_respects _ _)
      limit).map _

theorem callees_of_respects (object_id : String) (limit : Int) :
    Respects (project_view client.project_id) fun db => callees_of client db object_id limit :=
  (Reads.require_object_respects object_id).bind fun _ =>
    (dependency_page_respects (edge_callees_respects _ _) (count_edge_callees_respects _ _)
      limit).map _

theorem table_access_of_respects (object_id : String) (limit : Int) :
    Respects (project_view client.project_id) fun db =>
      table_access_of client db object_id limit :=
  (Reads.require_object_respects object_id).bind fun _ =>
    (dependency_page_respects (edge_table_access_respects _ _ _ _ _)
      (count_edge_table_access_respects _ _ _ _ _) limit).map _

theorem unresolved_references_respects (limit : Int) :
    Respects (project_view client.project_id) fun db => unresolved_references client db limit :=
  dependency_page_respects (edge_unresolved_respects _ _ _) (count_edge_unresolved_respects _ _ _)
    limit

theorem relationship_evidence_respects (relationship_id : String) :
    Respects (project_view client.project_id) fun db =>
      relationship_evidence client db relationship_id := by
  intro a b h
  have hfiles := client_file_map_respects h
  have hrows := fun relationship source target =>
    edge_by_triple_respects relationship source target h
  simp only [relationship_evidence] at hrows ⊢
  simp only [hrows, hfiles]

theorem health_respects (object_id : Option String) (limit : Int) :
    Respects (project_view client.project_id) fun db => health client db object_id limit := by
  intro a b h
  have hrequire := fun id => Reads.require_object_respects id h
  have hedges := unresolved_references_respects client.max_rows h
  simp only [health] at hrequire hedges ⊢
  simp only [hrequire, hedges]

theorem dependencies_of_respects (object_id : String) (category : PlsqlDependencyCategory)
    (limit : Int) :
    Respects (project_view client.project_id) fun db =>
      dependencies_of client db object_id category limit :=
  (Reads.require_object_respects object_id).bind fun _ =>
    (callers_of_respects object_id _).bind fun _ =>
      (callees_of_respects object_id _).bind fun _ =>
        (table_access_of_respects object_id _).bind fun _ => Respects.const _

end Dependencies

section Impact

theorem fetch_edges_respects (direction : ImpactDirection)
    (relationships : List PlsqlRelationship) :
    Respects (project_view client.project_id) fun db =>
      fetch_edges client db direction relationships := by
  apply Respects.apply
  intro keys
  apply Respects.apply
  intro limit
  cases direction with
  | upstream => exact edge_incoming_respects _ keys limit
  | downstream => exact edge_outgoing_respects _ keys limit

theorem impact_anchors_respects (changed : PlsqlObjectRecord) :
    Respects (project_view client.project_id) fun db => impact_anchors client db changed := by
  intro a b h
  have hrows := edge_member_endpoints_respects (CALLS_AND_TABLE_ACCESS.map (·.name))
    (changed.qualified_name ++ ".") (client.max_traversal_edges + 1) h
  simp only [impact_anchors] at hrows ⊢
  rw [hrows]

theorem impact_search_respects (anchors : List String) (hops : Nat) (direction : ImpactDirection)
    (relationships : List PlsqlRelationship) :
    Respects (project_view client.project_id) fun db =>
      impact_search client db anchors hops direction relationships := by
  intro a b h
  have hfiles := client_file_map_respects h
  have hfetch := fetch_edges_respects direction relationships h
  simp only [impact_search] at hfetch ⊢
  rw [hfetch, hfiles]

theorem compute_impact_respects (changed : PlsqlObjectRecord) (hops : Nat)
    (direction : ImpactDirection) (relationships : List PlsqlRelationship) :
    Respects (project_view client.project_id) fun db =>
      compute_impact env client db changed hops direction relationships :=
  ((impact_anchors_respects changed).map _).bind fun anchors =>
    ((impact_search_respects anchors hops direction relationships).map _).bind fun _ =>
      (objects_by_qualified_name_respects _).bind fun _ => Respects.const _

theorem impact_traversal_respects (moment : Moment) (changed : PlsqlObjectRecord) (hops : Nat)
    (direction : ImpactDirection) (relationships : List PlsqlRelationship) :
    Respects (project_view client.project_id) fun db =>
      impact_traversal env client db moment changed hops direction relationships := by
  intro a b h
  have hcompute := @compute_impact_respects env _ changed hops direction relationships a b h
  simp only [impact_traversal] at hcompute ⊢
  rw [hcompute]

theorem impact_of_respects (moment : Moment) (object_id : String) (max_hops limit : Int)
    (direction : ImpactDirection) (relationships : Option (List PlsqlRelationship))
    (offset : Int) :
    Respects (project_view client.project_id) fun db =>
      impact_of env client db moment object_id max_hops limit direction relationships offset :=
  (Reads.require_object_respects object_id).bind fun changed =>
    (impact_traversal_respects moment changed _ direction _).bind fun _ => Respects.const _

theorem anchor_edges_respects (direction : ImpactDirection)
    (relationships : List PlsqlRelationship) (anchors : List String) :
    Respects (project_view client.project_id) fun db =>
      anchor_edges client db direction relationships anchors := by
  intro a b h
  have hfiles := client_file_map_respects h
  have hfetch := fetch_edges_respects direction relationships h
  simp only [anchor_edges] at hfetch ⊢
  rw [hfetch, hfiles]

theorem overview_of_respects (moment : Moment) (object_id : String) (max_hops limit : Int) :
    Respects (project_view client.project_id) fun db =>
      overview_of env client db moment object_id max_hops limit := by
  refine (Reads.require_object_respects object_id).bind fun record => ?_
  refine ((impact_anchors_respects record).map _).bind fun anchors => ?_
  refine (table_access_of_respects object_id _).bind fun access => ?_
  refine (impact_of_respects moment object_id max_hops _ .upstream none 0).bind fun impact => ?_
  refine ((anchor_edges_respects .upstream _ anchors).map _).bind fun incoming => ?_
  refine ((anchor_edges_respects .upstream _ anchors).map _).bind fun callers => ?_
  refine ((anchor_edges_respects .downstream _ anchors).map _).bind fun callees => ?_
  exact (Respects.mapM Reads.get_object_respects _).bind fun _ => Respects.const _

end Impact

/-- Every request reads the database through the project's view. -/
theorem serve_respects (moment : Moment) (request : Request) :
    Respects (project_view client.project_id) fun db => serve env client db moment request := by
  cases request with
  | search_objects query kinds limit =>
    exact ((search_respects query kinds limit).map _).bind fun _ => Respects.const _
  | get_object object_id =>
    exact (Reads.get_object_respects object_id).bind fun _ => Respects.const _
  | callers_of object_id limit =>
    exact (callers_of_respects object_id limit).bind fun _ => Respects.const _
  | callees_of object_id limit =>
    exact (callees_of_respects object_id limit).bind fun _ => Respects.const _
  | table_access_of object_id limit =>
    exact (table_access_of_respects object_id limit).bind fun _ => Respects.const _
  | unresolved_references limit =>
    exact ((unresolved_references_respects limit).map _).bind fun _ => Respects.const _
  | relationship_evidence relationship_id =>
    exact ((relationship_evidence_respects relationship_id).map _).bind fun _ => Respects.const _
  | object_source object_id =>
    exact (object_source_respects object_id).bind fun _ => Respects.const _
  | file_source file_id start_line end_line =>
    exact ((file_source_respects file_id start_line end_line).map _).bind fun _ =>
      Respects.const _
  | find_paths from_id to_id max_hops limit offset =>
    exact (Reads.find_paths_respects from_id to_id max_hops limit offset).bind fun _ =>
      Respects.const _
  | impact_of object_id max_hops limit direction relationships offset =>
    exact (impact_of_respects moment object_id max_hops limit direction relationships offset).bind
      fun _ => Respects.const _
  | health object_id limit =>
    exact (health_respects object_id limit).bind fun _ => Respects.const _
  | dependencies_of object_id category limit =>
    exact (dependencies_of_respects object_id category limit).bind fun _ => Respects.const _
  | overview_of object_id max_hops limit =>
    exact (overview_of_respects moment object_id max_hops limit).bind fun _ => Respects.const _

/-- And so does every sequence of requests, from any caches. -/
theorem answers_respects (state : ClientState) (requests : List (Moment × Request)) :
    Respects (project_view client.project_id) fun db => answers env client db state requests := by
  induction requests generalizing state with
  | nil => exact Respects.const _
  | cons asked requests ih =>
    intro a b h
    have hserve := @serve_respects env client asked.1 asked.2 a b h
    have hrest := fun state => ih state h
    simp only [answers] at hserve hrest ⊢
    rw [hserve]
    simp only [hrest]

end lagraph.plsql
