import LaGraph.Foundation.Capped
import LaGraph.Foundation.Results
import LaGraph.Plsql.Isolation.Operations

open foundation

namespace lagraph.plsql

variable {client : AnalysisClient} {db : AnalysisGraph} {row : Relationship}
  {edge : PlsqlDependencyRecord} {clause : Relationship → Bool} {p : Relationship → Bool}

/-- Both ends of the relationship have a name. -/
def named (row : Relationship) : Bool :=
  row.source.qualifiedName.any (· ≠ "") && row.target.qualifiedName.any (· ≠ "")

/-- What a row maps onto; nothing where reading it raises. -/
def record_of (client : AnalysisClient) (db : AnalysisGraph) (row : Relationship) :
    Option PlsqlDependencyRecord :=
  (dependency_from_row client.project_id row (client.file_map db)).toOption.join

/-- The matches of a clause in the order of a select template. -/
def edge_rows (client : AnalysisClient) (db : AnalysisGraph) (clause : Relationship → Bool) :
    List Relationship :=
  (edge_matches db.toGraphDb client.project_id clause).insertionSort edge_order

theorem countP_edge_rows :
    (edge_rows client db clause).countP p =
      (edge_matches db.toGraphDb client.project_id clause).countP p :=
  (List.perm_insertionSort _ _).countP_eq p

theorem mem_edge_rows (h : row ∈ edge_rows client db clause) : clause row = true := by
  rw [edge_rows, List.mem_insertionSort, edge_matches, List.mem_filter] at h
  simpa using (of_decide_eq_true h.2).2

theorem record_of_eq_some : record_of client db row = some edge ↔
    dependency_from_row client.project_id row (client.file_map db) = .ok (some edge) := by
  unfold record_of
  cases dependency_from_row client.project_id row (client.file_map db) with
  | error e => simp [Except.toOption]
  | ok found => cases found <;> simp [Except.toOption]

/-- The kind of a node with an addressable label. -/
theorem kind_from_labels_of_constraint {n : DatabaseObject} (h : kind_constraint n = true) :
    ∃ kind, kind_from_labels n.labels = some kind := by
  rw [kind_constraint, Bool.and_eq_true] at h
  obtain ⟨label, hlabel, hkind⟩ := List.any_eq_true.mp h.2
  rw [← Option.isSome_iff_exists, kind_from_labels, List.find?_isSome]
  obtain ⟨kind, -, rfl⟩ := List.mem_map.mp (List.contains_iff_mem.mp hkind)
  refine ⟨kind, ?_, List.contains_iff_mem.mpr hlabel⟩
  cases kind <;> decide

/-- The resolution of a valid row. -/
theorem resolution_of_valid (hvalid : edge_validity_clause all_resolutions row = true) :
    ∃ resolution : PlsqlResolution, row.resolution.getD "EXACT" = resolution.name := by
  simp only [edge_validity_clause, Bool.and_eq_true] at hvalid
  obtain ⟨resolution, -, hname⟩ := List.mem_map.mp (List.contains_iff_mem.mp hvalid.1.1)
  exact ⟨resolution, hname.symm⟩

theorem resolution_name_ne_empty (resolution : PlsqlResolution) : resolution.name ≠ "" := by
  cases resolution <;> decide

theorem PlsqlResolution.name_injective {r s : PlsqlResolution} (h : r.name = s.name) : r = s := by
  cases r <;> cases s <;> first | rfl | exact absurd h (by decide)

theorem find_resolution (resolution : PlsqlResolution) :
    RESOLUTIONS.find? (·.name = resolution.name) = some resolution := by
  cases resolution <;> decide

/-- A row with the fields that it maps from. -/
theorem dependency_from_row_valid (hvalid : edge_validity_clause all_resolutions row = true)
    (htype : row.type ∈ TRIGGER_AWARE_RELATIONSHIPS.map (·.name)) :
    dependency_from_row client.project_id row (client.file_map db) = .ok none ∧ named row = false ∨
      named row = true ∧
        ((∃ e, dependency_from_row client.project_id row (client.file_map db) = .error e) ∨
          ∃ edge, dependency_from_row client.project_id row (client.file_map db) = .ok (some edge) ∧
            edge.resolution.name = row.resolution.getD "EXACT") := by
  obtain ⟨resolution, hname⟩ := resolution_of_valid hvalid
  simp only [edge_validity_clause, Bool.and_eq_true] at hvalid
  obtain ⟨⟨-, hsource⟩, htarget⟩ := hvalid
  obtain ⟨source_kind, hsource_kind⟩ := kind_from_labels_of_constraint hsource
  obtain ⟨target_kind, htarget_kind⟩ := kind_from_labels_of_constraint htarget
  simp only [kind_constraint, Bool.and_eq_true] at hsource htarget
  obtain ⟨source, hsource_name⟩ := Option.isSome_iff_exists.mp hsource.1
  obtain ⟨target, htarget_name⟩ := Option.isSome_iff_exists.mp htarget.1
  obtain ⟨relationship, hrelationship⟩ : ∃ relationship,
      TRIGGER_AWARE_RELATIONSHIPS.find? (·.name = row.type) = some relationship := by
    obtain ⟨relationship, hmem, hsame⟩ := List.mem_map.mp htype
    rw [← Option.isSome_iff_exists, List.find?_isSome]
    exact ⟨relationship, hmem, by simpa using hsame⟩
  have hmaps : dependency_from_row client.project_id row (client.file_map db) = .ok none ∧
        (source = "" ∨ target = "") ∨
      ¬ (source = "" ∨ target = "") ∧
        ((∃ e, dependency_from_row client.project_id row (client.file_map db) = .error e) ∨
          ∃ edge, dependency_from_row client.project_id row (client.file_map db) = .ok (some edge) ∧
            edge.resolution = resolution) := by
    unfold dependency_from_row
    simp only
    split
    · rename_i found_relationship found source_qn target_qn hrel hres hs ht
      cases hsource_name.symm.trans hs
      cases htarget_name.symm.trans ht
      have hfound : found = resolution := by
        have hfound_name := List.find?_some hres
        simp only [decide_eq_true_eq] at hfound_name
        refine PlsqlResolution.name_injective (hfound_name.trans ?_)
        cases hresolution : row.resolution with
        | none =>
          rw [hresolution] at hname
          exact hname
        | some name =>
          rw [hresolution, Option.getD_some] at hname
          simp only [hname, resolution_name_ne_empty, if_false]
      by_cases hempty : source = "" ∨ target = ""
      · exact Or.inl ⟨if_pos hempty, hempty⟩
      · rw [if_neg hempty, hsource_kind, htarget_kind]
        refine Or.inr ⟨hempty, ?_⟩
        cases resolve_path_sync (str_or_none row.coordinates.sourceFileId)
            (client.file_map db) with
        | error e => exact Or.inl ⟨e, rfl⟩
        | ok path => exact Or.inr ⟨_, rfl, hfound⟩
    · rename_i hno
      refine absurd htarget_name (hno relationship resolution source target hrelationship ?_
        hsource_name)
      rw [← find_resolution resolution]
      cases hresolution : row.resolution with
      | none =>
        rw [hresolution, Option.getD_none] at hname
        simp only [hname]
      | some name =>
        rw [hresolution, Option.getD_some] at hname
        simp only [hname, resolution_name_ne_empty, if_false]
  have hnamed : named row = true ↔ ¬ (source = "" ∨ target = "") := by
    simp [named, hsource_name, htarget_name]
  rcases hmaps with ⟨hnone, hempty⟩ | ⟨hnonempty, hmaps⟩
  · exact Or.inl ⟨hnone, by simpa using mt hnamed.mp (not_not.mpr hempty)⟩
  · refine Or.inr ⟨hnamed.mpr hnonempty, hmaps.imp_right ?_⟩
    rintro ⟨edge, hedge, rfl⟩
    exact ⟨edge, hedge, hname.symm⟩

/-- A valid row that can be read maps onto a record exactly when both ends are named. -/
theorem record_of_isSome (hvalid : edge_validity_clause all_resolutions row = true)
    (htype : row.type ∈ TRIGGER_AWARE_RELATIONSHIPS.map (·.name))
    (hread : ∃ record, dependency_from_row client.project_id row (client.file_map db) = .ok record) :
    (record_of client db row).isSome = named row := by
  unfold record_of
  rcases @dependency_from_row_valid client db row hvalid htype with
    ⟨hnone, hunnamed⟩ | ⟨hnamed, ⟨e, herror⟩ | ⟨edge, hedge, -⟩⟩
  · rw [hnone, hunnamed]
    rfl
  · obtain ⟨record, hrecord⟩ := hread
    cases herror.symm.trans hrecord
  · rw [hedge, hnamed]
    rfl

theorem record_of_resolution (hvalid : edge_validity_clause all_resolutions row = true)
    (htype : row.type ∈ TRIGGER_AWARE_RELATIONSHIPS.map (·.name))
    (h : record_of client db row = some edge) :
    edge.resolution.name = row.resolution.getD "EXACT" := by
  rw [record_of_eq_some] at h
  rcases @dependency_from_row_valid client db row hvalid htype with
    ⟨hnone, -⟩ | ⟨-, ⟨e, herror⟩ | ⟨found, hfound, hresolution⟩⟩
  · cases hnone.symm.trans h
  · cases herror.symm.trans h
  · cases hfound.symm.trans h
    exact hresolution

/-- The names and the relationship of a row are those of its record. -/
theorem record_of_triple (h : record_of client db row = some edge) :
    row.type = edge.relationship.name ∧ row.source.qualifiedName = some edge.source_qualified_name :=
  have htriple := (dependency_from_row_triple (record_of_eq_some.mp h)).1
  ⟨htriple.1, htriple.2.1⟩

theorem bounded_limit_max_rows (client : Neo4jPlsqlAnalysisClient) :
    bounded_limit client client.max_rows = client.max_rows := by
  have hpos := client.max_rows_pos
  unfold bounded_limit
  omega

/-- A page of a template. -/
theorem dependency_page_ok {count : Nat} {page : PlsqlDependencyPage}
    (h : dependency_page client db (edge_select db.toGraphDb client.project_id clause) count
      client.max_rows = .ok page) :
    page.items = capped.page (client.max_rows + 1) client.max_rows (record_of client db)
        (edge_rows client db clause) ∧
      page.total = count ∧
      ∀ row ∈ (edge_rows client db clause).take (client.max_rows + 1), ∃ record,
        dependency_from_row client.project_id row (client.file_map db) = .ok record := by
  unfold dependency_page dependencies_from_rows edge_select at h
  simp only [bounded_limit_max_rows, List.mapM_map, Function.comp_def,
    dependency_from_row_columns] at h
  obtain ⟨items, hitems, h⟩ := results.bind_ok.mp h
  obtain ⟨mapped, hmapped, hitems⟩ := results.bind_ok.mp hitems
  cases h
  cases hitems
  refine ⟨?_, rfl, results.ok_of_mapM hmapped⟩
  rw [results.filterMap_of_mapM hmapped]
  rfl

/-- Each row that `p` selects has named ends and comes among the first `max_rows` such rows
of the first `max_rows + 1`. -/
def Shown (client : AnalysisClient) (db : AnalysisGraph) (clause p : Relationship → Bool) : Prop :=
  capped.Shows (client.max_rows + 1) client.max_rows (Option.guard named) p
    (edge_rows client db clause)

/-- A clause whose matches are valid relationships of the analysis. -/
def Valid (clause : Relationship → Bool) : Prop :=
  ∀ row, clause row = true → edge_validity_clause all_resolutions row = true ∧
    row.type ∈ TRIGGER_AWARE_RELATIONSHIPS.map (·.name)

theorem shown_iff (hvalid : Valid clause)
    (hread : ∀ row ∈ (edge_rows client db clause).take (client.max_rows + 1), ∃ record,
      dependency_from_row client.project_id row (client.file_map db) = .ok record) :
    capped.Shows (client.max_rows + 1) client.max_rows (record_of client db) p
      (edge_rows client db clause) ↔ Shown client db clause p := by
  refine capped.shows_congr fun row hrow => ?_
  have hclause := hvalid row (mem_edge_rows (List.mem_of_mem_take hrow))
  rw [record_of_isSome hclause.1 hclause.2 (hread row hrow), Option.isSome_guard]

/-- All of the matches are shown exactly when they fit and have named ends. -/
theorem shown_all : Shown client db clause (fun _ => true) ↔
    (edge_rows client db clause).length ≤ client.max_rows ∧
      ∀ row ∈ edge_rows client db clause, named row = true := by
  rw [Shown, capped.shows_all]
  simp only [Option.isSome_guard]

/-- A page counts all the matches that `p` selects exactly when they are shown. -/
theorem countP_page_iff {count : Nat} {page : PlsqlDependencyPage}
    {q : PlsqlDependencyRecord → Bool} (hvalid : Valid clause)
    (h : dependency_page client db (edge_select db.toGraphDb client.project_id clause) count
      client.max_rows = .ok page)
    (hq : ∀ row edge, clause row = true → record_of client db row = some edge → q edge = p row) :
    page.items.countP q = (edge_matches db.toGraphDb client.project_id clause).countP p ↔
      Shown client db clause p := by
  obtain ⟨hitems, -, hread⟩ := dependency_page_ok h
  rw [← shown_iff hvalid hread, hitems, ← countP_edge_rows]
  exact capped.countP_page_eq_iff fun row hrow edge => hq row edge (mem_edge_rows hrow)

/-- A procedure of the project. -/
def procedure_node (name : String) : DatabaseObject where
  labels := ["DatabaseObject", "Procedure"]
  projectId := some "p"
  qualifiedName := some name
  name := none

/-- A client that fetches one row at most. -/
def one_row_client : AnalysisClient where
  toNeo4jPlsqlAnalysisClient := .init "p" 1 5 20000
  source_root := none
  max_source_bytes := 262144
  impact_cache_ttl := 0
  impact_cache_max := 16
  max_source_bytes_pos := default_source_bytes_pos
  impact_cache_max_pos := default_cache_entries_pos

end lagraph.plsql
