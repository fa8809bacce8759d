import LaGraph.Foundation.Views
import LaGraph.Plsql.Catalog.Queries
import LaGraph.Plsql.Rows

open foundation

namespace lagraph.plsql

/-- What the catalog's templates can tell of a database to one project: its
objects, the files it may read, the columns of the relationships that start at its
objects and of the declarations that end there. -/
structure ProjectView where
  objects : List DatabaseObject
  files : List SourceFile
  edges : List Relationship
  declarations : List (Option String × DeclarationRow)

/-- The files of the project and those without one. -/
def project_files (db : GraphDb) (projectId : String) : List SourceFile :=
  db.files.filter fun f => f.projectId = none ∨ f.projectId = some projectId

/-- The relationships that start at the project's objects, as rows. -/
def project_edges (db : GraphDb) (projectId : String) : List Relationship :=
  (db.relationships.filter fun r => r.source.projectId = some projectId).map EDGE_COLUMNS

/-- A declaration as a row, under the name of its object. -/
def Declaration.row (d : Declaration) : Option String × DeclarationRow :=
  (d.object.qualifiedName, d.columns)

/-- The declarations of the project's objects, as rows. -/
def project_declarations (db : AnalysisGraph) (projectId : String) :
    List (Option String × DeclarationRow) :=
  (db.declarations.filter fun d => d.object.projectId = some projectId).map Declaration.row

def project_view (projectId : String) (db : AnalysisGraph) : ProjectView where
  objects := project_objects db.toGraphDb projectId
  files := project_files db.toGraphDb projectId
  edges := project_edges db.toGraphDb projectId
  declarations := project_declarations db projectId

variable {P : String}

theorem respects_objects : Respects (project_view P) fun db => project_objects db.toGraphDb P :=
  Respects.view_self.map ProjectView.objects

theorem respects_edges : Respects (project_view P) fun db => project_edges db.toGraphDb P :=
  Respects.view_self.map ProjectView.edges

theorem respects_declarations : Respects (project_view P) fun db => project_declarations db P :=
  Respects.view_self.map ProjectView.declarations

theorem search_objects_respects (needle : String) (kinds : List String) (limit : Nat) :
    Respects (project_view P) fun db => SEARCH_OBJECTS db.toGraphDb P needle kinds limit :=
  respects_objects.map fun objects =>
    ((objects.filter (search_clause needle kinds)).insertionSort search_order).take limit

theorem count_search_objects_respects (needle : String) (kinds : List String) :
    Respects (project_view P) fun db => COUNT_SEARCH_OBJECTS db.toGraphDb P needle kinds :=
  respects_objects.map fun objects => (objects.filter (search_clause needle kinds)).length

theorem objects_by_qualified_names_respects (names : List String) :
    Respects (project_view P) fun db => OBJECTS_BY_QUALIFIED_NAMES db.toGraphDb P names :=
  respects_objects.map fun objects =>
    (objects.filter fun n => holds names.contains n.qualifiedName).insertionSort
      fun a b => synonym_rank a ≤ synonym_rank b

theorem object_by_qualified_name_respects (name : String) :
    Respects (project_view P) fun db => OBJECT_BY_QUALIFIED_NAME db.toGraphDb P name := by
  intro a b h
  have hobjects := respects_objects h
  have hsplit : ∀ db : AnalysisGraph, (db.objects.filter fun n =>
      n.projectId = some P ∧ n.qualifiedName = some name) =
        (project_objects db.toGraphDb P).filter fun n => n.qualifiedName = some name := by
    intro db
    rw [project_objects, List.filter_filter]
    congr 1
    funext n
    simp [Bool.and_comm]
  simp only [OBJECT_BY_QUALIFIED_NAME, hsplit, hobjects]

theorem file_map_respects : Respects (project_view P) fun db => file_map db.toGraphDb P := by
  intro a b h
  have hfiles : project_files a.toGraphDb P = project_files b.toGraphDb P :=
    Respects.view_self.map ProjectView.files h
  unfold project_files at hfiles
  simp only [file_map, SOURCE_FILES, hfiles]

theorem edge_columns_idem (r : Relationship) : EDGE_COLUMNS (EDGE_COLUMNS r) = EDGE_COLUMNS r :=
  rfl

/-- The columns of an edge row hold everything `EDGE_ORDER` looks at. -/
theorem edge_order_columns (r s : Relationship) :
    edge_order r s ↔ edge_order (EDGE_COLUMNS r) (EDGE_COLUMNS s) :=
  Iff.rfl

/-- The edges a clause matches, by project first. -/
theorem edge_matches_eq (db : GraphDb) (clause : Relationship → Bool) :
    edge_matches db P clause =
      (db.relationships.filter fun r => r.source.projectId = some P).filter clause := by
  rw [edge_matches, List.filter_filter]
  congr 1
  funext r
  simp [Bool.and_comm]

/-- The same edges as rows, where the clause looks at nothing but the columns. -/
theorem edge_matches_columns {clause : Relationship → Bool}
    (hclause : ∀ r, clause (EDGE_COLUMNS r) = clause r) (db : GraphDb) :
    (edge_matches db P clause).map EDGE_COLUMNS = (project_edges db P).filter clause := by
  rw [edge_matches_eq, project_edges, List.filter_map]
  congr 2
  funext r
  exact (hclause r).symm

theorem edge_select_eq {clause : Relationship → Bool}
    (hclause : ∀ r, clause (EDGE_COLUMNS r) = clause r) (db : GraphDb) (limit : Nat) :
    edge_select db P clause limit =
      (((project_edges db P).filter clause).insertionSort edge_order).take limit := by
  rw [edge_select, List.map_take, edge_matches_eq, map_select hclause edge_order_columns]
  rfl

theorem edge_select_respects {clause : Relationship → Bool}
    (hclause : ∀ r, clause (EDGE_COLUMNS r) = clause r) :
    Respects (project_view P) fun db => edge_select db.toGraphDb P clause := by
  apply Respects.apply
  intro limit
  simp only [edge_select_eq hclause]
  exact respects_edges.map fun edges =>
    ((edges.filter clause).insertionSort edge_order).take limit

theorem edge_count_respects {clause : Relationship → Bool}
    (hclause : ∀ r, clause (EDGE_COLUMNS r) = clause r) :
    Respects (project_view P) fun db => edge_count db.toGraphDb P clause := by
  have hcount : ∀ db : AnalysisGraph, edge_count db.toGraphDb P clause =
      ((project_edges db.toGraphDb P).filter clause).length := by
    intro db
    rw [← edge_matches_columns hclause, List.length_map, edge_count]
  simp only [hcount]
  exact respects_edges.map fun edges => (edges.filter clause).length

/-- A clause that keeps some rows and shows less than their columns. -/
theorem edge_first_respects {ρ : Type} {clause : Relationship → Bool} {show_row : Relationship → ρ}
    (hclause : ∀ r, clause (EDGE_COLUMNS r) = clause r)
    (hshow : ∀ r, show_row (EDGE_COLUMNS r) = show_row r) (limit : Nat) :
    Respects (project_view P) fun db =>
      ((edge_matches db.toGraphDb P clause).take limit).map show_row := by
  have hrows : ∀ db : AnalysisGraph, ((edge_matches db.toGraphDb P clause).take limit).map show_row =
      (((project_edges db.toGraphDb P).filter clause).take limit).map show_row := by
    intro db
    rw [← edge_matches_columns hclause, ← List.map_take, List.map_map]
    congr 1
    funext r
    exact (hshow r).symm
  simp only [hrows]
  exact respects_edges.map fun edges => ((edges.filter clause).take limit).map show_row

/-- The clause of `EDGE_OUTGOING`. -/
def outgoing_clause (relationships sources : List String) (r : Relationship) : Bool :=
  relationships.contains r.type && holds sources.contains r.source.qualifiedName

/-- The rows of `EDGE_OUTGOING`, as its columns have them. -/
theorem edge_outgoing_columns (db : GraphDb) (relationships sources : List String) (limit : Nat) :
    (EDGE_OUTGOING db P relationships sources limit).map EDGE_COLUMNS =
      edge_select db P (outgoing_clause relationships sources) limit := by
  rw [EDGE_OUTGOING, edge_select, edge_matches]
  congr 4
  funext r
  cases hname : r.source.qualifiedName <;> simp [outgoing_clause, holds, hname]

theorem edge_outgoing_respects (relationships sources : List String) (limit : Nat) :
    Respects (project_view P) fun db =>
      (EDGE_OUTGOING db.toGraphDb P relationships sources limit).map EDGE_COLUMNS := by
  simp only [edge_outgoing_columns]
  exact (edge_select_respects fun _ => rfl).map fun rows => rows limit

theorem edge_callers_respects (name : String) (resolutions : List String) :
    Respects (project_view P) fun db => EDGE_CALLERS db.toGraphDb P name resolutions :=
  edge_select_respects fun _ => rfl

theorem count_edge_callers_respects (name : String) (resolutions : List String) :
    Respects (project_view P) fun db => COUNT_EDGE_CALLERS db.toGraphDb P name resolutions :=
  edge_count_respects fun _ => rfl

theorem edge_callees_respects (name : String) (resolutions : List String) :
    Respects (project_view P) fun db => EDGE_CALLEES db.toGraphDb P name resolutions :=
  edge_select_respects fun _ => rfl

theorem count_edge_callees_respects (name : String) (resolutions : List String) :
    Respects (project_view P) fun db => COUNT_EDGE_CALLEES db.toGraphDb P name resolutions :=
  edge_count_respects fun _ => rfl

theorem edge_table_access_respects (name memberPrefix : String)
    (relationships kinds resolutions : List String) :
    Respects (project_view P) fun db =>
      EDGE_TABLE_ACCESS db.toGraphDb P name memberPrefix relationships kinds resolutions :=
  edge_select_respects fun _ => rfl

theorem count_edge_table_access_respects (name memberPrefix : String)
    (relationships kinds resolutions : List String) :
    Respects (project_view P) fun db =>
      COUNT_EDGE_TABLE_ACCESS db.toGraphDb P name memberPrefix relationships kinds resolutions :=
  edge_count_respects fun _ => rfl

theorem edge_unresolved_respects (relationships unresolved resolutions : List String) :
    Respects (project_view P) fun db =>
      EDGE_UNRESOLVED db.toGraphDb P relationships unresolved resolutions :=
  edge_select_respects fun _ => rfl

theorem count_edge_unresolved_respects (relationships unresolved resolutions : List String) :
    Respects (project_view P) fun db =>
      COUNT_EDGE_UNRESOLVED db.toGraphDb P relationships unresolved resolutions :=
  edge_count_respects fun _ => rfl

theorem edge_by_triple_respects (relationship source target : String) :
    Respects (project_view P) fun db =>
      EDGE_BY_TRIPLE db.toGraphDb P relationship source target :=
  edge_first_respects (fun _ => rfl) (fun r => edge_columns_idem r) 2

theorem edge_incoming_respects (relationships targets : List String) (limit : Nat) :
    Respects (project_view P) fun db =>
      EDGE_INCOMING db.toGraphDb P relationships targets limit :=
  (edge_select_respects fun _ => rfl).map fun rows => rows limit

theorem edge_member_endpoints_respects (relationships : List String) (memberPrefix : String)
    (limit : Nat) :
    Respects (project_view P) fun db =>
      EDGE_MEMBER_ENDPOINTS db.toGraphDb P relationships memberPrefix limit :=
  edge_first_respects (fun _ => rfl) (fun _ => rfl) limit

/-- A declaration's row holds everything its `ORDER BY` looks at. -/
def declaration_row_order (a b : Option String × DeclarationRow) : Prop :=
  (a.2.startOffset).before b.2.startOffset ∧
    (a.2.startOffset ≠ b.2.startOffset ∨ (property a.2.path).before (property b.2.path))

instance : DecidableRel declaration_row_order := by
  intro a b
  unfold declaration_row_order
  infer_instance

theorem declaration_order_row (d e : Declaration) :
    declaration_order d e ↔ declaration_row_order d.row e.row :=
  Iff.rfl

theorem object_declaration_respects (name : String) :
    Respects (project_view P) fun db => OBJECT_DECLARATION db P name := by
  have hsplit : ∀ db : AnalysisGraph, (db.declarations.filter fun d =>
      d.object.projectId = some P ∧ d.object.qualifiedName = some name) =
        (db.declarations.filter fun d => d.object.projectId = some P).filter
          fun d => d.object.qualifiedName = some name := by
    intro db
    rw [List.filter_filter]
    congr 1
    funext d
    simp [Bool.and_comm]
  have hrows : ∀ db : AnalysisGraph, OBJECT_DECLARATION db P name =
      ((((project_declarations db P).filter fun row => row.1 = some name).insertionSort
        declaration_row_order).take 1).map (·.2) := by
    intro db
    have hselect := @map_select _ _ Declaration.row
      (fun d => decide (d.object.qualifiedName = some name)) (fun row => decide (row.1 = some name))
      declaration_order declaration_row_order _ _ (fun _ => rfl) declaration_order_row
      (db.declarations.filter fun d => d.object.projectId = some P)
    rw [OBJECT_DECLARATION, hsplit, project_declarations, ← hselect, ← List.map_take,
      List.map_map]
    rfl
  simp only [hrows]
  exact respects_declarations.map fun declarations =>
    (((declarations.filter fun row => row.1 = some name).insertionSort
      declaration_row_order).take 1).map (·.2)

end lagraph.plsql
