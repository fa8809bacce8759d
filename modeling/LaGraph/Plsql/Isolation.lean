import LaGraph.Plsql.Isolation.Operations

open foundation

namespace lagraph.plsql

/-- Two databases agree on what belongs to the project: its objects, its files
and those without a project, and the relationships and declarations among these. -/
structure AgreeOn (projectId : String) (db₁ db₂ : AnalysisGraph) : Prop where
  objects : project_objects db₁.toGraphDb projectId = project_objects db₂.toGraphDb projectId
  files : project_files db₁.toGraphDb projectId = project_files db₂.toGraphDb projectId
  relationships :
    (db₁.relationships.filter fun r =>
        r.source.projectId = some projectId ∧ r.target.projectId = some projectId) =
      db₂.relationships.filter fun r =>
        r.source.projectId = some projectId ∧ r.target.projectId = some projectId
  declarations :
    (db₁.declarations.filter fun d => d.object.projectId = some projectId ∧
        (d.file.projectId = none ∨ d.file.projectId = some projectId)) =
      db₂.declarations.filter fun d => d.object.projectId = some projectId ∧
        (d.file.projectId = none ∨ d.file.projectId = some projectId)

/-- They also show the same of what leaves the project: with the relationships
from its objects to any object, and the declarations of its objects by any file,
the rows are the same. -/
structure SameLeaving (projectId : String) (db₁ db₂ : AnalysisGraph) : Prop where
  edges : project_edges db₁.toGraphDb projectId = project_edges db₂.toGraphDb projectId
  declarations : project_declarations db₁ projectId = project_declarations db₂ projectId

/-- Nothing leaves the project. -/
structure Closed (projectId : String) (db : AnalysisGraph) : Prop where
  relationships : ∀ r ∈ db.relationships,
    r.source.projectId = some projectId → r.target.projectId = some projectId
  declarations : ∀ d ∈ db.declarations, d.object.projectId = some projectId →
    d.file.projectId = none ∨ d.file.projectId = some projectId

variable {P : String} {db₁ db₂ : AnalysisGraph}

theorem project_view_eq (hagree : AgreeOn P db₁ db₂) (hleaving : SameLeaving P db₁ db₂) :
    project_view P db₁ = project_view P db₂ := by
  unfold project_view
  rw [hagree.objects, hagree.files, hleaving.edges, hleaving.declarations]

theorem Closed.project_edges_eq {db : AnalysisGraph} (h : Closed P db) :
    project_edges db.toGraphDb P = (db.relationships.filter fun r =>
      r.source.projectId = some P ∧ r.target.projectId = some P).map EDGE_COLUMNS := by
  unfold project_edges
  congr 1
  apply List.filter_congr
  intro r hr
  have htarget := h.relationships r hr
  simp only [decide_eq_decide]
  tauto

theorem Closed.project_declarations_eq {db : AnalysisGraph} (h : Closed P db) :
    project_declarations db P = (db.declarations.filter fun d => d.object.projectId = some P ∧
      (d.file.projectId = none ∨ d.file.projectId = some P)).map Declaration.row := by
  unfold project_declarations
  congr 1
  apply List.filter_congr
  intro d hd
  have hfile := h.declarations d hd
  simp only [decide_eq_decide]
  tauto

/-- Where nothing leaves the project in either database, agreement on the project
is agreement on all its rows. -/
theorem SameLeaving.of_closed (hagree : AgreeOn P db₁ db₂) (h₁ : Closed P db₁)
    (h₂ : Closed P db₂) : SameLeaving P db₁ db₂ where
  edges := by rw [h₁.project_edges_eq, h₂.project_edges_eq, hagree.relationships]
  declarations := by
    rw [h₁.project_declarations_eq, h₂.project_declarations_eq, hagree.declarations]

/-- Whatever a client is asked, from whatever caches, it answers alike over both
databases. -/
def AnswerAlike (env : Environment) (client : AnalysisClient) (db₁ db₂ : AnalysisGraph) : Prop :=
  ∀ state requests, answers env client db₁ state requests = answers env client db₂ state requests

section Shared

/-- A routine without a name of its own. -/
def routine (projectId qualifiedName : String) : DatabaseObject where
  labels := ["DatabaseObject", "Procedure"]
  projectId := some projectId
  qualifiedName := some qualifiedName
  name := none

def routine_call (source target : DatabaseObject) : Relationship where
  source := source
  target := target
  type := "CALLS"

/-- Two projects in one database; both have a routine `HR.PAY`. -/
def shared_graph (relationships : List Relationship) : AnalysisGraph where
  objects := [routine "p" "HR.PAY", routine "p" "HR.RUN", routine "q" "HR.PAY"]
  files := []
  relationships := relationships
  declarations := []

/-- A client without a source root and without an impact cache. -/
def shared_client : AnalysisClient where
  toNeo4jPlsqlAnalysisClient := .init "p" 200 5 20000
  source_root := none
  max_source_bytes := 262144
  impact_cache_ttl := 0
  impact_cache_max := 16
  max_source_bytes_pos := default_source_bytes_pos
  impact_cache_max_pos := default_cache_entries_pos

/-- An empty file system. -/
def no_files : FileSystem where
  resolve := .ok
  resolve_strict := fun _ => .error .os_error
  st_size := fun _ => none
  read_bytes := fun _ => none

def shared_environment : Environment where
  files := no_files
  decode := fun _ => ""
  casefold := id
  strip := id
  sha1 := id

/-- The count of a dependency page. -/
def page_total : Except Raised Response → Option Nat
  | .ok (.dependencies page) => some page.total
  | _ => none

/-- Who calls the project's own `HR.PAY`. -/
def pay_callers : List (Moment × Request) :=
  [({ asked := 0, finished := 0 }, .callers_of (object_id "p" "HR.PAY") 10)]

end Shared

end lagraph.plsql
