import LaGraph.Plsql.Dependencies
import LaGraph.Plsql.Synthetic

open foundation

namespace lagraph.plsql.SyntheticPlsqlAnalysisClient

variable (client : SyntheticPlsqlAnalysisClient)

theorem bounded_limit_max_rows (client : SyntheticPlsqlAnalysisClient) :
    client.bounded_limit client.max_rows = client.max_rows := by
  have hpos := client.max_rows_pos
  unfold bounded_limit
  omega

/-- `_dependency_page`. -/
def dependency_page (edges : List PlsqlDependencyRecord) (limit : Int) : PlsqlDependencyPage where
  items := edges.take (client.bounded_limit limit)
  truncated := client.bounded_limit limit < edges.length
  total := edges.length

/-- The edges that `callers_of` lists. -/
def caller_edges (object_id : String) : List PlsqlDependencyRecord :=
  client.edges.filter fun edge => edge.relationship = .CALLS && edge.target_id = object_id

def callers_of (object_id : String) (limit : Int) : PlsqlDependencyPage :=
  client.dependency_page (client.caller_edges object_id) limit

/-- The edges that `callees_of` lists. -/
def callee_edges (object_id : String) : List PlsqlDependencyRecord :=
  client.edges.filter fun edge => edge.relationship = .CALLS && edge.source_id = object_id

def callees_of (object_id : String) (limit : Int) : PlsqlDependencyPage :=
  client.dependency_page (client.callee_edges object_id) limit

/-- Whether an edge between two objects of the corpus is a table access of the object. -/
def accesses (object_id : String) (edge : PlsqlDependencyRecord) : Bool :=
  edge.relationship ∈ TABLE_ACCESS_RELATIONSHIPS &&
    match client.by_id edge.source_id, client.by_id edge.target_id with
    | some source, some target =>
      client.container_belongs source object_id && target.kind ∈ TABLE_OR_VIEW ||
        client.container_belongs target object_id
    | _, _ => false

def table_access_of (object_id : String) (limit : Int) : PlsqlDependencyPage :=
  client.dependency_page (client.edges.filter (client.accesses object_id)) limit

/-- The edges that `unresolved_references` lists. -/
def uncertain_edges : List PlsqlDependencyRecord :=
  client.edges.filter fun edge => edge.resolution ∈ UNRESOLVED_RESOLUTIONS

def unresolved_references (limit : Int) : PlsqlDependencyPage :=
  client.dependency_page client.uncertain_edges limit

/-- Whether an edge starts at the scope object or at a member of it. -/
def in_scope (object_id : Option String) (edge : PlsqlDependencyRecord) : Bool :=
  match object_id with
  | none => true
  | some object_id =>
    (client.by_id edge.source_id).any fun source => client.container_belongs source object_id

def health (object_id : Option String) (limit : Int) : PlsqlHealthRecord :=
  let edges := (client.unresolved_references client.max_rows).items
  let bounded := client.bounded_limit limit
  let of (resolution : PlsqlResolution) :=
    edges.filter fun edge => edge.resolution = resolution ∧ client.in_scope object_id edge
  let empty := health_category bounded []
  { total := (of .UNRESOLVED).length + (of .AMBIGUOUS).length,
    unresolved := health_category bounded (of .UNRESOLVED),
    ambiguous := health_category bounded (of .AMBIGUOUS),
    dynamic_sql := empty, parse_errors := empty, unsupported := empty,
    truncated := bounded < (of .UNRESOLVED).length ∨ bounded < (of .AMBIGUOUS).length }

def dependencies_of (object_id : String) (category : PlsqlDependencyCategory) (limit : Int) :
    PlsqlDependencySummaryRecord :=
  let callers := client.callers_of object_id client.max_rows
  let callees := client.callees_of object_id client.max_rows
  let access := client.table_access_of object_id client.max_rows
  let buckets := bucket callers.items callees.items access.items
  let page := client.dependency_page (buckets category) limit
  { counts := fun
      | .callers => callers.total
      | .callees => callees.total
      | category => (buckets category).length,
    items := page.items, truncated := page.truncated, total := page.total }

end lagraph.plsql.SyntheticPlsqlAnalysisClient
