import LaGraph.Plsql.Pagination
import LaGraph.Plsql.Impact
import LaGraph.Plsql.Synthetic

open foundation

namespace lagraph.plsql

/-- The settings that the listings read. -/
structure Settings where
  plsql_max_rows : Nat
  plsql_max_hops : Nat
  plsql_max_rows_pos : 0 < plsql_max_rows
  plsql_max_hops_pos : 0 < plsql_max_hops
  plsql_max_hops_le : plsql_max_hops ≤ 50

/-- The page limit of a request. -/
structure PageLimit where
  value : Nat
  pos : 0 < value
  le : value ≤ 200

/-- `DEFAULT_PAGE_SIZE`. -/
def DEFAULT_PAGE_SIZE : PageLimit where
  value := 25
  pos := by omega
  le := by omega

/-- `_effective_page_limit`. -/
def effective_page_limit (settings : Settings) (limit : PageLimit) : Nat :=
  min limit.value settings.plsql_max_rows

/-- A computation over the state of an adapter. -/
abbrev Served (σ : Type) := ExceptT PageError (StateM σ)

/-- The operations of an adapter that the listings use. -/
structure AnalysisGraphClient (σ : Type) where
  get_object : String → ExceptT Raised (StateM σ) (Option PlsqlObjectRecord)
  find_paths : (from_id to_id : String) → (max_hops limit offset : Int) →
    ExceptT Raised (StateM σ) PlsqlPathPage
  impact_of : Moment → (object_id : String) → (max_hops limit : Int) → ImpactDirection →
    Option (List PlsqlRelationship) → (offset : Int) → ExceptT Raised (StateM σ) PlsqlImpactPage

/-- The adapter over a graph database. -/
def AnalysisGraphClient.neo4j (env : Environment) (client : AnalysisClient) (db : AnalysisGraph) :
    AnalysisGraphClient ClientState where
  get_object := Reads.get_object client db
  find_paths := Reads.find_paths env client db
  impact_of := fun moment object_id max_hops limit direction relationships offset =>
    plsql.impact_of env client db moment object_id max_hops limit direction relationships offset

/-- The adapter over a fixed corpus keeps nothing between its calls. -/
def AnalysisGraphClient.synthetic (env : Environment) (client : SyntheticPlsqlAnalysisClient) :
    AnalysisGraphClient Unit where
  get_object := fun object_id => pure (client.by_id object_id)
  find_paths := fun from_id to_id max_hops limit offset =>
    pure (client.find_paths env.sha1 from_id to_id max_hops limit offset)
  impact_of := fun _ object_id max_hops limit direction relationships offset =>
    pure (client.impact_of env object_id max_hops limit direction relationships offset)

structure PlsqlPathResult where
  items : List PlsqlPathRecord
  truncated : Bool
  count : Nat
  next_cursor : Option String

structure PlsqlImpactResult where
  object : PlsqlObjectRecord
  items : List PlsqlImpactItemRecord
  truncated : Bool
  count : Nat
  summary : PlsqlImpactSummaryRecord
  next_cursor : Option String

section Routes

variable {σ : Type} (sha256 : List Char → List (Fin 16))
  (decode : List Nat → Option (List Char)) (settings : Settings)
  (analysis : AnalysisGraphClient σ)

/-- An adapter call; what it raises ends the request. -/
def served {α : Type} (m : ExceptT Raised (StateM σ) α) : Served σ α :=
  ExceptT.mk do
    match ← m.run with
    | .ok a => pure (.ok a)
    | .error e => pure (.error (.raised e))

/-- `_require_object`. -/
def require_known_object (object_id : String) : Served σ PlsqlObjectRecord := do
  match ← served (analysis.get_object object_id) with
  | some record => pure record
  | none => throw (.raised (.gateway
      (.PlsqlObjectNotFound "The requested PL/SQL object was not found.")))

/-- The length check of the cursor parameter. -/
def check_cursor (cursor : Option String) : Served σ Unit :=
  if cursor.all fun cursor => 1 ≤ cursor.toList.length && cursor.toList.length ≤ 1024 then pure ()
  else throw .RequestValidation

/-- The cursor of the next page. -/
def next_cursor (scope : String) (offset shown : Nat) (truncated : Bool) : Option String :=
  if truncated then some (encode_page_cursor scope (offset + shown)) else none

def decoded (cursor : Option String) (scope : String) : Served σ Nat :=
  match decode_page_cursor decode cursor scope with
  | .ok offset => pure offset
  | .error e => throw e

/-- The route `find_paths`. -/
def find_paths_route (from_id to_id : String) (limit : PageLimit) (cursor : Option String) :
    Served σ PlsqlPathResult := do
  check_cursor cursor
  let _ ← require_known_object analysis from_id
  let _ ← require_known_object analysis to_id
  let scope := pagination_scope sha256 (.paths from_id to_id settings.plsql_max_hops)
  let offset ← decoded decode cursor scope
  let page ← served (analysis.find_paths from_id to_id settings.plsql_max_hops
    (effective_page_limit settings limit) offset)
  pure
    { items := page.items, truncated := page.truncated, count := page.total,
      next_cursor := next_cursor scope offset page.items.length page.truncated }

/-- The parameters of the impact route that choose the edges and the hops. -/
structure ImpactFilter where
  direction : ImpactDirection
  depth : Option Nat
  relationship : Option PlsqlRelationship
  direct_only : Bool
  writes_only : Bool

def ImpactFilter.relationships (filter : ImpactFilter) : Option (List PlsqlRelationship) :=
  if filter.writes_only then some [.WRITES] else filter.relationship.map fun r => [r]

/-- `depth or settings.plsql_max_hops`, and no more than that. -/
def ImpactFilter.max_hops (filter : ImpactFilter) : Nat :=
  if filter.direct_only then 1
  else min (filter.depth.getD settings.plsql_max_hops) settings.plsql_max_hops

/-- The effective query of an impact request. -/
def ImpactFilter.query (filter : ImpactFilter) (object_id : String) : PageQuery :=
  .impact object_id (filter.max_hops settings) filter.direction filter.relationships

/-- The route `get_impact`. -/
def get_impact_route (moment : Moment) (object_id : String) (filter : ImpactFilter)
    (limit : PageLimit) (cursor : Option String) : Served σ PlsqlImpactResult := do
  check_cursor cursor
  let record ← require_known_object analysis object_id
  let scope := pagination_scope sha256 (filter.query settings object_id)
  let offset ← decoded decode cursor scope
  let page ← served (analysis.impact_of moment object_id (filter.max_hops settings)
    (effective_page_limit settings limit) filter.direction filter.relationships offset)
  pure
    { object := record, items := page.items, truncated := page.truncated, count := page.total,
      summary := page.summary,
      next_cursor := next_cursor scope offset page.items.length page.truncated }

end Routes

end lagraph.plsql
