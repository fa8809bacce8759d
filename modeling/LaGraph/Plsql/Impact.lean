import LaGraph.Plsql.Dependencies

open foundation

namespace lagraph.plsql

section

/-- `_MAX_IMPACT_ROUTES_PER_DEPENDENT`. -/
def MAX_IMPACT_ROUTES_PER_DEPENDENT : Nat := 5

/-- The end an edge is fetched by. -/
def ImpactDirection.near_end : ImpactDirection → PlsqlDependencyRecord → String
  | .upstream, edge => edge.target_qualified_name
  | .downstream, edge => edge.source_qualified_name

/-- The end the walk goes on to. -/
def ImpactDirection.far_end : ImpactDirection → PlsqlDependencyRecord → String
  | .upstream, edge => edge.source_qualified_name
  | .downstream, edge => edge.target_qualified_name

def impact_bound_exceeded : Raised :=
  .gateway (.PlsqlLimitExceeded "The impact search exceeded the gateway traversal bound.")

def overview_bound_exceeded : Raised :=
  .gateway (.PlsqlLimitExceeded "The overview search exceeded the gateway traversal bound.")

/-- The members of a package among the ends of the rows, sorted. -/
def members_named (package : String) (rows : List (Option String × Option String)) :
    List String :=
  let ends := rows.flatMap fun row => [row.1, row.2]
  (((ends.filterMap id).filter fun name => owner_of name = some package).dedup).insertionSort
    (· ≤ ·)

/-- What a breadth-first search has found: the edge table in insertion order, the
distance of each object in the order it was reached, and the edges that reach it
at that distance. -/
structure Reached where
  edge_by_id : List PlsqlDependencyRecord
  distance : List (String × Nat)
  parents : List (String × PlsqlDependencyRecord)

/-- The search before the next round. -/
structure ImpactSearch where
  reached : Reached
  expanded : List String
  frontier : List String

/-- The rows of one round: the edge table with their edges, and every edge as the
table has it, under the object it was fetched for. -/
def absorb_round (direction : ImpactDirection) (project_id : String)
    (file_paths : List (String × String)) :
    List PlsqlDependencyRecord → List Relationship →
      Except Raised (List PlsqlDependencyRecord × List (String × PlsqlDependencyRecord))
  | edge_by_id, [] => .ok (edge_by_id, [])
  | edge_by_id, row :: rows => do
    match ← dependency_from_row project_id row file_paths with
    | none => absorb_round direction project_id file_paths edge_by_id rows
    | some edge =>
      let known := edge_by_id.find? (·.id = edge.id)
      let (table, adjacency) ← absorb_round direction project_id file_paths
        (if known.isSome then edge_by_id else edge_by_id ++ [edge]) rows
      .ok (table, (direction.near_end edge, known.getD edge) :: adjacency)

/-- The edges fetched for `current`, by edge id. -/
def edges_at (adjacency : List (String × PlsqlDependencyRecord)) (current : String) :
    List PlsqlDependencyRecord :=
  ((adjacency.filter (·.1 = current)).map (·.2)).insertionSort fun a b => a.id ≤ b.id

/-- One edge out of an expanded object: a new object gets its distance, and an
edge that reaches one at this depth is kept as its parent. -/
def visit (direction : ImpactDirection) (depth : Nat) (current : String)
    (walk : Reached × List String) (edge : PlsqlDependencyRecord) : Reached × List String :=
  let (reached, next_frontier) := walk
  let peer := direction.far_end edge
  if peer = current then walk
  else
    match reached.distance.lookup peer with
    | none =>
      ({ reached with
          distance := reached.distance ++ [(peer, depth)],
          parents := reached.parents ++ [(peer, edge)] },
        next_frontier ++ [peer])
    | some reached_at =>
      if reached_at = depth then
        ({ reached with parents := reached.parents ++ [(peer, edge)] }, next_frontier)
      else walk

/-- The objects of a round, each with all its edges. -/
def visit_round (direction : ImpactDirection) (depth : Nat)
    (adjacency : List (String × PlsqlDependencyRecord)) (keys : List String)
    (reached : Reached) : Reached × List String :=
  keys.foldl (fun walk current =>
    (edges_at adjacency current).foldl (visit direction depth current) walk) (reached, [])

/-- The rounds of the search from `depth` on; `fetch` runs the edge template of
the direction for the given objects and row limit. -/
def impact_rounds (direction : ImpactDirection) (project_id : String)
    (file_paths : List (String × String)) (max_traversal_edges : Nat)
    (fetch : List String → Nat → List Relationship) :
    (rounds depth : Nat) → ImpactSearch → Except Raised Reached
  | 0, _, search => .ok search.reached
  | rounds + 1, depth, search =>
    let keys := search.frontier.filter (· ∉ search.expanded)
    if keys = [] then .ok search.reached
    else
      let remaining : Int := max_traversal_edges - search.reached.edge_by_id.length
      if remaining ≤ 0 then .error impact_bound_exceeded
      else
        let rows := fetch keys (remaining + 1).toNat
        if remaining < rows.length then .error impact_bound_exceeded
        else do
          let (table, adjacency) ← absorb_round direction project_id file_paths
            search.reached.edge_by_id rows
          let (reached, frontier) := visit_round direction depth adjacency keys
            { search.reached with edge_by_id := table }
          impact_rounds direction project_id file_paths max_traversal_edges fetch rounds
            (depth + 1) { reached, expanded := search.expanded ++ keys, frontier }

/-- `routes_from`: shortest routes in flow order as edge ids, through at most
`fuel` parents. -/
def routes_from (direction : ImpactDirection) (anchors : List String)
    (parents : List (String × PlsqlDependencyRecord)) : Nat → String → List (List String)
  | 0, _ => []
  | fuel + 1, peer =>
    ((parents.filter (·.1 = peer)).map (·.2)).flatMap fun edge =>
      let current := direction.near_end edge
      let onward :=
        if current ∈ anchors then [[]] else routes_from direction anchors parents fuel current
      onward.map fun rest =>
        match direction with
        | .upstream => edge.id :: rest
        | .downstream => rest ++ [edge.id]

/-- The order of a dependent's routes: target names, then edge ids. -/
def route_order (a b : List PlsqlDependencyRecord) : Prop :=
  let names (steps : List PlsqlDependencyRecord) := steps.map (·.target_qualified_name)
  let trail (steps : List PlsqlDependencyRecord) := steps.map (·.id)
  names a < names b ∨ names a = names b ∧ trail a ≤ trail b

instance : DecidableRel route_order := by
  intro a b
  unfold route_order
  infer_instance

/-- The order of the items: distance, case-folded name, id. -/
def item_order (env : Environment) (a b : PlsqlImpactItemRecord) : Prop :=
  let name (item : PlsqlImpactItemRecord) := env.casefold item.dependent.qualified_name
  a.distance < b.distance ∨ a.distance = b.distance ∧
    (name a < name b ∨ name a = name b ∧ a.dependent.id ≤ b.dependent.id)

instance (env : Environment) : DecidableRel (item_order env) := by
  intro a b
  unfold item_order
  infer_instance

/-- A dependent with its distance and its routes. -/
structure Dependent where
  record : PlsqlObjectRecord
  distance : Nat
  routes : List (List PlsqlDependencyRecord)

/-- The package a dependent counts for. -/
def package_of (record : PlsqlObjectRecord) : Option (String × String) :=
  match record.owner with
  | some owner =>
    if owner ≠ "" then some (record.schema_name, owner)
    else if record.kind = .Package then some (record.schema_name, record.name) else none
  | none => if record.kind = .Package then some (record.schema_name, record.name) else none

/-- The tables a route's edges write to. -/
def tables_written (route : List PlsqlDependencyRecord) : List String :=
  (route.filter fun edge =>
    edge.relationship = .WRITES ∧ edge.target_kind ∈ TABLE_OR_VIEW).map (·.target_id)

variable (env : Environment) (client : AnalysisClient) (db : AnalysisGraph)

def impact_item (dependent : Dependent) : PlsqlImpactItemRecord where
  id := "impact://" ++ client.project_id ++ "/" ++ dependent.record.id ++ "/d" ++
    toString dependent.distance
  dependent := dependent.record
  distance := dependent.distance
  paths := (dependent.routes.insertionSort route_order).map
    (path_record env.sha1 client.toNeo4jPlsqlAnalysisClient)

/-- The items in order and the summary over all dependents. -/
def impact_result (dependents : List Dependent) : Impact :=
  let items := dependents.map (impact_item env client)
  let direct := (dependents.filter (·.distance = 1)).length
  { items := items.insertionSort (item_order env),
    summary :=
      { direct, indirect := items.length - direct,
        packages := (dependents.filterMap fun d => package_of d.record).dedup.length,
        tables_modified :=
          (dependents.flatMap fun d => d.routes.flatMap tables_written).dedup.length } }

/-- `_impact_anchors`: a package stands for its members where the graph keeps
edges on them. -/
def impact_anchors (changed : PlsqlObjectRecord) : Except Raised (List String) :=
  if changed.kind ≠ .Package then .ok [changed.qualified_name]
  else
    let rows := EDGE_MEMBER_ENDPOINTS db.toGraphDb client.project_id
      (CALLS_AND_TABLE_ACCESS.map (·.name)) (changed.qualified_name ++ ".")
      (client.max_traversal_edges + 1)
    if client.max_traversal_edges < rows.length then .error impact_bound_exceeded
    else
      let members := members_named changed.name rows
      .ok (if members = [] then [changed.qualified_name] else members)

/-- The edge template of a direction. -/
def fetch_edges (direction : ImpactDirection) (relationships : List PlsqlRelationship)
    (keys : List String) (limit : Nat) : List Relationship :=
  match direction with
  | .upstream =>
    EDGE_INCOMING db.toGraphDb client.project_id (relationships.map (·.name)) keys limit
  | .downstream =>
    (EDGE_OUTGOING db.toGraphDb client.project_id (relationships.map (·.name)) keys limit).map
      EDGE_COLUMNS

/-- The breadth-first search from the anchors. -/
def impact_search (anchors : List String) (hops : Nat) (direction : ImpactDirection)
    (relationships : List PlsqlRelationship) : Except Raised Reached :=
  impact_rounds direction client.project_id (client.file_map db) client.max_traversal_edges
    (fetch_edges client db direction relationships) hops 1
    { reached := { edge_by_id := [], distance := [], parents := [] }, expanded := [],
      frontier := anchors.dedup.insertionSort (· ≤ ·) }

/-- The reached object as a dependent, if it has a record. -/
def dependent_of (direction : ImpactDirection) (anchors : List String) (hops : Nat)
    (reached : Reached) (records : List (String × Option PlsqlObjectRecord))
    (entry : String × Nat) : Except Raised (Option Dependent) :=
  match records.lookup entry.1 with
  | some (some record) => do
    let trails := (routes_from direction anchors reached.parents hops entry.1).take
      MAX_IMPACT_ROUTES_PER_DEPENDENT
    let routes ← trails.mapM fun trail => trail.mapM (edge_of reached.edge_by_id)
    .ok (some { record, distance := entry.2, routes })
  | _ => .ok none

/-- `_compute_impact`. -/
def compute_impact (changed : PlsqlObjectRecord) (hops : Nat) (direction : ImpactDirection)
    (relationships : List PlsqlRelationship) : Reads Impact := do
  let anchors ← impact_anchors client db changed
  let reached ← impact_search client db anchors hops direction relationships
  let others := reached.distance.filter (·.1 ≠ changed.qualified_name)
  let records ← objects_by_qualified_name client db (others.map (·.1))
  let dependents ← others.mapM fun entry =>
    (dependent_of direction anchors hops reached records entry : Except Raised _)
  pure (impact_result env client (dependents.filterMap id))

/-- The two readings of the monotonic clock around a traversal. -/
structure Moment where
  asked : Nat
  finished : Nat

/-- `_impact_traversal`: a finished result is kept for a while, and the least
recently used one leaves when there are too many. -/
def impact_traversal (moment : Moment) (changed : PlsqlObjectRecord) (hops : Nat)
    (direction : ImpactDirection) (relationships : List PlsqlRelationship) : Reads Impact := do
  if client.impact_cache_ttl = 0 then
    compute_impact env client db changed hops direction relationships
  else
    let key : ImpactKey :=
      { changed_id := changed.id, bounded_hops := hops, direction, relationships }
    let cache := (← get).impact_cache
    let others := cache.filter fun entry => !entry.key.same key
    match cache.find? (·.key.same key) with
    | some entry =>
      if moment.asked < entry.expires_at then
        modify fun state => { state with impact_cache := others ++ [entry] }
        return entry.result
    | none => pure ()
    modify fun state => { state with impact_cache := others }
    let result ← compute_impact env client db changed hops direction relationships
    let entry : ImpactCacheEntry :=
      { key, expires_at := moment.finished + client.impact_cache_ttl, result }
    modify fun state =>
      let kept := (state.impact_cache.filter fun e => !e.key.same key) ++ [entry]
      { state with impact_cache := kept.drop (kept.length - client.impact_cache_max) }
    return result

structure PlsqlImpactPage where
  items : List PlsqlImpactItemRecord
  truncated : Bool
  total : Nat
  summary : PlsqlImpactSummaryRecord

/-- `impact_of`; no relationships stand for the path relationships. -/
def impact_of (moment : Moment) (object_id : String) (max_hops limit : Int)
    (direction : ImpactDirection) (relationships : Option (List PlsqlRelationship))
    (offset : Int) : Reads PlsqlImpactPage := do
  let changed ← Reads.require_object client db object_id
  let hops := bounded_hops client.toNeo4jPlsqlAnalysisClient max_hops
  let bounded := bounded_limit client.toNeo4jPlsqlAnalysisClient limit
  let bounded_offset := (max 0 offset).toNat
  let impact ← impact_traversal env client db moment changed hops direction
    (relationships.getD PATH_RELATIONSHIPS)
  let items := impact.items
  pure
    { items := (items.drop bounded_offset).take bounded,
      truncated := bounded_offset + bounded < items.length, total := items.length,
      summary := impact.summary }

structure PlsqlOverviewRecord where
  object : PlsqlObjectRecord
  direct_dependents : Nat
  indirect_dependents : Nat
  callers : Nat
  callees : Nat
  tables_accessed : Nat
  top_callers : List PlsqlObjectRecord
  deriving DecidableEq, Repr

/-- `anchor_edges`: the edges at the anchors, within the traversal bound. -/
def anchor_edges (direction : ImpactDirection) (relationships : List PlsqlRelationship)
    (anchors : List String) : Except Raised (List PlsqlDependencyRecord) :=
  let rows := fetch_edges client db direction relationships anchors
    (client.max_traversal_edges + 1)
  if client.max_traversal_edges < rows.length then .error overview_bound_exceeded
  else dependencies_from_rows client.project_id (client.file_map db) rows

/-- `names[:limit]`. -/
def slice_to (names : List String) (limit : Int) : List String :=
  if 0 ≤ limit then names.take limit.toNat else names.take (names.length - (-limit).toNat)

def overview_of (moment : Moment) (object_id : String) (max_hops limit : Int) :
    Reads PlsqlOverviewRecord := do
  let record ← Reads.require_object client db object_id
  let anchors ← impact_anchors client db record
  let access ← table_access_of client db object_id client.max_rows
  let impact ← impact_of env client db moment object_id max_hops client.max_rows .upstream none 0
  let incoming ← anchor_edges client db .upstream PATH_RELATIONSHIPS anchors
  let callers ← anchor_edges client db .upstream [.CALLS] anchors
  let callees ← anchor_edges client db .downstream [.CALLS] anchors
  let caller_ids := (callers.map (·.source_id)).eraseDups
  let callee_ids := (callees.map (·.target_id)).eraseDups
  let top_callers ← (slice_to caller_ids limit).mapM (Reads.get_object client db)
  pure
    { object := record,
      direct_dependents := (incoming.map (·.source_id)).dedup.length,
      indirect_dependents := impact.total - incoming.length,
      callers := caller_ids.length, callees := callee_ids.length,
      tables_accessed := ((access.items.filter fun edge =>
        edge.target_kind ∈ TABLE_OR_VIEW).map (·.target_id)).dedup.length,
      top_callers := top_callers.filterMap id }

end

/-- The read operations of the adapter with their arguments. -/
inductive Request
  | search_objects (query : String) (kinds : List ObjectKind) (limit : Int)
  | get_object (object_id : String)
  | callers_of (object_id : String) (limit : Int)
  | callees_of (object_id : String) (limit : Int)
  | table_access_of (object_id : String) (limit : Int)
  | unresolved_references (limit : Int)
  | relationship_evidence (relationship_id : String)
  | object_source (object_id : String)
  | file_source (file_id : String) (start_line end_line : Option Int)
  | find_paths (from_id to_id : String) (max_hops limit offset : Int)
  | impact_of (object_id : String) (max_hops limit : Int) (direction : ImpactDirection)
      (relationships : Option (List PlsqlRelationship)) (offset : Int)
  | health (object_id : Option String) (limit : Int)
  | dependencies_of (object_id : String) (category : PlsqlDependencyCategory) (limit : Int)
  | overview_of (object_id : String) (max_hops limit : Int)

inductive Response
  | objects (page : PlsqlSearchPage)
  | object (record : Option PlsqlObjectRecord)
  | dependencies (page : PlsqlDependencyPage)
  | dependency (record : Option PlsqlDependencyRecord)
  | source (record : Option PlsqlSourceRecord)
  | paths (page : PlsqlPathPage)
  | impact (page : PlsqlImpactPage)
  | health (record : PlsqlHealthRecord)
  | summary (record : PlsqlDependencySummaryRecord)
  | overview (record : PlsqlOverviewRecord)

variable (env : Environment) (client : AnalysisClient) (db : AnalysisGraph)

/-- `find_paths` on the client's cache. -/
def Reads.find_paths (from_id to_id : String) (max_hops limit offset : Int) :
    Reads PlsqlPathPage := do
  let before := (← get).object_cache
  let _ ← Reads.require_object client db from_id
  let _ ← Reads.require_object client db to_id
  plsql.find_paths env.sha1 client.toNeo4jPlsqlAnalysisClient db.toGraphDb before from_id to_id
    max_hops limit offset

/-- One request to the adapter. -/
def serve (moment : Moment) : Request → Reads Response
  | .search_objects query kinds limit =>
    return .objects (← search_objects client db env query kinds limit)
  | .get_object object_id => return .object (← Reads.get_object client db object_id)
  | .callers_of object_id limit => return .dependencies (← callers_of client db object_id limit)
  | .callees_of object_id limit => return .dependencies (← callees_of client db object_id limit)
  | .table_access_of object_id limit =>
    return .dependencies (← table_access_of client db object_id limit)
  | .unresolved_references limit => return .dependencies (← unresolved_references client db limit)
  | .relationship_evidence relationship_id =>
    return .dependency (← relationship_evidence client db relationship_id)
  | .object_source object_id => return .source (← object_source client db env object_id)
  | .file_source file_id start_line end_line =>
    return .source (← file_source client db env file_id start_line end_line)
  | .find_paths from_id to_id max_hops limit offset =>
    return .paths (← Reads.find_paths env client db from_id to_id max_hops limit offset)
  | .impact_of object_id max_hops limit direction relationships offset =>
    return .impact
      (← impact_of env client db moment object_id max_hops limit direction relationships offset)
  | .health object_id limit => return .health (← health client db object_id limit)
  | .dependencies_of object_id category limit =>
    return .summary (← dependencies_of client db object_id category limit)
  | .overview_of object_id max_hops limit =>
    return .overview (← overview_of env client db moment object_id max_hops limit)

/-- The answers of one client to a sequence of requests. -/
def answers : ClientState → List (Moment × Request) → List (Except Raised Response)
  | _, [] => []
  | state, (moment, request) :: requests =>
    let (answer, state) := (serve env client db moment request).run.run state
    answer :: answers state requests

end lagraph.plsql
