import Mathlib.Data.List.Lattice
import LaGraph.Plsql.Rows

open foundation

namespace lagraph.plsql

/-- The settings of the adapter that path search reads. Its constructor raises
every bound to at least one. -/
structure Neo4jPlsqlAnalysisClient where
  project_id : String
  max_rows : Nat
  max_hops : Nat
  max_traversal_edges : Nat
  max_rows_pos : 0 < max_rows
  max_hops_pos : 0 < max_hops
  max_traversal_edges_pos : 0 < max_traversal_edges

/-- `__init__`: each bound is `max(1, value)`. -/
def Neo4jPlsqlAnalysisClient.init (project_id : String) (max_rows max_hops max_traversal_edges : Int) :
    Neo4jPlsqlAnalysisClient where
  project_id
  max_rows := (max 1 max_rows).toNat
  max_hops := (max 1 max_hops).toNat
  max_traversal_edges := (max 1 max_traversal_edges).toNat
  max_rows_pos := by omega
  max_hops_pos := by omega
  max_traversal_edges_pos := by omega

/-- Records looked up so far, by object id; unknown ids are kept as `none`. -/
abbrev ObjectCache := List (String × Option PlsqlObjectRecord)

/-- `get_object` with the cache after it. -/
def get_object (client : Neo4jPlsqlAnalysisClient) (db : GraphDb) (cache : ObjectCache)
    (object_id : String) : Except Raised (Option PlsqlObjectRecord × ObjectCache) :=
  match cache.lookup object_id with
  | some record => .ok (record, cache)
  | none =>
    match qualified_name_from_object_id object_id with
    | none => .ok (none, (object_id, none) :: cache)
    | some qualified_name =>
      match OBJECT_BY_QUALIFIED_NAME db client.project_id qualified_name with
      | [] => .ok (none, (object_id, none) :: cache)
      | node :: _ => do
        let record ← object_from_node client.project_id node (file_map db client.project_id)
        .ok (record, (object_id, record) :: cache)

def require_object (client : Neo4jPlsqlAnalysisClient) (db : GraphDb) (cache : ObjectCache)
    (object_id : String) : Except Raised (PlsqlObjectRecord × ObjectCache) := do
  match ← get_object client db cache object_id with
  | (some record, cache) => .ok (record, cache)
  | (none, _) =>
    .error (.gateway (.PlsqlObjectNotFound "The requested PL/SQL object was not found."))

structure PlsqlPathRecord where
  id : String
  steps : List PlsqlDependencyRecord
  hop_count : Nat

structure PlsqlPathPage where
  items : List PlsqlPathRecord
  truncated : Bool
  total : Nat

/-- One partial route of the frontier: the node it ends in, its edge ids and
the nodes it has visited. -/
structure Route where
  current : String
  trail : List String
  visited : List String

/-- What one search carries from round to round. `edge_by_id` is in insertion
order and `discovered` is a set of trails. -/
structure Search where
  edge_by_id : List PlsqlDependencyRecord
  discovered : List (List String)
  frontier : List Route

def traversal_bound_exceeded : Raised :=
  .gateway (.PlsqlLimitExceeded
    "The dependency path search exceeded the gateway traversal bound.")

/-- Rows whose edge id is new enter the table and the round's own edges; the
pair is the table and those edges, both in row order. -/
def absorb (project_id : String) (file_paths : List (String × String)) :
    List PlsqlDependencyRecord → List Relationship →
      Except Raised (List PlsqlDependencyRecord × List PlsqlDependencyRecord)
  | edge_by_id, [] => .ok (edge_by_id, [])
  | edge_by_id, row :: rows => do
    match ← dependency_from_row project_id row file_paths with
    | none => absorb project_id file_paths edge_by_id rows
    | some edge =>
      if edge.id ∈ edge_by_id.map (·.id) then absorb project_id file_paths edge_by_id rows
      else do
        let (table, fresh) ← absorb project_id file_paths (edge_by_id ++ [edge]) rows
        .ok (table, edge :: fresh)

/-- The round's edges out of `current`, by edge id. -/
def outgoing (fresh : List PlsqlDependencyRecord) (current : String) :
    List PlsqlDependencyRecord :=
  (fresh.filter (·.source_qualified_name = current)).insertionSort fun a b => a.id ≤ b.id

/-- The edges that extend `route` to a node it has not visited. -/
def extensions (fresh : List PlsqlDependencyRecord) (route : Route) :
    List PlsqlDependencyRecord :=
  (outgoing fresh route.current).filter (·.target_qualified_name ∉ route.visited)

/-- Trails of the round that end at the target; it is never expanded. -/
def arrivals (target : String) (fresh : List PlsqlDependencyRecord) (route : Route) :
    List (List String) :=
  ((extensions fresh route).filter (·.target_qualified_name = target)).map
    fun edge => route.trail ++ [edge.id]

/-- The routes the next round starts from. -/
def onward (target : String) (fresh : List PlsqlDependencyRecord) (route : Route) : List Route :=
  ((extensions fresh route).filter (·.target_qualified_name ≠ target)).map fun edge =>
    { current := edge.target_qualified_name, trail := route.trail ++ [edge.id],
      visited := edge.target_qualified_name :: route.visited }

/-- One round of the search from a frontier with the given sources. -/
def expand (client : Neo4jPlsqlAnalysisClient) (db : GraphDb) (target : String)
    (sources : List String) (search : Search) : Except Raised Search :=
  let remaining : Int := client.max_traversal_edges - search.edge_by_id.length
  if remaining ≤ 0 then .error traversal_bound_exceeded
  else
    let rows := EDGE_OUTGOING db client.project_id (PATH_RELATIONSHIPS.map (·.name)) sources
      (remaining + 1).toNat
    if remaining < rows.length then .error traversal_bound_exceeded
    else do
      let (table, fresh) ← absorb client.project_id (file_map db client.project_id)
        search.edge_by_id rows
      .ok { edge_by_id := table,
            discovered := search.frontier.flatMap (arrivals target fresh) ∪ search.discovered,
            frontier := search.frontier.flatMap (onward target fresh) }

/-- The sources of a round: `sorted({current for current, _, _ in frontier})`. -/
def frontier_sources (frontier : List Route) : List String :=
  (frontier.map (·.current)).dedup.insertionSort (· ≤ ·)

/-- The rounds of the search; an empty frontier ends it. -/
def search_rounds (client : Neo4jPlsqlAnalysisClient) (db : GraphDb) (target : String) :
    Nat → Search → Except Raised Search
  | 0, search => .ok search
  | rounds + 1, search =>
    let sources := frontier_sources search.frontier
    if sources = [] then .ok search
    else do
      let next ← expand client db target sources search
      search_rounds client db target rounds next

/-- `edge_by_id[eid]`. -/
def edge_of (edge_by_id : List PlsqlDependencyRecord) (eid : String) :
    Except Raised PlsqlDependencyRecord :=
  match edge_by_id.find? (·.id = eid) with
  | some edge => .ok edge
  | none => .error (.key_error eid)

/-- The order of the result: hops, then the qualified names on the way, then the
edge ids. -/
def path_order (a b : List PlsqlDependencyRecord) : Prop :=
  let names (steps : List PlsqlDependencyRecord) := steps.map (·.target_qualified_name)
  let trail (steps : List PlsqlDependencyRecord) := steps.map (·.id)
  a.length < b.length ∨ a.length = b.length ∧
    (names a < names b ∨ names a = names b ∧ trail a ≤ trail b)

instance : DecidableRel path_order := by
  intro a b
  unfold path_order
  infer_instance

/-- `max(1, min(max_hops, self._max_hops))`. -/
def bounded_hops (client : Neo4jPlsqlAnalysisClient) (max_hops : Int) : Nat :=
  (max 1 (min max_hops client.max_hops)).toNat

/-- `max(1, min(limit, self._max_rows))`. -/
def bounded_limit (client : Neo4jPlsqlAnalysisClient) (limit : Int) : Nat :=
  (max 1 (min limit client.max_rows)).toNat

/-- The frontier and tables before the first round. -/
def search_start (source : String) : Search :=
  { edge_by_id := [], discovered := [],
    frontier := [{ current := source, trail := [], visited := [source] }] }

/-- All paths between two qualified names, in the order of the result. -/
def all_paths (client : Neo4jPlsqlAnalysisClient) (db : GraphDb) (source target : String)
    (hops : Nat) : Except Raised (List (List PlsqlDependencyRecord)) := do
  let search ← search_rounds client db target hops (search_start source)
  let paths ← search.discovered.mapM fun trail => trail.mapM (edge_of search.edge_by_id)
  .ok (paths.insertionSort path_order)

/-- A path as a record. The digest of a trail's path id is the library's SHA-1. -/
def path_record (sha1 : String → String) (client : Neo4jPlsqlAnalysisClient)
    (steps : List PlsqlDependencyRecord) : PlsqlPathRecord where
  id := "path://" ++ client.project_id ++ "/" ++
    String.ofList ((sha1 (unit_separator.intercalate (steps.map (·.id)))).toList.take 16)
  steps := steps
  hop_count := steps.length

/-- The page of `records` at an offset. -/
def path_page (client : Neo4jPlsqlAnalysisClient) (records : List PlsqlPathRecord)
    (limit offset : Int) : PlsqlPathPage :=
  let bounded := bounded_limit client limit
  let bounded_offset := (max 0 offset).toNat
  { items := (records.drop bounded_offset).take bounded,
    truncated := bounded_offset + bounded < records.length, total := records.length }

def find_paths (sha1 : String → String) (client : Neo4jPlsqlAnalysisClient) (db : GraphDb)
    (cache : ObjectCache) (from_id to_id : String) (max_hops limit offset : Int) :
    Except Raised PlsqlPathPage := do
  let (source, cache) ← require_object client db cache from_id
  let (target, _) ← require_object client db cache to_id
  if source.qualified_name = target.qualified_name then
    .ok { items := [], truncated := false, total := 0 }
  else do
    let ordered ← all_paths client db source.qualified_name target.qualified_name
      (bounded_hops client max_hops)
    .ok (path_page client (ordered.map (path_record sha1 client)) limit offset)

end lagraph.plsql
