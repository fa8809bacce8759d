import LaGraph.Plsql.Catalog.Queries
import LaGraph.Plsql.FindPaths
import LaGraph.Plsql.Source

open foundation

namespace lagraph.plsql

/-- The adapter with the settings its other reads use. -/
structure AnalysisClient extends Neo4jPlsqlAnalysisClient where
  source_root : Option String
  max_source_bytes : Nat
  impact_cache_ttl : Nat
  impact_cache_max : Nat
  max_source_bytes_pos : 0 < max_source_bytes
  impact_cache_max_pos : 0 < impact_cache_max

/-- The default limits are positive. -/
theorem default_source_bytes_pos : 0 < 262144 := by omega

theorem default_cache_entries_pos : 0 < 16 := by omega

/-- What the adapter takes from outside: the file system, decoding in the
configured encoding, and the library's case folding, stripping and SHA-1. -/
structure Environment where
  files : FileSystem
  decode : List UInt8 → String
  casefold : String → String
  strip : String → String
  sha1 : String → String

inductive ImpactDirection
  | upstream
  | downstream
  deriving DecidableEq, Repr

structure PlsqlImpactItemRecord where
  id : String
  dependent : PlsqlObjectRecord
  distance : Nat
  paths : List PlsqlPathRecord

structure PlsqlImpactSummaryRecord where
  direct : Nat
  indirect : Nat
  packages : Nat
  tables_modified : Nat
  deriving DecidableEq, Repr

/-- The full impact result of one changed object. -/
structure Impact where
  items : List PlsqlImpactItemRecord
  summary : PlsqlImpactSummaryRecord

structure ImpactKey where
  changed_id : String
  bounded_hops : Nat
  direction : ImpactDirection
  relationships : List PlsqlRelationship
  deriving DecidableEq, Repr

/-- Two keys name the same traversal; relationships are a set. -/
def ImpactKey.same (a b : ImpactKey) : Bool :=
  a.changed_id = b.changed_id ∧ a.bounded_hops = b.bounded_hops ∧ a.direction = b.direction ∧
    a.relationships ⊆ b.relationships ∧ b.relationships ⊆ a.relationships

structure ImpactCacheEntry where
  key : ImpactKey
  expires_at : Nat
  result : Impact

/-- What one client keeps between requests, the impact results with the least
recently used first. -/
structure ClientState where
  object_cache : ObjectCache
  impact_cache : List ImpactCacheEntry

/-- A fresh client. -/
def ClientState.init : ClientState where
  object_cache := []
  impact_cache := []

/-- A read operation: what it returns or raises, and the caches after it. -/
abbrev Reads := ExceptT Raised (StateM ClientState)

variable (client : AnalysisClient) (db : AnalysisGraph)

/-- `get_object` on the client's cache. -/
def Reads.get_object (object_id : String) : Reads (Option PlsqlObjectRecord) := do
  let state ← get
  match plsql.get_object client.toNeo4jPlsqlAnalysisClient db.toGraphDb state.object_cache
      object_id with
  | .ok (record, cache) => do
    set { state with object_cache := cache }
    pure record
  | .error raised => throw raised

/-- `_require_object`. -/
def Reads.require_object (object_id : String) : Reads PlsqlObjectRecord := do
  match ← Reads.get_object client db object_id with
  | some record => pure record
  | none =>
    throw (.gateway (.PlsqlObjectNotFound "The requested PL/SQL object was not found."))

/-- `_file_map`. -/
def AnalysisClient.file_map : List (String × String) :=
  plsql.file_map db.toGraphDb client.project_id

/-- `_OBJECT_LOOKUP_CHUNK`. -/
def OBJECT_LOOKUP_CHUNK : Nat := 500

/-- The consecutive pieces of at most `size` elements. -/
def chunks (size : Nat) (names : List String) : List (List String) :=
  (List.range ((names.length + size - 1) / size)).map fun i => (names.drop (size * i)).take size

/-- The first record of each qualified name among the mapped rows. -/
def records_found (project_id : String) (file_paths : List (String × String))
    (rows : List DatabaseObject) : Except Raised (List (String × PlsqlObjectRecord)) := do
  let records ← rows.mapM fun node => object_from_node project_id node file_paths
  .ok (records.filterMap fun record => record.map fun record => (record.qualified_name, record))

/-- One chunk of names looked up and cached. -/
def lookup_chunk (names : List String) :
    Reads (List (String × Option PlsqlObjectRecord)) := do
  let rows := OBJECTS_BY_QUALIFIED_NAMES db.toGraphDb client.project_id names
  let found ← records_found client.project_id (client.file_map db) rows
  let resolved := names.map fun name => (name, found.lookup name)
  modify fun state =>
    { state with
      object_cache := resolved.foldl (fun cache entry =>
        (object_id client.project_id entry.1, entry.2) :: cache) state.object_cache }
  pure resolved

/-- `_objects_by_qualified_name`: names in the cache cost no query, the others
are looked up in chunks. -/
def objects_by_qualified_name (qualified_names : List String) :
    Reads (List (String × Option PlsqlObjectRecord)) := do
  let cache := (← get).object_cache
  let cached (name : String) := cache.lookup (object_id client.project_id name)
  let names := qualified_names.eraseDups
  let resolved := names.filterMap fun name => (cached name).map fun record => (name, record)
  let missing := names.filter fun name => (cached name).isNone
  let looked_up ← (chunks OBJECT_LOOKUP_CHUNK missing).mapM (lookup_chunk client db)
  pure (resolved ++ looked_up.flatten)

structure PlsqlSearchPage where
  items : List PlsqlObjectRecord
  truncated : Bool
  total : Nat
  deriving DecidableEq, Repr

/-- `search_objects`; `kinds` is empty where the caller gives none. -/
def search_objects (env : Environment) (query : String) (kinds : List ObjectKind)
    (limit : Int) : Except Raised PlsqlSearchPage := do
  let bounded := bounded_limit client.toNeo4jPlsqlAnalysisClient limit
  let needle := env.strip (env.casefold query)
  let labels := kinds.map (·.label)
  let rows := SEARCH_OBJECTS db.toGraphDb client.project_id needle labels (bounded + 1)
  let total := COUNT_SEARCH_OBJECTS db.toGraphDb client.project_id needle labels
  let records ← (rows.take bounded).mapM fun node =>
    object_from_node client.project_id node (client.file_map db)
  .ok { items := records.filterMap id, truncated := bounded < total, total }

/-- `object_source`: the declaring file of an object. -/
def object_source (env : Environment) (object_id : String) : Reads (Option PlsqlSourceRecord) := do
  let record ← Reads.require_object client db object_id
  match OBJECT_DECLARATION db client.project_id record.qualified_name with
  | [] => pure none
  | row :: _ =>
    match row.path with
    | none => pure none
    | some path =>
      if path = "" then pure none
      else
        some <$> (load_source env.files env.decode client.source_root client.max_source_bytes
          row.fileId path (int_or_none row.startLine) none : Except Raised PlsqlSourceRecord)

/-- `file_source`. -/
def file_source (env : Environment) (file_id : String) (start_line end_line : Option Int) :
    Except Raised (Option PlsqlSourceRecord) := do
  match ← resolve_path_sync (some file_id) (client.file_map db) with
  | none => .ok none
  | some path =>
    some <$> load_source env.files env.decode client.source_root client.max_source_bytes
      file_id path start_line end_line

end lagraph.plsql
