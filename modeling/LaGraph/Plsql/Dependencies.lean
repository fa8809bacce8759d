import LaGraph.Plsql.Client
import LaGraph.Plsql.Identifiers

open foundation

namespace lagraph.plsql

section

structure PlsqlDependencyPage where
  items : List PlsqlDependencyRecord
  truncated : Bool
  total : Nat
  deriving DecidableEq, Repr

/-- The rows that map onto dependency records. -/
def dependencies_from_rows (project_id : String) (file_paths : List (String × String))
    (rows : List Relationship) : Except Raised (List PlsqlDependencyRecord) := do
  let mapped ← rows.mapM fun row => dependency_from_row project_id row file_paths
  .ok (mapped.filterMap id)

/-- The names of all resolutions. -/
def all_resolutions : List String :=
  RESOLUTIONS.map (·.name)

/-- The labels of `_TABLE_OR_VIEW`. -/
def TABLE_OR_VIEW : List ObjectKind :=
  [.Table, .View]

/-- `TABLE_ACCESS_RELATIONSHIPS | {"CALLS"}`. -/
def CALLS_AND_TABLE_ACCESS : List PlsqlRelationship :=
  TABLE_ACCESS_RELATIONSHIPS ++ [.CALLS]

/-- `_edge_parts`; `none` when the identifier is foreign. -/
def edge_parts (edge_id : String) : Option (String × String × String) :=
  match text.afterLast "/e/".toList edge_id.toList with
  | none => none
  | some encoded =>
    match b64d (String.ofList encoded) with
    | none => none
    | some payload =>
      match text.segments '\x1f' payload with
      | [relationship, source, target] => some (relationship, source, target)
      | _ => none

variable (client : AnalysisClient) (db : AnalysisGraph)

/-- `_dependency_page`: a select template of `bounded + 1` rows and its count. -/
def dependency_page (query : Nat → List Relationship) (count : Nat) (limit : Int) :
    Except Raised PlsqlDependencyPage := do
  let bounded := bounded_limit client.toNeo4jPlsqlAnalysisClient limit
  let items ← dependencies_from_rows client.project_id (client.file_map db) (query (bounded + 1))
  .ok { items := items.take bounded, truncated := bounded < items.length, total := count }

def callers_of (object_id : String) (limit : Int) : Reads PlsqlDependencyPage := do
  let record ← Reads.require_object client db object_id
  dependency_page client db
    (EDGE_CALLERS db.toGraphDb client.project_id record.qualified_name all_resolutions)
    (COUNT_EDGE_CALLERS db.toGraphDb client.project_id record.qualified_name all_resolutions) limit

def callees_of (object_id : String) (limit : Int) : Reads PlsqlDependencyPage := do
  let record ← Reads.require_object client db object_id
  dependency_page client db
    (EDGE_CALLEES db.toGraphDb client.project_id record.qualified_name all_resolutions)
    (COUNT_EDGE_CALLEES db.toGraphDb client.project_id record.qualified_name all_resolutions) limit

def table_access_of (object_id : String) (limit : Int) : Reads PlsqlDependencyPage := do
  let record ← Reads.require_object client db object_id
  let name := record.qualified_name
  let relationships := TABLE_ACCESS_RELATIONSHIPS.map (·.name)
  let kinds := TABLE_OR_VIEW.map (·.label)
  dependency_page client db
    (EDGE_TABLE_ACCESS db.toGraphDb client.project_id name (name ++ ".") relationships kinds
      all_resolutions)
    (COUNT_EDGE_TABLE_ACCESS db.toGraphDb client.project_id name (name ++ ".") relationships kinds
      all_resolutions) limit

def unresolved_references (limit : Int) : Except Raised PlsqlDependencyPage :=
  let relationships := CALLS_AND_TABLE_ACCESS.map (·.name)
  let unresolved := UNRESOLVED_RESOLUTIONS.map (·.name)
  dependency_page client db
    (EDGE_UNRESOLVED db.toGraphDb client.project_id relationships unresolved all_resolutions)
    (COUNT_EDGE_UNRESOLVED db.toGraphDb client.project_id relationships unresolved all_resolutions)
    limit

/-- The first row that maps. -/
def first_dependency (project_id : String) (file_paths : List (String × String)) :
    List Relationship → Except Raised (Option PlsqlDependencyRecord)
  | [] => .ok none
  | row :: rows => do
    match ← dependency_from_row project_id row file_paths with
    | some edge => .ok (some edge)
    | none => first_dependency project_id file_paths rows

def relationship_evidence (relationship_id : String) :
    Except Raised (Option PlsqlDependencyRecord) :=
  match edge_parts relationship_id with
  | none => .ok none
  | some (relationship, source, target) =>
    if relationship ∉ TRIGGER_AWARE_RELATIONSHIPS.map (·.name) then .ok none
    else
      first_dependency client.project_id (client.file_map db)
        (EDGE_BY_TRIPLE db.toGraphDb client.project_id relationship source target)

structure PlsqlHealthCategoryRecord where
  count : Nat
  items : List PlsqlDependencyRecord
  deriving DecidableEq, Repr

structure PlsqlHealthRecord where
  total : Nat
  unresolved : PlsqlHealthCategoryRecord
  ambiguous : PlsqlHealthCategoryRecord
  dynamic_sql : PlsqlHealthCategoryRecord
  parse_errors : PlsqlHealthCategoryRecord
  unsupported : PlsqlHealthCategoryRecord
  truncated : Bool
  deriving DecidableEq, Repr

/-- Whether an edge starts at the scope object or, for a package, at a member. -/
def in_scope (scope : Option PlsqlObjectRecord) (edge : PlsqlDependencyRecord) : Bool :=
  match scope with
  | none => true
  | some record =>
    edge.source_qualified_name = record.qualified_name ∨
      record.kind = .Package ∧
        text.startsWith edge.source_qualified_name (record.qualified_name ++ ".")

/-- `category`: the count and the first `bounded` edges. -/
def health_category (bounded : Nat) (edges : List PlsqlDependencyRecord) :
    PlsqlHealthCategoryRecord where
  count := edges.length
  items := edges.take bounded

/-- The report over one page of uncertain references. -/
def health_report (scope : Option PlsqlObjectRecord) (edges : List PlsqlDependencyRecord)
    (bounded : Nat) : PlsqlHealthRecord :=
  let of (resolution : PlsqlResolution) :=
    edges.filter fun edge => edge.resolution = resolution ∧ in_scope scope edge
  let empty := health_category bounded []
  { total := (of .UNRESOLVED).length + (of .AMBIGUOUS).length,
    unresolved := health_category bounded (of .UNRESOLVED),
    ambiguous := health_category bounded (of .AMBIGUOUS),
    dynamic_sql := empty, parse_errors := empty, unsupported := empty,
    truncated := bounded < (of .UNRESOLVED).length ∨ bounded < (of .AMBIGUOUS).length }

def health (object_id : Option String) (limit : Int) : Reads PlsqlHealthRecord := do
  let scope ← match object_id with
    | some object_id => some <$> Reads.require_object client db object_id
    | none => pure none
  let edges ← unresolved_references client db client.max_rows
  pure (health_report scope edges.items
    (bounded_limit client.toNeo4jPlsqlAnalysisClient limit))

inductive PlsqlDependencyCategory
  | callers
  | callees
  | reads
  | writes
  | other
  deriving DecidableEq, Repr

structure PlsqlDependencySummaryRecord where
  counts : PlsqlDependencyCategory → Nat
  items : List PlsqlDependencyRecord
  truncated : Bool
  total : Nat

/-- The edges of one category among the three pages. -/
def bucket (callers callees access : List PlsqlDependencyRecord) :
    PlsqlDependencyCategory → List PlsqlDependencyRecord
  | .callers => callers
  | .callees => callees
  | .reads => access.filter (·.relationship = .READS)
  | .writes => access.filter (·.relationship = .WRITES)
  | .other => access.filter fun edge => edge.relationship ≠ .READS ∧ edge.relationship ≠ .WRITES

def dependencies_of (object_id : String) (category : PlsqlDependencyCategory) (limit : Int) :
    Reads PlsqlDependencySummaryRecord := do
  let _ ← Reads.require_object client db object_id
  let callers ← callers_of client db object_id client.max_rows
  let callees ← callees_of client db object_id client.max_rows
  let access ← table_access_of client db object_id client.max_rows
  let buckets := bucket callers.items callees.items access.items
  let bounded := bounded_limit client.toNeo4jPlsqlAnalysisClient limit
  let counts
    | .callers => callers.total
    | .callees => callees.total
    | category => (buckets category).length
  pure
    { counts, items := (buckets category).take bounded,
      truncated := bounded < (buckets category).length, total := (buckets category).length }

end

variable {relationship source target : String}

/-- The payload of an edge splits into its three parts. -/
theorem segments_payload (hrelationship : '\x1f' ∉ relationship.toList)
    (hsource : '\x1f' ∉ source.toList) (htarget : '\x1f' ∉ target.toList) :
    text.segments '\x1f' (unit_separator.intercalate [relationship, source, target]) =
      [relationship, source, target] := by
  have hpayload : (unit_separator.intercalate [relationship, source, target]).toList =
      ['\x1f'].intercalate [relationship.toList, source.toList, target.toList] := by
    rw [String.toList_intercalate]
    rfl
  have hfree : ∀ part ∈ [relationship.toList, source.toList, target.toList], '\x1f' ∉ part := by
    intro part hpart
    simp only [List.mem_cons, List.not_mem_nil, or_false] at hpart
    rcases hpart with rfl | rfl | rfl <;> assumption
  rw [text.segments, hpayload, List.splitOn_intercalate '\x1f' hfree (List.cons_ne_nil _ _)]
  simp only [List.map_cons, List.map_nil, String.ofList_toList]

/-- An edge identifier names the parts it was made of. -/
theorem edge_parts_edge_id (project_id : String) (hrelationship : '\x1f' ∉ relationship.toList)
    (hsource : '\x1f' ∉ source.toList) (htarget : '\x1f' ∉ target.toList) :
    edge_parts (edge_id project_id relationship source target) =
      some (relationship, source, target) := by
  have hlast : text.afterLast "/e/".toList (edge_id project_id relationship source target).toList =
      some (b64e (unit_separator.intercalate [relationship, source, target])).toList :=
    encoded_after_marker (by decide) ("edge://" ++ project_id) _
  rw [edge_parts, hlast]
  simp only [String.ofList_toList, b64d_b64e, segments_payload hrelationship hsource htarget]

/-- Decoding undoes encoding, so that identifiers tell names and edges apart. -/
theorem identifiers_decode (project_id relationship source target qualified_name : String)
    (hrelationship : '\x1f' ∉ relationship.toList) (hsource : '\x1f' ∉ source.toList)
    (htarget : '\x1f' ∉ target.toList) :
    qualified_name_from_object_id (object_id project_id qualified_name) = some qualified_name ∧
      edge_parts (edge_id project_id relationship source target) =
        some (relationship, source, target) ∧
      (∀ project_id' name, object_id project_id qualified_name = object_id project_id' name →
        qualified_name = name) ∧
      ∀ project_id' relationship' source' target', '\x1f' ∉ relationship'.toList →
        '\x1f' ∉ source'.toList → '\x1f' ∉ target'.toList →
        edge_id project_id relationship source target =
          edge_id project_id' relationship' source' target' →
        (relationship, source, target) = (relationship', source', target') := by
  have hedge := edge_parts_edge_id project_id hrelationship hsource htarget
  refine ⟨qualified_name_of_object_id project_id qualified_name, hedge, ?_, ?_⟩
  · intro project_id' name hsame
    have hname := qualified_name_of_object_id project_id' name
    rw [← hsame, qualified_name_of_object_id] at hname
    exact Option.some.inj hname
  · intro project_id' relationship' source' target' hrelationship' hsource' htarget' hsame
    have hedge' := edge_parts_edge_id project_id' hrelationship' hsource' htarget'
    rw [← hsame, hedge] at hedge'
    exact Option.some.inj hedge'

/-- A project may carry the markers of both identifiers. -/
theorem identifiers_decode_marked :
    edge_parts (edge_id "a/e/b/o/c" "CALLS" "HR.PAY" "HR.TAX") =
      some ("CALLS", "HR.PAY", "HR.TAX") :=
  (identifiers_decode "a/e/b/o/c" "CALLS" "HR.PAY" "HR.TAX" "HR.PAY" (by decide) (by decide)
    (by decide)).2.1

end lagraph.plsql
