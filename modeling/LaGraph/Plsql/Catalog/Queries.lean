import Mathlib.Data.List.Infix
import LaGraph.Plsql.Catalog

open foundation

namespace lagraph.plsql

def ObjectKind.all : List ObjectKind :=
  [.Table, .View, .Package, .Sequence, .Trigger, .Index, .Synonym, .Type, .Procedure, .Function,
   .AnonymousBlock]

/-- `KIND_LABELS`. -/
def KIND_LABELS : List String :=
  ObjectKind.all.map (·.label)

def SEARCH_EXCLUDED_LABELS : List String :=
  ["Synonym"]

def TABLE_ACCESS_RELATIONSHIPS : List PlsqlRelationship :=
  [.READS, .WRITES, .TRIGGER_ON, .VIEW_DEPENDS_ON, .FOREIGN_KEY]

def UNRESOLVED_RESOLUTIONS : List PlsqlResolution :=
  [.AMBIGUOUS, .UNRESOLVED]

/-- A `DECLARES` relationship from a source file to a database object. -/
structure Declaration where
  file : SourceFile
  object : DatabaseObject
  coordinates : Coordinates := {}
  deriving DecidableEq, Repr

/-- A graph database with the declarations of its objects. -/
structure AnalysisGraph extends GraphDb where
  declarations : List Declaration

/-- `coalesce(f.fileId, f.id, toString(elementId(f)))`. -/
def SourceFile.file_id (f : SourceFile) : String :=
  (f.fileId <|> f.id).getD f.elementId

/-- A string predicate on a property that may be null. -/
def holds (p : String → Bool) (property : Option String) : Bool :=
  property.any p

/-- `_kind_constraint`: an addressable object. -/
def kind_constraint (n : DatabaseObject) : Bool :=
  n.qualifiedName.isSome && n.labels.any fun label => KIND_LABELS.contains label

/-- `_name_search_clause`. -/
def name_search_clause (needle : String) (n : DatabaseObject) : Bool :=
  needle = "" ∨ needle.toList <:+: toLower (n.qualifiedName.getD "") ∨
    needle.toList <:+: toLower (n.name.getD "")

/-- `_kind_filter`. -/
def kind_filter (kinds : List String) (n : DatabaseObject) : Bool :=
  kinds.isEmpty || n.labels.any fun label => kinds.contains label

/-- The `WHERE` clause of object search, without the project. -/
def search_clause (needle : String) (kinds : List String) (n : DatabaseObject) : Bool :=
  kind_constraint n && !(n.labels.any fun label => SEARCH_EXCLUDED_LABELS.contains label) &&
    name_search_clause needle n && kind_filter kinds n

/-- The project's objects. -/
def project_objects (db : GraphDb) (projectId : String) : List DatabaseObject :=
  db.objects.filter fun n => n.projectId = some projectId

/-- The order of search results: lower-cased qualified name, then name. -/
def search_order (a b : DatabaseObject) : Prop :=
  let qualified (n : DatabaseObject) := toLower (n.qualifiedName.getD "")
  qualified a < qualified b ∨
    qualified a = qualified b ∧ (a.name.getD "").toList ≤ (b.name.getD "").toList

instance : DecidableRel search_order := by
  intro a b
  unfold search_order
  infer_instance

/-- `SEARCH_OBJECTS`. -/
def SEARCH_OBJECTS (db : GraphDb) (projectId needle : String) (kinds : List String)
    (limit : Nat) : List DatabaseObject :=
  (((project_objects db projectId).filter (search_clause needle kinds)).insertionSort
    search_order).take limit

/-- `COUNT_SEARCH_OBJECTS`. -/
def COUNT_SEARCH_OBJECTS (db : GraphDb) (projectId needle : String) (kinds : List String) : Nat :=
  ((project_objects db projectId).filter (search_clause needle kinds)).length

/-- `CASE WHEN n:Synonym THEN 1 ELSE 0 END`. -/
def synonym_rank (n : DatabaseObject) : Nat :=
  if "Synonym" ∈ n.labels then 1 else 0

/-- `OBJECTS_BY_QUALIFIED_NAMES`. -/
def OBJECTS_BY_QUALIFIED_NAMES (db : GraphDb) (projectId : String)
    (qualifiedNames : List String) : List DatabaseObject :=
  ((project_objects db projectId).filter fun n =>
    holds qualifiedNames.contains n.qualifiedName).insertionSort
      fun a b => synonym_rank a ≤ synonym_rank b

/-- The server's order of property values: strings, booleans, numbers, null. -/
def PropertyValue.before : PropertyValue → PropertyValue → Bool
  | .str a, .str b => a.toList ≤ b.toList
  | .str _, _ => true
  | .bool _, .str _ => false
  | .bool a, .bool b => !a || b
  | .bool _, _ => true
  | .int a, .int b => a ≤ b
  | .int _, .null => true
  | .int _, _ => false
  | .null, .null => true
  | .null, _ => false

/-- An optional property among values of one type; null comes last. -/
def property (value : Option String) : PropertyValue :=
  match value with
  | some value => .str value
  | none => .null

/-- A row of `OBJECT_DECLARATION`. -/
structure DeclarationRow where
  path : Option String
  fileId : String
  startLine : PropertyValue
  startColumn : PropertyValue
  startOffset : PropertyValue
  endOffset : PropertyValue
  deriving DecidableEq, Repr

/-- The columns `OBJECT_DECLARATION` returns. -/
def Declaration.columns (d : Declaration) : DeclarationRow where
  path := d.file.path
  fileId := d.file.file_id
  startLine := d.coordinates.startLine
  startColumn := d.coordinates.startColumn
  startOffset := d.coordinates.startOffset
  endOffset := d.coordinates.endOffset

/-- `ORDER BY r.startOffset, f.path`. -/
def declaration_order (a b : Declaration) : Prop :=
  let offset (d : Declaration) := d.coordinates.startOffset
  (offset a).before (offset b) ∧
    (offset a ≠ offset b ∨ (property a.file.path).before (property b.file.path))

instance : DecidableRel declaration_order := by
  intro a b
  unfold declaration_order
  infer_instance

/-- `OBJECT_DECLARATION`; the file that declares the object is not restricted to
the project. -/
def OBJECT_DECLARATION (db : AnalysisGraph) (projectId qualifiedName : String) :
    List DeclarationRow :=
  (((db.declarations.filter fun d => d.object.projectId = some projectId ∧
    d.object.qualifiedName = some qualifiedName).insertionSort declaration_order).take 1).map
      Declaration.columns

/-- What an edge row holds of a node. -/
def DatabaseObject.columns (n : DatabaseObject) : DatabaseObject :=
  { n with projectId := none, coordinates := {} }

/-- `EDGE_COLUMNS`: names and labels of both ends, type and properties of the
relationship; the projects of the ends are not among them. -/
def EDGE_COLUMNS (r : Relationship) : Relationship :=
  { r with
    source := r.source.columns, target := r.target.columns,
    resolution := some (r.resolution.getD "EXACT") }

/-- `_edge_validity_clause`. -/
def edge_validity_clause (resolutions : List String) (r : Relationship) : Bool :=
  resolutions.contains (r.resolution.getD "EXACT") && kind_constraint r.source &&
    kind_constraint r.target

/-- The relationships a template with `s.projectId = $projectId` and `clause`
matches; the target's project is not asked for. -/
def edge_matches (db : GraphDb) (projectId : String) (clause : Relationship → Bool) :
    List Relationship :=
  db.relationships.filter fun r => r.source.projectId = some projectId ∧ clause r

/-- A select template: matched relationships in `EDGE_ORDER`. -/
def edge_select (db : GraphDb) (projectId : String) (clause : Relationship → Bool)
    (limit : Nat) : List Relationship :=
  (((edge_matches db projectId clause).insertionSort edge_order).take limit).map EDGE_COLUMNS

/-- Its count twin. -/
def edge_count (db : GraphDb) (projectId : String) (clause : Relationship → Bool) : Nat :=
  (edge_matches db projectId clause).length

/-- The clause of `EDGE_CALLERS`. -/
def callers_clause (qualifiedName : String) (resolutions : List String) (r : Relationship) :
    Bool :=
  r.type == "CALLS" && r.target.qualifiedName == some qualifiedName &&
    edge_validity_clause resolutions r

def EDGE_CALLERS (db : GraphDb) (projectId qualifiedName : String) (resolutions : List String)
    (limit : Nat) : List Relationship :=
  edge_select db projectId (callers_clause qualifiedName resolutions) limit

def COUNT_EDGE_CALLERS (db : GraphDb) (projectId qualifiedName : String)
    (resolutions : List String) : Nat :=
  edge_count db projectId (callers_clause qualifiedName resolutions)

/-- The clause of `EDGE_CALLEES`. -/
def callees_clause (qualifiedName : String) (resolutions : List String) (r : Relationship) :
    Bool :=
  r.type == "CALLS" && r.source.qualifiedName == some qualifiedName &&
    edge_validity_clause resolutions r

def EDGE_CALLEES (db : GraphDb) (projectId qualifiedName : String) (resolutions : List String)
    (limit : Nat) : List Relationship :=
  edge_select db projectId (callees_clause qualifiedName resolutions) limit

def COUNT_EDGE_CALLEES (db : GraphDb) (projectId qualifiedName : String)
    (resolutions : List String) : Nat :=
  edge_count db projectId (callees_clause qualifiedName resolutions)

/-- The object itself or one of its members. -/
def is_or_member (qualifiedName memberPrefix : String) (n : DatabaseObject) : Bool :=
  n.qualifiedName == some qualifiedName || holds (text.startsWith · memberPrefix) n.qualifiedName

/-- The clause of `EDGE_TABLE_ACCESS`. -/
def table_access_clause (qualifiedName memberPrefix : String)
    (relationships tableKinds resolutions : List String) (r : Relationship) : Bool :=
  relationships.contains r.type &&
    (is_or_member qualifiedName memberPrefix r.source &&
        (r.target.labels.any fun label => tableKinds.contains label) ||
      is_or_member qualifiedName memberPrefix r.target) &&
    edge_validity_clause resolutions r

def EDGE_TABLE_ACCESS (db : GraphDb) (projectId qualifiedName memberPrefix : String)
    (relationships tableKinds resolutions : List String) (limit : Nat) : List Relationship :=
  edge_select db projectId
    (table_access_clause qualifiedName memberPrefix relationships tableKinds resolutions) limit

def COUNT_EDGE_TABLE_ACCESS (db : GraphDb) (projectId qualifiedName memberPrefix : String)
    (relationships tableKinds resolutions : List String) : Nat :=
  edge_count db projectId
    (table_access_clause qualifiedName memberPrefix relationships tableKinds resolutions)

/-- The clause of `EDGE_UNRESOLVED`. -/
def unresolved_clause (relationships unresolvedResolutions resolutions : List String)
    (r : Relationship) : Bool :=
  relationships.contains r.type &&
    unresolvedResolutions.contains (r.resolution.getD "EXACT") &&
    edge_validity_clause resolutions r

def EDGE_UNRESOLVED (db : GraphDb) (projectId : String)
    (relationships unresolvedResolutions resolutions : List String) (limit : Nat) :
    List Relationship :=
  edge_select db projectId (unresolved_clause relationships unresolvedResolutions resolutions)
    limit

def COUNT_EDGE_UNRESOLVED (db : GraphDb) (projectId : String)
    (relationships unresolvedResolutions resolutions : List String) : Nat :=
  edge_count db projectId (unresolved_clause relationships unresolvedResolutions resolutions)

/-- The clause of `EDGE_BY_TRIPLE`. -/
def triple_clause (relationship sourceQualifiedName targetQualifiedName : String)
    (r : Relationship) : Bool :=
  r.type == relationship && r.source.qualifiedName == some sourceQualifiedName &&
    r.target.qualifiedName == some targetQualifiedName

/-- `EDGE_BY_TRIPLE`: two rows, in no order of its own. -/
def EDGE_BY_TRIPLE (db : GraphDb)
    (projectId relationship sourceQualifiedName targetQualifiedName : String) :
    List Relationship :=
  ((edge_matches db projectId
    (triple_clause relationship sourceQualifiedName targetQualifiedName)).take 2).map EDGE_COLUMNS

/-- The clause of `EDGE_INCOMING`. -/
def incoming_clause (relationships targets : List String) (r : Relationship) : Bool :=
  relationships.contains r.type && holds targets.contains r.target.qualifiedName

def EDGE_INCOMING (db : GraphDb) (projectId : String) (relationships targets : List String)
    (limit : Nat) : List Relationship :=
  edge_select db projectId (incoming_clause relationships targets) limit

/-- The clause of `EDGE_MEMBER_ENDPOINTS`. -/
def member_clause (relationships : List String) (memberPrefix : String) (r : Relationship) :
    Bool :=
  relationships.contains r.type &&
    (holds (text.startsWith · memberPrefix) r.source.qualifiedName ||
      holds (text.startsWith · memberPrefix) r.target.qualifiedName)

/-- `EDGE_MEMBER_ENDPOINTS`: the qualified names of both ends, in no order. -/
def EDGE_MEMBER_ENDPOINTS (db : GraphDb) (projectId : String) (relationships : List String)
    (memberPrefix : String) (limit : Nat) : List (Option String × Option String) :=
  ((edge_matches db projectId (member_clause relationships memberPrefix)).take limit).map
    fun r => (r.source.qualifiedName, r.target.qualifiedName)

end lagraph.plsql
