import Mathlib.Data.List.Sort
import LaGraph.Foundation.Text

namespace lagraph.plsql

/-- Object kinds; a node carries its kind as a label. -/
inductive ObjectKind
  | Table | View | Package | Sequence | Trigger | Index | Synonym | «Type» | Procedure | Function
  | AnonymousBlock
  deriving DecidableEq, Repr

def ObjectKind.label : ObjectKind → String
  | .Table => "Table"
  | .View => "View"
  | .Package => "Package"
  | .Sequence => "Sequence"
  | .Trigger => "Trigger"
  | .Index => "Index"
  | .Synonym => "Synonym"
  | .Type => "Type"
  | .Procedure => "Procedure"
  | .Function => "Function"
  | .AnonymousBlock => "AnonymousBlock"

inductive PlsqlRelationship
  | CALLS | READS | WRITES | VIEW_DEPENDS_ON | FOREIGN_KEY | TRIGGER_ON | TRIGGERS | INDEXES
  | SYNONYM_FOR | DECLARES | CONTAINS
  deriving DecidableEq, Repr

def PlsqlRelationship.name : PlsqlRelationship → String
  | .CALLS => "CALLS"
  | .READS => "READS"
  | .WRITES => "WRITES"
  | .VIEW_DEPENDS_ON => "VIEW_DEPENDS_ON"
  | .FOREIGN_KEY => "FOREIGN_KEY"
  | .TRIGGER_ON => "TRIGGER_ON"
  | .TRIGGERS => "TRIGGERS"
  | .INDEXES => "INDEXES"
  | .SYNONYM_FOR => "SYNONYM_FOR"
  | .DECLARES => "DECLARES"
  | .CONTAINS => "CONTAINS"

inductive PlsqlResolution
  | EXACT | INFERRED | AMBIGUOUS | UNRESOLVED
  deriving DecidableEq, Repr

def PlsqlResolution.name : PlsqlResolution → String
  | .EXACT => "EXACT"
  | .INFERRED => "INFERRED"
  | .AMBIGUOUS => "AMBIGUOUS"
  | .UNRESOLVED => "UNRESOLVED"

def RESOLUTIONS : List PlsqlResolution :=
  [.EXACT, .INFERRED, .AMBIGUOUS, .UNRESOLVED]

/-- The kind tokens of a `viaTable` reference. -/
def KIND_TOKENS : List (String × ObjectKind) :=
  [("TABLE", .Table), ("VIEW", .View), ("PACKAGE", .Package), ("SEQUENCE", .Sequence),
   ("TRIGGER", .Trigger), ("INDEX", .Index), ("SYNONYM", .Synonym), ("TYPE", .Type),
   ("PROCEDURE", .Procedure), ("FUNCTION", .Function), ("ANONYMOUS_BLOCK", .AnonymousBlock)]

def PATH_RELATIONSHIPS : List PlsqlRelationship :=
  [.CALLS, .READS, .WRITES, .VIEW_DEPENDS_ON, .TRIGGERS, .FOREIGN_KEY]

/-- The path relationships and `TRIGGER_ON`. -/
def TRIGGER_AWARE_RELATIONSHIPS : List PlsqlRelationship :=
  PATH_RELATIONSHIPS ++ [.TRIGGER_ON]

theorem PlsqlRelationship.name_injective {r s : PlsqlRelationship} (h : r.name = s.name) :
    r = s := by
  cases r <;> cases s <;> first | rfl | exact absurd h (by decide)

/-- A stored property as the driver returns it. -/
inductive PropertyValue
  | null
  | bool (value : Bool)
  | int (value : Int)
  | str (value : String)
  deriving DecidableEq, Repr

/-- The evidence properties of a node or relationship. -/
structure Coordinates where
  sourceFileId : PropertyValue := .null
  startLine : PropertyValue := .null
  startColumn : PropertyValue := .null
  startOffset : PropertyValue := .null
  endOffset : PropertyValue := .null
  deriving DecidableEq, Repr

/-- A `DatabaseObject` node. -/
structure DatabaseObject where
  labels : List String
  projectId : Option String
  qualifiedName : Option String
  name : Option String
  coordinates : Coordinates := {}
  deriving DecidableEq, Repr

/-- A `SourceFile` node. -/
structure SourceFile where
  projectId : Option String
  path : Option String
  fileId : Option String
  id : Option String
  elementId : String
  deriving DecidableEq, Repr

/-- A relationship between two database objects. -/
structure Relationship where
  source : DatabaseObject
  target : DatabaseObject
  type : String
  resolution : Option String := none
  coordinates : Coordinates := {}
  derived : PropertyValue := .null
  events : PropertyValue := .null
  evidenceKind : PropertyValue := .null
  viaTable : PropertyValue := .null
  deriving DecidableEq, Repr

/-- A graph database. The order of the lists is the order in which the server
returns rows that its `ORDER BY` ties. -/
structure GraphDb where
  objects : List DatabaseObject
  files : List SourceFile
  relationships : List Relationship

/-- Simple lower-casing of the server's `toLower`, exact on ASCII. -/
def toLower (s : String) : List Char :=
  s.toList.map Char.toLower

/-- `EDGE_ORDER`: relationship type, then the lower-cased qualified names. -/
def edge_order (a b : Relationship) : Prop :=
  let source (r : Relationship) := toLower (r.source.qualifiedName.getD "")
  let target (r : Relationship) := toLower (r.target.qualifiedName.getD "")
  a.type < b.type ∨ a.type = b.type ∧
    (source a < source b ∨ source a = source b ∧ target a ≤ target b)

instance : DecidableRel edge_order := by
  intro a b
  unfold edge_order
  infer_instance

/-- `EDGE_OUTGOING`. -/
def EDGE_OUTGOING (db : GraphDb) (projectId : String) (relationships sources : List String)
    (limit : Nat) : List Relationship :=
  ((db.relationships.filter fun r =>
    r.source.projectId = some projectId ∧ r.type ∈ relationships ∧
      ∃ s ∈ sources, r.source.qualifiedName = some s).insertionSort edge_order).take limit

/-- `OBJECT_BY_QUALIFIED_NAME`: synonyms sort behind the objects they share a
name with. -/
def OBJECT_BY_QUALIFIED_NAME (db : GraphDb) (projectId qualifiedName : String) :
    List DatabaseObject :=
  let synonym (n : DatabaseObject) := if "Synonym" ∈ n.labels then 1 else 0
  ((db.objects.filter fun n =>
    n.projectId = some projectId ∧ n.qualifiedName = some qualifiedName).insertionSort
      fun a b => synonym a ≤ synonym b).take 1

/-- `SOURCE_FILES`: path and file id of the project's files and of those without
a project. -/
def SOURCE_FILES (db : GraphDb) (projectId : String) : List (Option String × String) :=
  (db.files.filter fun f => f.projectId = none ∨ f.projectId = some projectId).map fun f =>
    (f.path, (f.fileId <|> f.id).getD f.elementId)

end lagraph.plsql
