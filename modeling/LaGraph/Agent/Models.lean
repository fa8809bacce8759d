import LaGraph.Foundation.Json
import LaGraph.Foundation.Tables

open foundation

namespace lagraph.agent

inductive Provenance
  | explicit | extracted | inferred | unknown
  deriving DecidableEq, Repr

def Provenance.name : Provenance → String
  | .explicit => "explicit"
  | .extracted => "extracted"
  | .inferred => "inferred"
  | .unknown => "unknown"

/-- The value of a property; a float is kept as its text. -/
inductive PropertyValue
  | str (value : String)
  | int (value : Int)
  | float (text : String)
  | bool (value : Bool)
  | null
  deriving DecidableEq, Repr

structure Citation where
  id : String
  title : String
  source : String
  node_id : Option String
  relationship : Option String
  provenance : Provenance
  excerpt : Option String
  document : Option String
  article : Option String
  paragraph : Option String
  start_line : Option Nat
  end_line : Option Nat
  page_number : Option Nat
  section_path : Option (List String)
  deriving DecidableEq, Repr

/-- A citation of graph evidence: no place in a document. -/
def Citation.of_graph (id title source : String) (node_id relationship : Option String)
    (provenance : Provenance) (excerpt : Option String) : Citation where
  id := id
  title := title
  source := source
  node_id := node_id
  relationship := relationship
  provenance := provenance
  excerpt := excerpt
  document := none
  article := none
  paragraph := none
  start_line := none
  end_line := none
  page_number := none
  section_path := none

structure GraphNode where
  id : String
  label : String
  type : String
  properties : List (String × PropertyValue)
  source : Option String
  excerpt : Option String
  provenance : Provenance
  deriving DecidableEq, Repr

structure GraphEdge where
  id : String
  source_node_id : String
  target_node_id : String
  relationship : String
  properties : List (String × PropertyValue)
  provenance : Provenance
  deriving DecidableEq, Repr

structure GraphPath where
  id : String
  node_ids : List String
  edge_ids : List String
  deriving DecidableEq, Repr

instance : Keyed Citation String := ⟨(·.id)⟩
instance : Keyed GraphNode String := ⟨(·.id)⟩
instance : Keyed GraphEdge String := ⟨(·.id)⟩
instance : Keyed GraphPath String := ⟨(·.id)⟩

structure GraphEvidence where
  nodes : List GraphNode
  edges : List GraphEdge
  paths : List GraphPath
  deriving DecidableEq, Repr

def GraphEvidence.empty : GraphEvidence := ⟨[], [], []⟩

/-- The lists of a result, each one there or not. -/
structure EvidenceLists where
  nodes : Option (List GraphNode)
  edges : Option (List GraphEdge)
  paths : Option (List GraphPath)
  deriving DecidableEq, Repr

/-- A normalized result of the graph adapter, its records validated. -/
structure GraphResult where
  direct : EvidenceLists
  /-- The mapping under `evidence`, `graphEvidence` or `graph_evidence`. -/
  nested : Option EvidenceLists
  citations : List Citation
  graph_version : Option String
  warnings : List String
  deriving DecidableEq, Repr

structure WorkflowLimits where
  max_tool_calls : Nat
  max_traversal_depth : Nat
  max_nodes : Nat
  max_edges : Nat
  max_evidence_bytes : Nat
  max_model_iterations : Nat
  /-- The validated lower bound, above the size of empty evidence. -/
  bytes_ge : 1024 ≤ max_evidence_bytes
  deriving DecidableEq, Repr

/-- `WorkflowLimits()`. -/
def WorkflowLimits.default : WorkflowLimits where
  max_tool_calls := 4
  max_traversal_depth := 2
  max_nodes := 100
  max_edges := 200
  max_evidence_bytes := 65536
  max_model_iterations := 1
  bytes_ge := by decide

namespace encoding

def value : PropertyValue → String
  | .str s => json.asciiStr s
  | .int i => toString i
  | .float text => text
  | .bool b => if b then "true" else "false"
  | .null => json.null

/-- An object of keys and encoded values, in compact ASCII form. -/
def object (fields : List (String × String)) : String :=
  "\x7b" ++ ",".intercalate (fields.map fun field => json.asciiStr field.1 ++ ":" ++ field.2) ++
    "\x7d"

def optional (s : Option String) : String :=
  s.elim json.null json.asciiStr

def properties (values : List (String × PropertyValue)) : String :=
  object (values.map fun field => (field.1, value field.2))

def node (n : GraphNode) : String :=
  object
    [("id", json.asciiStr n.id), ("label", json.asciiStr n.label), ("type", json.asciiStr n.type),
      ("properties", properties n.properties), ("source", optional n.source),
      ("excerpt", optional n.excerpt), ("provenance", json.asciiStr n.provenance.name)]

def edge (e : GraphEdge) : String :=
  object
    [("id", json.asciiStr e.id), ("sourceNodeId", json.asciiStr e.source_node_id),
      ("targetNodeId", json.asciiStr e.target_node_id),
      ("relationship", json.asciiStr e.relationship), ("properties", properties e.properties),
      ("provenance", json.asciiStr e.provenance.name)]

def path (p : GraphPath) : String :=
  object
    [("id", json.asciiStr p.id), ("nodeIds", json.array (p.node_ids.map json.asciiStr)),
      ("edgeIds", json.array (p.edge_ids.map json.asciiStr))]

/-- The compact dump of evidence, all of it ASCII. -/
def evidence (e : GraphEvidence) : String :=
  object
    [("nodes", json.array (e.nodes.map node)), ("edges", json.array (e.edges.map edge)),
      ("paths", json.array (e.paths.map path))]

/-- The number of bytes of the dump. -/
def size (e : GraphEvidence) : Nat :=
  (evidence e).length

example : size .empty = 34 := by decide +kernel

end encoding

end lagraph.agent
