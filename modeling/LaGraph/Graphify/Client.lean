import LaGraph.Agent.Models
import LaGraph.Foundation.Dictionaries
import LaGraph.Foundation.Json.Decode
import LaGraph.Foundation.Patterns
import LaGraph.Plsql.Source

open foundation
open lagraph.agent (GraphNode GraphEdge GraphPath Provenance)
open lagraph.plsql (splitlines)

namespace lagraph.graphify

inductive GraphifyErrorCategory
  | unavailable | timeout | invalid_response | limit_exceeded | configuration
  deriving DecidableEq, Repr

/-- What an operation of the client raises. -/
inductive Failure
  | GraphifyError (category : GraphifyErrorCategory) (message : String)
  | ValidationError
  | ValueError
  deriving DecidableEq, Repr

/-- The configuration in real mode. -/
structure GraphifyMCPConfig where
  project_path : String
  max_tool_calls : Nat
  max_depth : Nat
  max_nodes : Nat
  max_edges : Nat
  max_evidence_bytes : Nat
  max_query_length : Nat
  max_node_id_length : Nat
  graph_version : Option String

/-- What the client takes from libraries: the digest of a text, upper case, and the JSON value of a
text whose bytes are not taken for UTF-8. -/
structure Libraries where
  sha256 : String → List (Fin 16)
  upper : String → String
  loads_wide : String → Except json.Failure json.Value

structure ClientState where
  calls : Nat
  native_labels : Dictionary String String

def ClientState.initial : ClientState where
  calls := 0
  native_labels := []

/-- A part of an operation: what it has registered and counted stays when it raises. -/
abbrev Client := ExceptT Failure (StateM ClientState)

/-- What a tool call comes to: an exception, or a result with its blocks of content if these are a
list, and the text of each block that has one. -/
inductive ToolOutcome
  | timed_out
  | unreachable
  | broken
  | misconfigured (message : String)
  | refused
  | content (blocks : Option (List (Option String)))

inductive ToolCall
  | search (question : String) (depth token_budget : Nat) (project_path : String)
  | get_node (label project_path : String)
  | get_neighbors (label project_path : String)
  | shortest_path (source target : String) (max_hops : Nat) (project_path : String)
  deriving DecidableEq, Repr

structure GraphCitation where
  id : String
  title : String
  source : String
  node_id : Option String
  provenance : Provenance
  deriving DecidableEq, Repr

structure GraphSubgraph where
  nodes : List GraphNode
  edges : List GraphEdge
  deriving DecidableEq, Repr

structure GraphSearchResult extends GraphSubgraph where
  citations : List GraphCitation
  graph_version : Option String
  truncated : Bool
  warnings : List String
  deriving DecidableEq, Repr

def GraphSubgraph.empty : GraphSubgraph where
  nodes := []
  edges := []

def GraphSearchResult.empty : GraphSearchResult where
  nodes := []
  edges := []
  citations := []
  graph_version := none
  truncated := false
  warnings := []

/-- The characters that `str.isspace` and `\s` hold of. -/
def SPACES : List Char :=
  ['\t', '\n', '\x0b', '\x0c', '\r', '\x1c', '\x1d', '\x1e', '\x1f', ' ', '\u0085', '\u00a0',
   '\u1680', '\u2000', '\u2001', '\u2002', '\u2003', '\u2004', '\u2005', '\u2006', '\u2007',
   '\u2008', '\u2009', '\u200a', '\u2028', '\u2029', '\u202f', '\u205f', '\u3000']

def is_space (c : Char) : Bool :=
  c ∈ SPACES

/-- `s.strip()`. -/
def strip (s : String) : String :=
  String.ofList (((s.toList.dropWhile is_space).reverse.dropWhile is_space).reverse)

def invalid_response {α : Type} (message : String) : Client α :=
  throw (.GraphifyError .invalid_response message)

def limit_exceeded {α : Type} (message : String) : Client α :=
  throw (.GraphifyError .limit_exceeded message)

section Texts

/-- `.` of a pattern. -/
def any (c : Char) : Bool :=
  c ≠ '\n'

structure NodeLine where
  label : String
  src : String
  loc : String
  community : String
  deriving DecidableEq, Repr

def node_pattern : Pattern NodeLine := do
  .literal "NODE ".toList
  let label ← .after any (.fewest any)
  .literal " [src=".toList
  let src ← .fewest any
  .literal " loc=".toList
  let loc ← .fewest any
  .literal " community=".toList
  let community ← .fewest any
  .literal "]".toList
  .finish
  pure
    { label := .ofList label, src := .ofList src, loc := .ofList loc,
      community := .ofList community }

structure EdgeLine where
  src : String
  rel : String
  confidence : String
  context : Option String
  dst : String
  deriving DecidableEq, Repr

/-- `[^\] ]`. -/
def is_confidence (c : Char) : Bool :=
  c ≠ ']' && c ≠ ' '

def context_pattern : Pattern (Option String) := do
  .literal " context=".toList
  let context ← .fewest any
  pure (some (.ofList context))

def edge_pattern : Pattern EdgeLine := do
  .literal "EDGE ".toList
  let src ← .after any (.fewest any)
  .literal " --".toList
  let rel ← .fewest any
  .literal " [".toList
  let confidence ← .after is_confidence (.most is_confidence)
  let context ← .either context_pattern (pure none)
  .literal "]--> ".toList
  let dst ← .after any (.most any)
  .finish
  pure
    { src := .ofList src, rel := .ofList rel, confidence := .ofList confidence, context,
      dst := .ofList dst }

structure NeighborLine where
  outgoing : Bool
  label : String
  rel : String
  confidence : String
  deriving DecidableEq, Repr

def neighbor_pattern : Pattern NeighborLine := do
  let _ ← .after is_space (.most is_space)
  let outgoing ← .either (do .literal "-->".toList; pure true) (do .literal "<--".toList; pure false)
  let _ ← .after is_space (.most is_space)
  let label ← .after any (.fewest any)
  .literal " [".toList
  let rel ← .fewest any
  .literal "] [".toList
  let confidence ← .fewest any
  .literal "]".toList
  .finish
  pure { outgoing, label := .ofList label, rel := .ofList rel, confidence := .ofList confidence }

/-- What stands between the nodes of a path. -/
def hop_pattern : Pattern Unit := do
  let _ ← .after is_space (.most is_space)
  .either
    (do .literal "--".toList; let _ ← .fewest any; .literal "-->".toList)
    (do .literal "<--".toList; let _ ← .fewest any; .literal "--".toList)
  let _ ← .after is_space (.most is_space)

end Texts

variable (config : GraphifyMCPConfig) (libraries : Libraries)

/-- `_bounded_text`. -/
def bounded_text (value label : String) (maximum : Nat) : Client String :=
  if strip value = "" then invalid_response (label ++ " must not be empty")
  else if maximum < value.length then limit_exceeded (label ++ " is too long")
  else pure (strip value)

/-- `sha256(text.encode()).hexdigest()[:24]`. -/
def short_digest (text : String) : String :=
  String.ofList (((libraries.sha256 text).map fun n => n.val.digitChar).take 24)

/-- `_node_id`. -/
def node_id (label : String) : String :=
  "graphify:" ++ short_digest libraries label

/-- `_register_native_label`. -/
def register_native_label (label : String) : Client String := do
  let clean := strip label
  let identifier := node_id libraries clean
  let state ← get
  match (state.native_labels.lookup identifier).filter (· ≠ clean) with
  | some _ => invalid_response "Graphify node identifier collision detected"
  | none => do
    set { state with native_labels := state.native_labels.put identifier clean }
    pure identifier

/-- `_native_label`. -/
def native_label (value : String) : Client String := do
  if text.startsWith value "graphify:" = false then pure value
  else do
    let state ← get
    match state.native_labels.lookup value with
    | some label => pure label
    | none =>
      invalid_response
        "Graphify node ID is unknown in this request; search must resolve it first"

/-- What a tool gave: a text that is no JSON, or a dictionary. -/
inductive Payload
  | text (content : String)
  | dictionary (value : json.Value)

/-- `json.loads` of the bytes of a text. -/
def loads_bytes (text : String) : Except json.Failure json.Value :=
  match text.toList with
  | '\ufeff' :: s => json.decode s
  | s => if '\x00' ∈ s.take 2 then libraries.loads_wide text else json.decode s

/-- `_decode_content`. -/
def decode_content (blocks : Option (List (Option String))) : Client Payload :=
  match blocks with
  | none => invalid_response "MCP response content is malformed"
  | some blocks =>
    match blocks.mapM id with
    | none => invalid_response "MCP response contains unsupported content"
    | some texts =>
      let encoded := String.join texts
      if config.max_evidence_bytes < encoded.utf8ByteSize then
        limit_exceeded "Graphify response is too large"
      else
        match loads_bytes libraries encoded with
        | .error .decode_error => pure (.text encoded)
        | .error .value_error =>
          throw (.GraphifyError .unavailable "Graphify MCP request failed")
        | .ok decoded =>
          match decoded with
          | .obj _ =>
            match (decoded.get "result").getD ((decoded.get "data").getD decoded) with
            | .obj nested => pure (.dictionary (.obj nested))
            | _ => invalid_response "MCP result must be a JSON object"
          | _ => invalid_response "MCP response must be a JSON object"

/-- `_invoke`. -/
def invoke (server : ToolCall → ToolOutcome) (call : ToolCall) : Client Payload := do
  let state ← get
  set { state with calls := state.calls + 1 }
  if config.max_tool_calls < state.calls + 1 then
    limit_exceeded "Graphify tool-call limit exceeded"
  else
    match server call with
    | .timed_out => throw (.GraphifyError .timeout "Graphify MCP request timed out")
    | .unreachable => throw (.GraphifyError .unavailable "Graphify MCP is unavailable")
    | .broken => throw (.GraphifyError .unavailable "Graphify MCP request failed")
    | .misconfigured message => throw (.GraphifyError .configuration message)
    | .refused => invalid_response "Graphify MCP tool returned an error"
    | .content blocks => decode_content config libraries blocks

/-- The text under `_text`, if it has no lone surrogates. -/
def Payload.text_of : Payload → Option String
  | .text content => some content
  | .dictionary value =>
    match value.get "_text" with
    | some (.str codes) =>
      if codes.all (fun n => n.isValidChar) then some (String.ofList (codes.map Char.ofNat)) else none
    | _ => none

/-- `_real_text`. -/
def real_text (payload : Payload) : Client String :=
  match payload.text_of.filter (strip · ≠ "") with
  | some text => pure text
  | none => invalid_response "Graphify text result is empty"

/-- `_validate_graph_limits`. -/
def validate_graph_limits (nodes : List GraphNode) (edges : List GraphEdge) : Client Unit :=
  if config.max_nodes < nodes.length ∨ config.max_edges < edges.length then
    limit_exceeded "Graph evidence exceeds configured limits"
  else pure ()

section Search

def graphify_node (id label : String) : GraphNode where
  id := id
  label := label
  type := "graphify_node"
  properties := []
  source := some "Graphify knowledge graph"
  excerpt := none
  provenance := .unknown

/-- `value or fallback`. -/
def text_or (value fallback : String) : String :=
  if value = "" then fallback else value

/-- The nodes by their labels, and the edges. -/
abbrev Found : Type :=
  Dictionary String GraphNode × List GraphEdge

def listed_node (id : String) (values : NodeLine) : GraphNode where
  id := id
  label := values.label
  type := "graphify_node"
  properties := [("location", .str values.loc), ("community", .str values.community)]
  source := some (text_or values.src "Graphify knowledge graph")
  excerpt := none
  provenance := .extracted

def search_edge (source target : String) (values : EdgeLine) : GraphEdge where
  id := "edge:" ++ short_digest libraries (values.src ++ "\x00" ++ values.rel ++ "\x00" ++ values.dst)
  source_node_id := source
  target_node_id := target
  relationship := text_or values.rel "related_to"
  properties := ("confidence", .str values.confidence) ::
    ((values.context.filter (· ≠ "")).map fun context => ("context", .str context)).toList
  provenance := if libraries.upper values.confidence = "INFERRED" then .inferred else .extracted

/-- The node of a label that an edge mentions; it is added if there is none. -/
def mention (nodes : Dictionary String GraphNode) (label : String) :
    Client (GraphNode × Dictionary String GraphNode) := do
  let identifier ← register_native_label libraries label
  let node := graphify_node identifier label
  pure ((nodes.lookup label).getD node, nodes.setdefault label node)

def search_line (found : Found) (line : String) : Client Found := do
  match node_pattern.captures line.toList with
  | some values => do
    let identifier ← register_native_label libraries values.label
    pure (found.1.put values.label (listed_node identifier values), found.2)
  | none =>
    match edge_pattern.captures line.toList with
    | some values => do
      let (source, nodes) ← mention libraries found.1 values.src
      let (target, nodes) ← mention libraries nodes values.dst
      pure (nodes, found.2 ++ [search_edge libraries source.id target.id values])
    | none => pure found

def citation (node : GraphNode) : GraphCitation where
  id := "node:" ++ node.id
  title := node.label
  source := node.source.getD ""
  node_id := some node.id
  provenance := node.provenance

/-- The fields that must not be empty. -/
def GraphSubgraph.valid (subgraph : GraphSubgraph) : Bool :=
  subgraph.nodes.all (fun node => node.id ≠ "" && node.label ≠ "" && node.type ≠ "") &&
    subgraph.edges.all fun edge =>
      edge.id ≠ "" && edge.source_node_id ≠ "" && edge.target_node_id ≠ "" && edge.relationship ≠ ""

def GraphSearchResult.valid (result : GraphSearchResult) : Bool :=
  result.toGraphSubgraph.valid &&
    result.citations.all fun item => item.id ≠ "" && item.title ≠ "" && item.source ≠ ""

/-- `_parse` of a result that is valid or not. -/
def parse {α : Type} (valid : α → Bool) (raw : α) (label : String) : Client α :=
  if valid raw then pure raw else invalid_response ("Graphify returned an invalid " ++ label)

def TRUNCATED : String :=
  "... (truncated —"

/-- `_normalize_real_search`. -/
def normalize_real_search (payload : Payload) : Client GraphSearchResult := do
  let text ← real_text payload
  if strip text = "No matching nodes found." then pure .empty
  else do
    let (nodes, edges) ← (splitlines [] text.toList).foldlM (search_line libraries) ([], [])
    if nodes = [] then invalid_response "Graphify query response had no parseable nodes"
    else do
      let raw_nodes := nodes.map (·.2)
      validate_graph_limits config raw_nodes edges
      let truncated := decide (TRUNCATED.toList <:+: text.toList)
      parse GraphSearchResult.valid
        { nodes := raw_nodes, edges, citations := raw_nodes.map citation,
          graph_version := config.graph_version, truncated,
          warnings :=
            if truncated then ["Graphify truncated evidence to its token budget."] else [] }
        "search result"

end Search

section Nodes

/-- `line.strip().split(": ", 1)`; `none` without a separator. -/
def split_field : List Char → Option (List Char × List Char)
  | [] => none
  | c :: s =>
    if ": ".toList.isPrefixOf (c :: s) then some ([], s.drop 1)
    else (split_field s).map fun field => (c :: field.1, field.2)

/-- The fields of the lines with a separator; a line that loses it with its blanks makes no
pair. -/
def node_fields (lines : List String) : Client (Dictionary String String) :=
  (lines.filter fun line => (split_field line.toList).isSome).foldlM (fun fields line =>
    match split_field (strip line).toList with
    | some (key, value) => pure (fields.put (.ofList key) (.ofList value))
    | none => throw .ValueError) []

def removeprefix (s opening : String) : String :=
  if text.startsWith s opening then text.dropPrefix s opening else s

def removesuffix (s ending : String) : String :=
  if text.endsWith s ending then String.ofList (s.toList.take (s.length - ending.length)) else s

/-- `_normalize_real_node`. -/
def normalize_real_node (payload : Payload) : Client GraphNode := do
  let text ← real_text payload
  let lines := splitlines [] text.toList
  let fields ← node_fields lines.tail
  let label := strip ( removeprefix (lines.headD "") "Node: ")
  if label = "" ∨ foundation.text.startsWith text "No node matching" = true then
    invalid_response "Graphify node was not found"
  else do
    let identifier ← register_native_label libraries label
    pure
      { id := identifier, label, type := text_or ((fields.lookup "Type").getD "") "graphify_node",
        properties := [("community", ((fields.lookup "Community").map .str).getD .null)],
        source := some (text_or ((fields.lookup "Source").getD "") "Graphify knowledge graph"),
        excerpt := none, provenance := .extracted }

end Nodes

section Neighbors

/-- `GraphNode(...)` of a label. -/
def neighbor_node (label : String) : Client GraphNode := do
  let identifier ← register_native_label libraries label
  if label = "" then throw .ValidationError else pure (graphify_node identifier label)

def neighbor_edge (center : String) (values : NeighborLine) (nodes : Dictionary String GraphNode) :
    GraphEdge :=
  let source := if values.outgoing then center else values.label
  let target := if values.outgoing then values.label else center
  { id := node_id libraries (source ++ ":" ++ values.rel ++ ":" ++ target),
    source_node_id := (nodes.lookup source).elim "" (·.id),
    target_node_id := (nodes.lookup target).elim "" (·.id),
    relationship := text_or values.rel "related_to",
    properties := [("confidence", .str values.confidence)], provenance := .unknown }

def neighbor_line (center : String) (found : Found) (line : String) : Client Found := do
  match neighbor_pattern.captures line.toList with
  | none => pure found
  | some values => do
    let node ← neighbor_node libraries values.label
    let nodes := found.1.put values.label node
    pure (nodes, found.2 ++ [neighbor_edge libraries center values nodes])

/-- `_normalize_real_neighbors`. -/
def normalize_real_neighbors (payload : Payload) : Client GraphSubgraph := do
  let text ← real_text payload
  if foundation.text.startsWith text "No node matching" = true then pure .empty
  else do
    let lines := splitlines [] text.toList
    let center := removesuffix ( removeprefix (lines.headD "") "Neighbors of ") ":"
    let node ← neighbor_node libraries center
    let (nodes, edges) ← lines.tail.foldlM (neighbor_line libraries center) ([(center, node)], [])
    let raw_nodes := nodes.map (·.2)
    validate_graph_limits config raw_nodes edges
    parse GraphSubgraph.valid { nodes := raw_nodes, edges } "neighbors"

end Neighbors

section Paths

/-- `_normalize_real_path`. -/
def normalize_real_path (payload : Payload) : Client GraphPath := do
  let text ← real_text payload
  if foundation.text.startsWith text "Shortest path" = false then
    invalid_response "Graphify path was not found"
  else do
    let last := strip ((splitlines [] text.toList).getLastD "")
    let items := hop_pattern.split last.toList.length last.toList
    let labels := (items.map fun item => strip (.ofList item)).filter (· ≠ "")
    if labels = [] then invalid_response "Graphify path response had no parseable nodes"
    else do
      let node_ids ← labels.mapM (register_native_label libraries)
      pure { id := node_id libraries text, node_ids, edge_ids := [] }

end Paths

section Operations

inductive Operation
  | search (query : String)
  | get_node (node_id : String)
  | get_neighbors (node_id : String) (depth : Nat)
  | shortest_path (source_node_id target_node_id : String)

inductive Result
  | search (result : GraphSearchResult)
  | node (node : GraphNode)
  | neighbors (subgraph : GraphSubgraph)
  | path (path : GraphPath)

/-- The tool call of an operation. -/
def request : Operation → Client ToolCall
  | .search query => do
    let query ← bounded_text query "query" config.max_query_length
    pure (.search query config.max_depth (max 256 (config.max_evidence_bytes / 3))
      config.project_path)
  | .get_node node_id => do
    let node_id ← bounded_text node_id "node ID" config.max_node_id_length
    let native ← native_label node_id
    pure (.get_node native config.project_path)
  | .get_neighbors node_id depth => do
    let node_id ← bounded_text node_id "node ID" config.max_node_id_length
    let native ← native_label node_id
    if depth < 1 ∨ config.max_depth < depth then
      limit_exceeded "Traversal depth is outside configured limits"
    else pure (.get_neighbors native config.project_path)
  | .shortest_path source_node_id target_node_id => do
    let source ← bounded_text source_node_id "source node ID" config.max_node_id_length
    let target ← bounded_text target_node_id "target node ID" config.max_node_id_length
    let native_source ← native_label source
    let native_target ← native_label target
    pure (.shortest_path native_source native_target config.max_depth config.project_path)

/-- The result of an operation from what its tool gave. -/
def normalize (operation : Operation) (payload : Payload) : Client Result :=
  match operation with
  | .search _ => Result.search <$> normalize_real_search config libraries payload
  | .get_node _ => Result.node <$> normalize_real_node libraries payload
  | .get_neighbors _ _ => Result.neighbors <$> normalize_real_neighbors config libraries payload
  | .shortest_path _ _ => Result.path <$> normalize_real_path libraries payload

def perform (server : ToolCall → ToolOutcome) (operation : Operation) : Client Result := do
  let call ← request config operation
  let payload ← invoke config libraries server call
  normalize config libraries operation payload

end Operations

end lagraph.graphify
