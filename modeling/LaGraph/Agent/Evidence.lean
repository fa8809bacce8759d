import LaGraph.Agent.Models
import LaGraph.Retrieval.Chunking

open foundation

namespace lagraph.agent

/-- `_items`: the list of the result itself, else that of its nested evidence. -/
def items {α : Type} (result : GraphResult) (key : EvidenceLists → Option (List α)) : List α :=
  match key result.direct with
  | some direct => direct
  | none => ((result.nested.bind key).getD [])

/-- `setdefault` for each record, under its identifier. -/
def collect {ρ : Type} [Keyed ρ String] (records : List ρ) : Table ρ :=
  records.foldl .insert .empty

/-- Assignment under the identifier of a citation. -/
def assign (citations : Table Citation) (citation : Citation) : Table Citation :=
  (citations.update (·.id = citation.id) (fun c => { citation with id := c.id })
    (fun _ => rfl)).insert citation

/-- The first version that is not empty. -/
def merged_version (results : List GraphResult) : Option String :=
  results.findSome? fun result => result.graph_version.filter (· ≠ "")

def GraphNode.cited_by (node : GraphNode) (citations : Table Citation) : Bool :=
  citations.rows.any (·.node_id = some node.id)

/-- The citation of a node that the adapter did not cite. -/
def GraphNode.citation (node : GraphNode) : Citation :=
  .of_graph ("node:" ++ node.id) node.label
    ((node.source.filter (· ≠ "")).getD "Graphify knowledge graph") (some node.id) none
    node.provenance node.excerpt

/-- Every node gets a citation, unless the adapter has one for it. -/
def cite_nodes (citations : Table Citation) (nodes : List GraphNode) : Table Citation :=
  nodes.foldl
    (fun citations node =>
      if node.cited_by citations then citations else citations.insert node.citation)
    citations

/-- The evidence without its last node and what refers to it. -/
def GraphEvidence.without (evidence : GraphEvidence) (nodes : List GraphNode)
    (removed : GraphNode) : GraphEvidence where
  nodes := nodes
  edges := evidence.edges.filter fun edge =>
    edge.source_node_id ≠ removed.id && edge.target_node_id ≠ removed.id
  paths := evidence.paths.filter fun path => removed.id ∉ path.node_ids

/-- The loop that drops the last node until the evidence fits, for as many rounds as
there are nodes. -/
def trim (limit : Nat) : Nat → GraphEvidence → Table Citation → GraphEvidence × Table Citation
  | 0, evidence, citations => (evidence, citations)
  | rounds + 1, evidence, citations =>
    if encoding.size evidence ≤ limit then (evidence, citations)
    else
      match evidence.nodes.getLast? with
      | none => (evidence, citations)
      | some removed =>
        trim limit rounds (evidence.without evidence.nodes.dropLast removed)
          (citations.delete (·.node_id = some removed.id))

/-- The label of a node of the evidence; a missing one is a failed lookup. -/
def GraphEvidence.node_label (evidence : GraphEvidence) (id : String) : Option String :=
  (evidence.nodes.find? (·.id = id)).map (·.label)

def GraphEdge.citation (edge : GraphEdge) (source_label target_label : String) : Citation :=
  .of_graph ("edge:" ++ edge.id) s!"{source_label} —{edge.relationship}→ {target_label}"
    "Graphify knowledge graph" none (some edge.relationship) edge.provenance
    (match edge.properties.lookup "context" with
      | some (.str context) => some context
      | _ => none)

def GraphPath.citation (path : GraphPath) (labels : List String) : Citation :=
  .of_graph ("path:" ++ path.id) (" → ".intercalate labels) "Graphify knowledge graph" none
    (some "graph_path") .unknown none

def cite_edges (evidence : GraphEvidence) (citations : Table Citation) :
    Option (Table Citation) :=
  evidence.edges.foldlM
    (fun citations edge => do
      let source_label ← evidence.node_label edge.source_node_id
      let target_label ← evidence.node_label edge.target_node_id
      pure (assign citations (edge.citation source_label target_label)))
    citations

def cite_paths (evidence : GraphEvidence) (citations : Table Citation) :
    Option (Table Citation) :=
  evidence.paths.foldlM
    (fun citations path => do
      let labels ← path.node_ids.mapM evidence.node_label
      pure (assign citations (path.citation labels)))
    citations

/-- The nodes of a merge within the limit of their number. -/
def limited_nodes (results : List GraphResult) (limits : WorkflowLimits) : List GraphNode :=
  (collect (results.flatMap (items · (·.nodes)))).rows.take limits.max_nodes

/-- The evidence of a merge within the limits of its numbers, each edge between its
nodes and each path along its nodes and edges. -/
def admitted (results : List GraphResult) (limits : WorkflowLimits) : GraphEvidence :=
  let nodes := limited_nodes results limits
  let edges := ((collect (results.flatMap (items · (·.edges)))).rows.filter fun edge =>
    nodes.any (·.id = edge.source_node_id) && nodes.any (·.id = edge.target_node_id)).take
      limits.max_edges
  { nodes
    edges
    paths := (collect (results.flatMap (items · (·.paths)))).rows.filter fun path =>
      path.node_ids.all (fun id => nodes.any (·.id = id)) &&
        path.edge_ids.all (fun id => edges.any (·.id = id)) }

/-- The citations of the adapter for the nodes within the limit. -/
def admitted_citations (results : List GraphResult) (limits : WorkflowLimits) : Table Citation :=
  (collect (results.flatMap (·.citations))).delete fun citation =>
    !citation.node_id.any fun id => (limited_nodes results limits).any (·.id = id)

def merged_warnings (results : List GraphResult) (limits : WorkflowLimits) : List String :=
  let warnings := results.flatMap (·.warnings)
  if (admitted results limits).nodes.length <
        (collect (results.flatMap (items · (·.nodes)))).rows.length ∨
      (admitted results limits).edges.length <
        (collect (results.flatMap (items · (·.edges)))).rows.length then
    warnings ++ ["Graph evidence was truncated to configured limits."]
  else warnings

structure MergedEvidence where
  evidence : GraphEvidence
  citations : List Citation
  graph_version : Option String
  warnings : List String

/-- `_merge_evidence`; `none` is a failed label lookup. -/
def merge_evidence (results : List GraphResult) (limits : WorkflowLimits) :
    Option MergedEvidence := do
  let evidence := admitted results limits
  let citations := cite_nodes (admitted_citations results limits) evidence.nodes
  let (evidence, citations) :=
    trim limits.max_evidence_bytes evidence.nodes.length evidence citations
  let (evidence, citations) :=
    if limits.max_evidence_bytes < encoding.size evidence then (.empty, .empty)
    else (evidence, citations)
  let citations ← cite_edges evidence citations
  let citations ← cite_paths evidence citations
  pure
    { evidence, citations := citations.rows, graph_version := merged_version results,
      warnings := (merged_warnings results limits).eraseDups }

/-- The nodes, edges and paths of the model's context, named by their labels. -/
structure ContextNode where
  evidence_id : String
  node : GraphNode

structure ContextEdge where
  evidence_id : String
  source_label : String
  target_label : String
  edge : GraphEdge

structure ContextPath where
  evidence_id : String
  node_labels : List String

structure Context where
  question_category : String
  citation_id_allowlist : List String
  source_passages : List retrieval.SourcePassage
  nodes : List ContextNode
  edges : List ContextEdge
  paths : List ContextPath

/-- The identifier that a node is cited by: that of the last citation naming it. -/
def node_evidence_id (citations : List Citation) (node : GraphNode) : String :=
  (((citations.filter fun citation => citation.node_id.any (· ≠ "")).reverse.find?
    (·.node_id = some node.id)).map (·.id)).getD ("node:" ++ node.id)

/-- `prepare_context`; `none` is a failed label lookup. -/
def prepare_context (evidence : GraphEvidence) (citations : List Citation)
    (source_passages : List retrieval.SourcePassage) (category : String) : Option Context := do
  let edges ← evidence.edges.mapM fun edge => do
    let source_label ← evidence.node_label edge.source_node_id
    let target_label ← evidence.node_label edge.target_node_id
    pure (ContextEdge.mk ("edge:" ++ edge.id) source_label target_label edge)
  let paths ← evidence.paths.mapM fun path => do
    let node_labels ← path.node_ids.mapM evidence.node_label
    pure (ContextPath.mk ("path:" ++ path.id) node_labels)
  pure
    { question_category := category, citation_id_allowlist := citations.map (·.id),
      source_passages,
      nodes := evidence.nodes.map fun node => ⟨node_evidence_id citations node, node⟩,
      edges, paths }

end lagraph.agent
