import LaGraph.Graphify.Search

open foundation foundation.Stateful
open lagraph.agent (GraphNode GraphEdge GraphPath)
open lagraph.plsql (splitlines)

namespace lagraph.graphify

def Result.nodes : Result → List GraphNode
  | .search found => found.nodes
  | .node found => [found]
  | .neighbors found => found.nodes
  | .path _ => []

def Result.edges : Result → List GraphEdge
  | .search found => found.edges
  | .neighbors found => found.edges
  | .node _ | .path _ => []

/-- The identifiers of nodes in a result. -/
def Result.node_ids : Result → List String
  | .path found => found.node_ids
  | result => result.nodes.map (·.id)

/-- What holds of the nodes and edges of a result once the client has read it: each node is known
under its label, and each edge is between nodes of the result. -/
structure Resolved (libraries : Libraries) (s : ClientState) (nodes : List GraphNode)
    (edges : List GraphEdge) : Prop where
  named : ∀ node ∈ nodes, node.id = node_id libraries (strip node.label) ∧
    Named s node.id (strip node.label)
  closed : ∀ edge ∈ edges, (∃ node ∈ nodes, node.id = edge.source_node_id) ∧
    ∃ node ∈ nodes, node.id = edge.target_node_id

variable {config : GraphifyMCPConfig} {libraries : Libraries} {s s' : ClientState}

theorem of_validate_ok {nodes : List GraphNode} {edges : List GraphEdge} {u : Unit}
    (h : (validate_graph_limits config nodes edges).run.run s = (.ok u, s')) :
    nodes.length ≤ config.max_nodes ∧ edges.length ≤ config.max_edges ∧ s' = s := by
  unfold validate_graph_limits at h
  split at h
  · cases h
  · rename_i hlimits
    rw [not_or, Nat.not_lt, Nat.not_lt] at hlimits
    cases h
    exact ⟨hlimits.1, hlimits.2, rfl⟩

theorem of_parse_ok {α : Type} {valid : α → Bool} {raw a : α} {label : String}
    (h : (parse valid raw label).run.run s = (.ok a, s')) : a = raw ∧ s' = s := by
  unfold parse at h
  split at h
  · cases h
    exact ⟨rfl, rfl⟩
  · cases h

/-- Nodes by their labels, each known. -/
theorem Resolved.tabulate {keys : List String} {g : String → GraphNode} {edges : List GraphEdge}
    (hid : ∀ label, (g label).id = node_id libraries (strip label))
    (hlabel : ∀ label, (g label).label = label)
    (hnamed : ∀ label ∈ keys, Named s (node_id libraries (strip label)) (strip label))
    (hedges : ∀ edge ∈ edges, ∃ source ∈ keys, ∃ target ∈ keys,
      edge.source_node_id = node_id libraries (strip source) ∧
        edge.target_node_id = node_id libraries (strip target)) :
    Resolved libraries s ((Dictionary.tabulate keys g).map (·.2)) edges where
  named node hnode := by
    rw [values_tabulate] at hnode
    obtain ⟨label, hmem, rfl⟩ := List.mem_map.mp hnode
    rw [hlabel, hid]
    exact ⟨rfl, hnamed label (List.mem_eraseDups.mp hmem)⟩
  closed edge hedge := by
    have hnode {label : String} (h : label ∈ keys) :
        g label ∈ (Dictionary.tabulate keys g).map (·.2) := by
      rw [values_tabulate]
      exact List.mem_map_of_mem (List.mem_eraseDups.mpr h)
    obtain ⟨source, hsource, target, htarget, hsource_id, htarget_id⟩ := hedges edge hedge
    exact ⟨⟨g source, hnode hsource, (hid source).trans hsource_id.symm⟩,
      ⟨g target, hnode htarget, (hid target).trans htarget_id.symm⟩⟩

/-- A label that a line with an edge mentions. -/
theorem mem_labels_of_linked {lines : List String} {values : EdgeLine}
    (h : values ∈ linked_lines lines) :
    values.src ∈ labels lines ∧ values.dst ∈ labels lines := by
  obtain ⟨line, hline, hvalues⟩ := List.mem_filterMap.mp h
  have hread : (read_line line).labels = [values.src, values.dst] := by
    cases hread : read_line line with
    | edge found =>
      rw [hread] at hvalues
      cases hvalues
      rfl
    | node found =>
      rw [hread] at hvalues
      cases hvalues
    | other =>
      rw [hread] at hvalues
      cases hvalues
  have hmem {label : String} (h : label ∈ [values.src, values.dst]) : label ∈ labels lines :=
    List.mem_flatMap.mpr ⟨line, hline, hread ▸ h⟩
  exact ⟨hmem List.mem_cons_self, hmem (List.mem_cons_of_mem _ List.mem_cons_self)⟩

theorem of_search_ok {payload : Payload} {result : GraphSearchResult}
    (h : (normalize_real_search config libraries payload).run.run s = (.ok result, s')) :
    Resolved libraries s' result.nodes result.edges ∧
      result.nodes.length ≤ config.max_nodes ∧ result.edges.length ≤ config.max_edges := by
  obtain ⟨text, s₁, -, h⟩ := of_run_bind_ok h
  split at h
  · cases h
    exact ⟨⟨fun _ h => (nomatch h), fun _ h => (nomatch h)⟩, Nat.zero_le _, Nat.zero_le _⟩
  obtain ⟨⟨nodes, edges⟩, s₂, hlines, h⟩ := of_run_bind_ok h
  have hparsed := of_run_foldlM_ok (P := Parsed libraries) hlines (.nil libraries s₁)
    fun _ _ _ _ _ _ hdone hline => hdone.step hline
  dsimp only at h
  split at h
  · cases h
  obtain ⟨u, s₃, hlimits, hrest⟩ := of_run_bind_ok h
  obtain ⟨hnodes, hedges, rfl⟩ := of_validate_ok hlimits
  obtain ⟨rfl, rfl⟩ := of_parse_ok hrest
  refine ⟨?_, hnodes, hedges⟩
  have hall : nodes = .tabulate _ _ := hparsed.nodes
  dsimp only
  rw [hall]
  refine .tabulate (node_of_id libraries _) (node_of_label libraries _) hparsed.named ?_
  intro edge hedge
  rw [show edges = edges_of libraries _ from hparsed.edges] at hedge
  obtain ⟨values, hvalues, rfl⟩ := List.mem_map.mp hedge
  obtain ⟨hsource, htarget⟩ := mem_labels_of_linked hvalues
  exact ⟨values.src, hsource, values.dst, htarget, rfl, rfl⟩

theorem of_neighbors_ok {payload : Payload} {result : GraphSubgraph}
    (h : (normalize_real_neighbors config libraries payload).run.run s = (.ok result, s')) :
    Resolved libraries s' result.nodes result.edges ∧
      result.nodes.length ≤ config.max_nodes ∧ result.edges.length ≤ config.max_edges := by
  obtain ⟨text, s₁, -, h⟩ := of_run_bind_ok h
  split at h
  · cases h
    exact ⟨⟨fun _ h => (nomatch h), fun _ h => (nomatch h)⟩, Nat.zero_le _, Nat.zero_le _⟩
  dsimp only at h
  generalize removesuffix _ ":" = center at h
  obtain ⟨node, s₂, hcenter, h⟩ := of_run_bind_ok h
  obtain ⟨rfl, -, hnamed⟩ := of_neighbor_node_ok hcenter
  obtain ⟨⟨nodes, edges⟩, s₃, hlines, h⟩ := of_run_bind_ok h
  have hstart : Met libraries center [] ([(center, met_node libraries center)], []) s₂ :=
    ⟨rfl, rfl, fun label hlabel => by rwa [List.mem_singleton.mp hlabel]⟩
  have hmet := of_run_foldlM_ok (P := Met libraries center) hlines hstart
    fun _ _ _ _ _ _ hdone hline => hdone.step hline
  dsimp only at h
  obtain ⟨u, s₄, hlimits, hrest⟩ := of_run_bind_ok h
  obtain ⟨hnodes, hedges, rfl⟩ := of_validate_ok hlimits
  obtain ⟨rfl, rfl⟩ := of_parse_ok hrest
  refine ⟨?_, hnodes, hedges⟩
  have hall : nodes = .tabulate _ _ := hmet.nodes
  dsimp only
  rw [hall]
  refine .tabulate (fun _ => rfl) (fun _ => rfl) hmet.named ?_
  intro edge hedge
  rw [show edges = _ from hmet.edges] at hedge
  obtain ⟨values, hvalues, rfl⟩ := List.mem_map.mp hedge
  have hlabel : values.label ∈ met_labels center _ :=
    List.mem_cons_of_mem _ (List.mem_map_of_mem hvalues)
  unfold met_edge
  cases values.outgoing with
  | true => exact ⟨center, List.mem_cons_self, values.label, hlabel, rfl, rfl⟩
  | false => exact ⟨values.label, hlabel, center, List.mem_cons_self, rfl, rfl⟩

theorem of_node_ok {payload : Payload} {node : GraphNode}
    (h : (normalize_real_node libraries payload).run.run s = (.ok node, s')) :
    Resolved libraries s' [node] [] := by
  obtain ⟨text, s₁, -, h⟩ := of_run_bind_ok h
  obtain ⟨fields, s₂, -, h⟩ := of_run_bind_ok h
  dsimp only at h
  generalize strip ( removeprefix _ "Node: ") = label at h
  split at h
  · cases h
  obtain ⟨id, s₃, hregister, hrest⟩ := of_run_bind_ok h
  obtain ⟨rfl, hnamed⟩ := of_run_register_ok hregister
  cases hrest
  refine ⟨fun node hnode => ?_, fun _ h => (nomatch h)⟩
  rw [List.mem_singleton.mp hnode]
  exact ⟨rfl, hnamed⟩

/-- The identifiers of a path are those of labels. -/
theorem of_registers_ok {labels ids : List String}
    (h : (labels.mapM (register_native_label libraries)).run.run s = (.ok ids, s')) :
    ∀ id ∈ ids, ∃ label, id = node_id libraries label ∧ Named s' id label := by
  induction labels generalizing s ids with
  | nil =>
    cases h
    exact fun _ h => (nomatch h)
  | cons label labels ih =>
    rw [List.mapM_cons] at h
    obtain ⟨id, s₁, hregister, h⟩ := of_run_bind_ok h
    obtain ⟨rest, s₂, hlabels, hrest⟩ := of_run_bind_ok h
    obtain ⟨rfl, hnamed⟩ := of_run_register_ok hregister
    have hextends := Guarantees.mapM Extends.refl (fun _ _ _ => .trans)
      (@register_extends libraries) labels s₁
    rw [hlabels] at hextends
    cases hrest
    intro id hid
    cases List.mem_cons.mp hid with
    | inl hfirst =>
      rw [hfirst]
      exact ⟨strip label, rfl, hextends _ _ hnamed⟩
    | inr hlater => exact ih hlabels id hlater

theorem of_path_ok {payload : Payload} {path : GraphPath}
    (h : (normalize_real_path libraries payload).run.run s = (.ok path, s')) :
    ∀ id ∈ path.node_ids, ∃ label, id = node_id libraries label ∧ Named s' id label := by
  obtain ⟨text, s₁, -, h⟩ := of_run_bind_ok h
  split at h
  · cases h
  dsimp only at h
  split at h
  · cases h
  obtain ⟨ids, s₂, hids, hrest⟩ := of_run_bind_ok h
  cases hrest
  exact of_registers_ok hids

/-- The limits of the evidence. -/
def Result.Within (config : GraphifyMCPConfig) : Result → Prop
  | .search found =>
    found.nodes.length ≤ config.max_nodes ∧ found.edges.length ≤ config.max_edges
  | .neighbors found =>
    found.nodes.length ≤ config.max_nodes ∧ found.edges.length ≤ config.max_edges
  | .node _ | .path _ => True

/-- What holds of a result that the client has returned. -/
structure Answered (config : GraphifyMCPConfig) (libraries : Libraries) (s : ClientState)
    (result : Result) : Prop where
  resolved : Resolved libraries s result.nodes result.edges
  ids : ∀ id ∈ result.node_ids, ∃ label, id = node_id libraries label ∧ Named s id label
  within : result.Within config

theorem Resolved.ids {nodes : List GraphNode} {edges : List GraphEdge}
    (h : Resolved libraries s nodes edges) :
    ∀ id ∈ nodes.map (·.id), ∃ label, id = node_id libraries label ∧ Named s id label := by
  intro id hid
  obtain ⟨node, hnode, rfl⟩ := List.mem_map.mp hid
  exact ⟨strip node.label, h.named node hnode⟩

theorem of_map_ok {α β : Type} {m : Client α} {f : α → β} {b : β}
    (h : (f <$> m).run.run s = (.ok b, s')) : ∃ a, m.run.run s = (.ok a, s') ∧ b = f a := by
  rw [map_eq_pure_bind] at h
  obtain ⟨a, s₁, hm, hrest⟩ := of_run_bind_ok h
  cases hrest
  exact ⟨a, hm, rfl⟩

theorem of_normalize_ok {operation : Operation} {payload : Payload} {result : Result}
    (h : (normalize config libraries operation payload).run.run s = (.ok result, s')) :
    Answered config libraries s' result := by
  cases operation with
  | search query =>
    obtain ⟨found, hfound, rfl⟩ := of_map_ok h
    obtain ⟨hresolved, hwithin⟩ := of_search_ok hfound
    exact ⟨hresolved, hresolved.ids, hwithin⟩
  | get_node node_id =>
    obtain ⟨found, hfound, rfl⟩ := of_map_ok h
    have hresolved := of_node_ok hfound
    exact ⟨hresolved, hresolved.ids, trivial⟩
  | get_neighbors node_id depth =>
    obtain ⟨found, hfound, rfl⟩ := of_map_ok h
    obtain ⟨hresolved, hwithin⟩ := of_neighbors_ok hfound
    exact ⟨hresolved, hresolved.ids, hwithin⟩
  | shortest_path source target =>
    obtain ⟨found, hfound, rfl⟩ := of_map_ok h
    exact ⟨⟨fun _ h => (nomatch h), fun _ h => (nomatch h)⟩, of_path_ok hfound,
      trivial⟩

theorem of_perform_ok {server : ToolCall → ToolOutcome} {operation : Operation} {result : Result}
    (h : (perform config libraries server operation).run.run s = (.ok result, s')) :
    Answered config libraries s' result := by
  obtain ⟨call, s₁, -, h⟩ := of_run_bind_ok h
  obtain ⟨payload, s₂, -, h⟩ := of_run_bind_ok h
  exact of_normalize_ok h

section Requests

theorem strip_of_no_space {text : String} (h : ∀ c ∈ text.toList, is_space c = false) :
    strip text = text := by
  have hkept {l : List Char} (h : ∀ c ∈ l, is_space c = false) : l.dropWhile is_space = l := by
    cases l with
    | nil => rfl
    | cons c l => rw [List.dropWhile_cons, if_neg (by simp [h c List.mem_cons_self])]
  rw [strip, hkept h, hkept fun c hc => h c (List.mem_reverse.mp hc), List.reverse_reverse,
    String.ofList_toList]

theorem digit_no_space : ∀ n : Fin 16, is_space n.val.digitChar = false := by
  decide

theorem node_id_toList (libraries : Libraries) (label : String) :
    (node_id libraries label).toList = "graphify:".toList ++
      ((libraries.sha256 label).map fun n => n.val.digitChar).take 24 := by
  rw [node_id, short_digest, String.toList_append]
  exact congrArg (_ ++ ·) String.toList_ofList

/-- An identifier is not changed by `strip`. -/
theorem strip_node_id (libraries : Libraries) (label : String) :
    strip (node_id libraries label) = node_id libraries label := by
  apply strip_of_no_space
  intro c hc
  rw [node_id_toList, List.mem_append] at hc
  cases hc with
  | inl hopening =>
    have hall : "graphify:".toList.all fun c => !is_space c := by decide
    simpa using List.all_eq_true.mp hall c hopening
  | inr hdigit =>
    obtain ⟨n, -, rfl⟩ := List.mem_map.mp (List.mem_of_mem_take hdigit)
    exact digit_no_space n

theorem run_bounded_id {label : String} {maximum : Nat} (name : String)
    (hlength : (node_id libraries label).length ≤ maximum) :
    (bounded_text (node_id libraries label) name maximum).run.run s =
      (.ok (node_id libraries label), s) := by
  rw [bounded_text, strip_node_id, if_neg (node_id_ne_empty libraries label),
    if_neg (Nat.not_lt.mpr hlength)]
  rfl

theorem run_native_label {label : String} (h : Named s (node_id libraries label) label) :
    (native_label (node_id libraries label)).run.run s = (.ok label, s) := by
  have hstarts : text.startsWith (node_id libraries label) "graphify:" = true := by
    rw [text.startsWith, node_id_toList, List.isPrefixOf_iff_prefix]
    exact List.prefix_append _ _
  rw [native_label, if_neg (by rw [hstarts]; decide), run_bind_ok (run_get s)]
  rw [show s.native_labels.lookup (node_id libraries label) = some label from h]
  rfl

/-- What an identifier that is known asks the tools for. -/
theorem run_request {label : String} {depth : Nat} (h : Named s (node_id libraries label) label)
    (hlength : (node_id libraries label).length ≤ config.max_node_id_length) (hpositive : 1 ≤ depth)
    (hdepth : depth ≤ config.max_depth) :
    (request config (.get_node (node_id libraries label))).run.run s =
        (.ok (.get_node label config.project_path), s) ∧
      (request config (.get_neighbors (node_id libraries label) depth)).run.run s =
        (.ok (.get_neighbors label config.project_path), s) := by
  have hbounded := run_bounded_id (s := s) "node ID" hlength
  have hnative := run_native_label h
  constructor
  · rw [request, run_bind_ok hbounded, run_bind_ok hnative]
    rfl
  · rw [request, run_bind_ok hbounded, run_bind_ok hnative, if_neg (by omega)]
    rfl

end Requests

/-- An operation that is asked for, and what the server does then. -/
abbrev Asked : Type :=
  Operation × (ToolCall → ToolOutcome)

def turn (config : GraphifyMCPConfig) (libraries : Libraries) (s : ClientState) (asked : Asked) :
    Except Failure Result × ClientState :=
  (perform config libraries asked.2 asked.1).run.run s

/-- The results that a client has returned. -/
def answers (config : GraphifyMCPConfig) (libraries : Libraries)
    (trace : List (Transition ClientState Asked)) : List Result :=
  trace.filterMap fun e => (turn config libraries e.before e.label).1.toOption

theorem Answered.extends {result : Result} (h : Answered config libraries s result)
    (hextends : Extends s s') : Answered config libraries s' result where
  resolved :=
    { named := fun node hnode => ⟨(h.resolved.named node hnode).1,
        hextends _ _ (h.resolved.named node hnode).2⟩,
      closed := h.resolved.closed }
  ids id hid := by
    obtain ⟨label, hlabel, hnamed⟩ := h.ids id hid
    exact ⟨label, hlabel, hextends _ _ hnamed⟩
  within := h.within

/-- What has been returned holds on to the end of a session. -/
theorem session_answered {trace : List (Transition ClientState Asked)}
    (hrun : Run (fun a asked b => (turn config libraries a asked).2 = b) .initial trace s) :
    ∀ result ∈ answers config libraries trace, Answered config libraries s result := by
  induction hrun with
  | nil => exact fun _ h => (nomatch h)
  | @snoc before after trace asked _ hstep ih =>
    have hextends : Extends before after := hstep ▸ perform_extends asked.2 asked.1 before
    intro result hresult
    rw [answers, List.filterMap_append, List.mem_append] at hresult
    cases hresult with
    | inl hold => exact (ih result hold).extends hextends
    | inr hlast =>
      obtain ⟨e, he, hanswer⟩ := List.mem_filterMap.mp hlast
      rw [List.mem_singleton.mp he] at hanswer
      cases hturn : (turn config libraries before asked).1 with
      | error failure =>
        rw [hturn] at hanswer
        cases hanswer
      | ok found =>
        rw [hturn] at hanswer
        cases hanswer
        have hperform : (perform config libraries asked.2 asked.1).run.run before =
            (.ok result, after) := by
          rw [← hstep, ← hturn]
          rfl
        exact of_perform_ok hperform

/-- In a session nodes have the same identifier exactly when they have the same label; results are
closed and within the limits; and each identifier of a node that has been returned asks the tools
for its label. -/
theorem session_resolves {trace : List (Transition ClientState Asked)}
    (hrun : Run (fun a asked b => (turn config libraries a asked).2 = b) .initial trace s) :
    (∀ result ∈ answers config libraries trace, ∀ result' ∈ answers config libraries trace,
      ∀ node ∈ result.nodes, ∀ node' ∈ result'.nodes,
        node.id = node'.id ↔ strip node.label = strip node'.label) ∧
    (∀ result ∈ answers config libraries trace, result.Within config ∧
      ∀ edge ∈ result.edges, (∃ node ∈ result.nodes, node.id = edge.source_node_id) ∧
        ∃ node ∈ result.nodes, node.id = edge.target_node_id) ∧
    ∀ result ∈ answers config libraries trace, ∀ id ∈ result.node_ids,
      id.length ≤ config.max_node_id_length → ∃ label,
        (∀ node ∈ result.nodes, node.id = id → strip node.label = label) ∧
        ∀ depth, 1 ≤ depth → depth ≤ config.max_depth →
          (request config (.get_node id)).run.run s =
              (.ok (.get_node label config.project_path), s) ∧
            (request config (.get_neighbors id depth)).run.run s =
              (.ok (.get_neighbors label config.project_path), s) := by
  have hall := session_answered hrun
  refine ⟨?_, fun result hresult => ⟨(hall result hresult).within,
    (hall result hresult).resolved.closed⟩, ?_⟩
  · intro result hresult result' hresult' node hnode node' hnode'
    obtain ⟨hid, hnamed⟩ := (hall result hresult).resolved.named node hnode
    obtain ⟨hid', hnamed'⟩ := (hall result' hresult').resolved.named node' hnode'
    constructor
    · intro hsame
      rw [hsame] at hnamed
      exact Option.some.inj (hnamed.symm.trans hnamed')
    · intro hsame
      rw [hid, hid', hsame]
  · intro result hresult id hid hlength
    obtain ⟨label, rfl, hnamed⟩ := (hall result hresult).ids id hid
    refine ⟨label, fun node hnode hsame => ?_, fun depth hpositive hdepth =>
      run_request hnamed hlength hpositive hdepth⟩
    have hnode' := ((hall result hresult).resolved.named node hnode).2
    rw [hsame] at hnode'
    exact Option.some.inj (hnode'.symm.trans hnamed)

def of_hex (digest : String) : List (Fin 16) :=
  digest.toList.map fun c =>
    let value := if c.isDigit then c.toNat - '0'.toNat else c.toNat - 'a'.toNat + 10
    ⟨value % 16, Nat.mod_lt value (Nat.succ_pos 15)⟩

/-- The digests of the texts of `law_server`. -/
def law_digests (text : String) : List (Fin 16) :=
  of_hex
    (if text = "Law" then "b78c1618fd97827f459e04fc52a2c15e08c2c7c59f9d6091f4b2f17eb91634f9"
    else if text = "Code" then "340f463033e0fd5ddeabb922df4d4f1b5747494d0f5ed9894f13b6e13ca831f5"
    else if text = "Law:cites:Code" then
      "cc74480cbc4d1e42e0eca0fe02401a17ecef5664acc2b6cab3e21ff8432a24ae"
    else "660e7edbf16aa1299832e536a74a658f930d77f47247cfa9bdc68f3c09aa7f70")

def law_libraries : Libraries where
  sha256 := law_digests
  upper := String.toUpper
  loads_wide := fun _ => .error .decode_error

def law_config : GraphifyMCPConfig where
  project_path := "/graphs/law"
  max_tool_calls := 4
  max_depth := 2
  max_nodes := 10
  max_edges := 10
  max_evidence_bytes := 2000
  max_query_length := 200
  max_node_id_length := 200
  graph_version := none

/-- A law that cites a code. -/
def law_server : ToolCall → ToolOutcome
  | .search .. => .content (some
      [some "NODE Law [src=law.md loc=L1 community=2]\nEDGE Law --cites [EXTRACTED]--> Code"])
  | .get_neighbors .. => .content (some [some "Neighbors of Law:\n  --> Code [cites] [EXTRACTED]"])
  | .get_node .. | .shortest_path .. => .refused

/-- The law is found, and its neighbours by its identifier. -/
theorem session_resolves_law :
    ∃ trace s, Run (fun a asked b => (turn law_config law_libraries a asked).2 = b) .initial trace s ∧
      (answers law_config law_libraries trace).length = 2 ∧
        ∀ result ∈ answers law_config law_libraries trace, result.Within law_config := by
  let step (a : ClientState) (asked : Asked) (b : ClientState) : Prop :=
    (turn law_config law_libraries a asked).2 = b
  let search : Asked := (.search "law", law_server)
  let neighbors : Asked := (.get_neighbors (node_id law_libraries "Law") 1, law_server)
  let found := (turn law_config law_libraries .initial search).2
  let met := (turn law_config law_libraries found neighbors).2
  have hfound : Run step .initial [⟨.initial, search, found⟩] found := Run.nil.snoc rfl
  have hrun : Run step .initial [⟨.initial, search, found⟩, ⟨found, neighbors, met⟩] met :=
    hfound.snoc rfl
  refine ⟨_, _, hrun, by decide +kernel, fun result hresult => ?_⟩
  exact ((session_resolves hrun).2.1 result hresult).1

end lagraph.graphify
