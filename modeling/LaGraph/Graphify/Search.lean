import LaGraph.Graphify.Labels

open foundation foundation.Stateful
open lagraph.agent (GraphNode GraphEdge)
open lagraph.plsql (splitlines)

namespace lagraph.graphify

section

/-- What a line of a search says. -/
inductive SearchLine
  | node (values : NodeLine)
  | edge (values : EdgeLine)
  | other

def read_line (line : String) : SearchLine :=
  match node_pattern.captures line.toList with
  | some values => .node values
  | none =>
    match edge_pattern.captures line.toList with
    | some values => .edge values
    | none => .other

def SearchLine.labels : SearchLine → List String
  | .node values => [values.label]
  | .edge values => [values.src, values.dst]
  | .other => []

def SearchLine.listed : SearchLine → Option NodeLine
  | .node values => some values
  | .edge _ | .other => none

def SearchLine.linked : SearchLine → Option EdgeLine
  | .edge values => some values
  | .node _ | .other => none

/-- The labels that lines mention, in order. -/
def labels (lines : List String) : List String :=
  lines.flatMap fun line => (read_line line).labels

def listed_lines (lines : List String) : List NodeLine :=
  lines.filterMap fun line => (read_line line).listed

def linked_lines (lines : List String) : List EdgeLine :=
  lines.filterMap fun line => (read_line line).linked

/-- The node of a label: as the last line that lists it says. -/
def node_of (libraries : Libraries) (lines : List String) (label : String) : GraphNode :=
  let id := node_id libraries (strip label)
  match (listed_lines lines).reverse.find? (·.label = label) with
  | some values => listed_node id values
  | none => graphify_node id label

def nodes_of (libraries : Libraries) (lines : List String) : List GraphNode :=
  (labels lines).eraseDups.map (node_of libraries lines)

def edge_of (libraries : Libraries) (values : EdgeLine) : GraphEdge :=
  search_edge libraries (node_id libraries (strip values.src)) (node_id libraries (strip values.dst))
    values

def edges_of (libraries : Libraries) (lines : List String) : List GraphEdge :=
  (linked_lines lines).map (edge_of libraries)

/-- The client's labels and these have an identifier each. -/
def Consistent (libraries : Libraries) (s : ClientState) (labels : List String) : Prop :=
  ∀ label ∈ labels, Free libraries s label ∧
    ∀ other ∈ labels, node_id libraries (strip other) = node_id libraries (strip label) →
      strip other = strip label

/-- What a search comes to, from its text alone. -/
def search_outcome (config : GraphifyMCPConfig) (libraries : Libraries) (text : String) :
    Except Failure GraphSearchResult :=
  let lines := splitlines [] text.toList
  let nodes := nodes_of libraries lines
  let edges := edges_of libraries lines
  let truncated := decide (TRUNCATED.toList <:+: text.toList)
  if strip text = "" then
    .error (.GraphifyError .invalid_response "Graphify text result is empty")
  else if strip text = "No matching nodes found." then .ok .empty
  else if nodes = [] then
    .error (.GraphifyError .invalid_response "Graphify query response had no parseable nodes")
  else if config.max_nodes < nodes.length ∨ config.max_edges < edges.length then
    .error (.GraphifyError .limit_exceeded "Graph evidence exceeds configured limits")
  else
    .ok
      { nodes, edges, citations := nodes.map citation, graph_version := config.graph_version,
        truncated,
        warnings :=
          if truncated then ["Graphify truncated evidence to its token budget."] else [] }

section Lines

variable {config : GraphifyMCPConfig} {libraries : Libraries} {s s' : ClientState}
  {lines : List String} {line label : String} {found found' : Found}

theorem labels_concat (lines : List String) (line : String) :
    labels (lines ++ [line]) = labels lines ++ (read_line line).labels := by
  rw [labels, List.flatMap_append, List.flatMap_singleton, labels]

theorem listed_lines_concat (lines : List String) (line : String) :
    listed_lines (lines ++ [line]) = listed_lines lines ++ (read_line line).listed.toList := by
  rw [listed_lines, List.filterMap_append, listed_lines]
  congr 1

theorem linked_lines_concat (lines : List String) (line : String) :
    linked_lines (lines ++ [line]) = linked_lines lines ++ (read_line line).linked.toList := by
  rw [linked_lines, List.filterMap_append, linked_lines]
  congr 1

theorem edges_of_concat (libraries : Libraries) (lines : List String) (line : String) :
    edges_of libraries (lines ++ [line]) =
      edges_of libraries lines ++ (read_line line).linked.toList.map (edge_of libraries) := by
  rw [edges_of, linked_lines_concat, List.map_append, edges_of]

theorem mem_labels_of_listed {values : NodeLine} (h : values ∈ listed_lines lines) :
    values.label ∈ labels lines := by
  obtain ⟨line, hline, hvalues⟩ := List.mem_filterMap.mp h
  rw [labels, List.mem_flatMap]
  refine ⟨line, hline, ?_⟩
  cases hread : read_line line with
  | node found =>
    rw [hread] at hvalues
    cases hvalues
    exact List.mem_singleton.mpr rfl
  | edge found =>
    rw [hread] at hvalues
    cases hvalues
  | other =>
    rw [hread] at hvalues
    cases hvalues

theorem label_of_found {values : NodeLine}
    (h : (listed_lines lines).reverse.find? (·.label = label) = some values) :
    values.label = label := by
  have hfound := List.find?_some h
  exact of_decide_eq_true hfound

theorem node_of_id (libraries : Libraries) (lines : List String) (label : String) :
    (node_of libraries lines label).id = node_id libraries (strip label) := by
  unfold node_of
  dsimp only
  split
  · rfl
  · rfl

theorem node_of_label (libraries : Libraries) (lines : List String) (label : String) :
    (node_of libraries lines label).label = label := by
  unfold node_of
  dsimp only
  split
  · rename_i values hfound
    exact label_of_found hfound
  · rfl

/-- A label that no line mentions has no listed node. -/
theorem node_of_unmentioned (h : label ∉ labels lines) :
    node_of libraries lines label = graphify_node (node_id libraries (strip label)) label := by
  unfold node_of
  dsimp only
  split
  · rename_i values hfound
    have hmem := mem_labels_of_listed (List.mem_reverse.mp (List.mem_of_find?_eq_some hfound))
    rw [label_of_found hfound] at hmem
    exact absurd hmem h
  · rfl

theorem node_of_concat_listed {values : NodeLine} (h : read_line line = .node values) :
    node_of libraries (lines ++ [line]) label =
      if values.label = label then listed_node (node_id libraries (strip label)) values
      else node_of libraries lines label := by
  rw [node_of, listed_lines_concat, h, SearchLine.listed, Option.toList_some, List.reverse_append,
    List.reverse_singleton, List.singleton_append, List.find?_cons]
  by_cases hlabel : values.label = label
  · rw [if_pos hlabel, decide_eq_true hlabel]
  · rw [if_neg hlabel, decide_eq_false hlabel, node_of]

theorem node_of_concat (h : (read_line line).listed = none) :
    node_of libraries (lines ++ [line]) = node_of libraries lines := by
  funext label
  rw [node_of, listed_lines_concat, h, Option.toList_none, List.append_nil, node_of]

/-- What has been read of a search. -/
structure Parsed (libraries : Libraries) (lines : List String) (found : Found) (s : ClientState) :
    Prop where
  nodes : found.1 = .tabulate (labels lines) (node_of libraries lines)
  edges : found.2 = edges_of libraries lines
  named : ∀ label ∈ labels lines, Named s (node_id libraries (strip label)) (strip label)

theorem Parsed.nil (libraries : Libraries) (s : ClientState) : Parsed libraries [] ([], []) s :=
  ⟨rfl, rfl, fun _ h => absurd h List.not_mem_nil⟩

/-- The node that an edge mentions, and the nodes with it. -/
theorem of_mention_ok {nodes : Dictionary String GraphNode}
    {r : GraphNode × Dictionary String GraphNode}
    (h : (mention libraries nodes label).run.run s = (.ok r, s')) :
    r.1 = (nodes.lookup label).getD (graphify_node (node_id libraries (strip label)) label) ∧
      r.2 = nodes.setdefault label (graphify_node (node_id libraries (strip label)) label) ∧
      Named s' (node_id libraries (strip label)) (strip label) := by
  obtain ⟨id, s₁, hregister, hrest⟩ := of_run_bind_ok h
  obtain ⟨rfl, hnamed⟩ := of_run_register_ok hregister
  cases hrest
  exact ⟨rfl, rfl, hnamed⟩

/-- One label more is mentioned. -/
theorem mention_tabulate {keys : List String}
    (hother : label ∉ keys →
      node_of libraries lines label = graphify_node (node_id libraries (strip label)) label) :
    ((Dictionary.tabulate keys (node_of libraries lines)).lookup label).getD
        (graphify_node (node_id libraries (strip label)) label) = node_of libraries lines label ∧
      (Dictionary.tabulate keys (node_of libraries lines)).setdefault label
        (graphify_node (node_id libraries (strip label)) label) =
          .tabulate (keys ++ [label]) (node_of libraries lines) := by
  refine ⟨?_, Dictionary.setdefault_tabulate hother⟩
  rw [Dictionary.lookup_tabulate]
  by_cases hmem : label ∈ keys
  · rw [if_pos hmem, Option.getD_some]
  · rw [if_neg hmem, Option.getD_none, hother hmem]

/-- A line that lists a node. -/
theorem Parsed.listed {values : NodeLine} (h : Parsed libraries lines found s)
    (hextends : Extends s s') (hread : read_line line = .node values)
    (hnamed : Named s' (node_id libraries (strip values.label)) (strip values.label)) :
    Parsed libraries (lines ++ [line])
      (found.1.put values.label (listed_node (node_id libraries (strip values.label)) values),
        found.2) s' where
  nodes := by
    rw [h.nodes, labels_concat, hread, SearchLine.labels]
    apply Dictionary.put_tabulate
    · rw [node_of_concat_listed hread, if_pos rfl]
    · intro label _ hne
      rw [node_of_concat_listed hread, if_neg (Ne.symm hne)]
  edges := by
    rw [edges_of_concat, hread, h.edges, SearchLine.linked, Option.toList_none, List.map_nil,
      List.append_nil]
  named label hlabel := by
    rw [labels_concat, hread, SearchLine.labels, List.mem_append, List.mem_singleton] at hlabel
    obtain hold | rfl := hlabel
    · exact hextends _ _ (h.named label hold)
    · exact hnamed

/-- A line with an edge. -/
theorem Parsed.linked {values : EdgeLine} {source target : GraphNode}
    {nodes nodes' : Dictionary String GraphNode} (h : Parsed libraries lines found s)
    (hextends : Extends s s') (hread : read_line line = .edge values)
    (hsource : source = (found.1.lookup values.src).getD
      (graphify_node (node_id libraries (strip values.src)) values.src))
    (hnodes : nodes = found.1.setdefault values.src
      (graphify_node (node_id libraries (strip values.src)) values.src))
    (htarget : target = (nodes.lookup values.dst).getD
      (graphify_node (node_id libraries (strip values.dst)) values.dst))
    (hnodes' : nodes' = nodes.setdefault values.dst
      (graphify_node (node_id libraries (strip values.dst)) values.dst))
    (hnamed : ∀ label ∈ [values.src, values.dst],
      Named s' (node_id libraries (strip label)) (strip label)) :
    Parsed libraries (lines ++ [line])
      (nodes', found.2 ++ [search_edge libraries source.id target.id values]) s' := by
  have hlisted : (read_line line).listed = none := by rw [hread, SearchLine.listed]
  obtain ⟨hsource', hkeys⟩ := @mention_tabulate libraries lines values.src (labels lines)
    node_of_unmentioned
  obtain ⟨htarget', hkeys'⟩ := @mention_tabulate libraries lines values.dst
    (labels lines ++ [values.src]) fun hlabel =>
      node_of_unmentioned fun hmem => hlabel (List.mem_append_left _ hmem)
  rw [h.nodes] at hsource hnodes
  rw [hkeys] at hnodes
  rw [hnodes] at htarget hnodes'
  rw [hkeys', List.append_assoc] at hnodes'
  refine ⟨?_, ?_, ?_⟩
  · rw [hnodes', labels_concat, hread, node_of_concat hlisted]
    rfl
  · rw [edges_of_concat, hread, h.edges, hsource, hsource', htarget, htarget', node_of_id,
      node_of_id]
    rfl
  · intro label hlabel
    rw [labels_concat, hread, List.mem_append] at hlabel
    cases hlabel with
    | inl hold => exact hextends _ _ (h.named label hold)
    | inr hnew => exact hnamed label hnew

theorem Parsed.passed (h : Parsed libraries lines found s) (hread : read_line line = .other) :
    Parsed libraries (lines ++ [line]) found s where
  nodes := by
    have hlisted : (read_line line).listed = none := by rw [hread, SearchLine.listed]
    rw [h.nodes, labels_concat, hread, node_of_concat hlisted, SearchLine.labels, List.append_nil]
  edges := by
    rw [edges_of_concat, hread, h.edges, SearchLine.linked, Option.toList_none, List.map_nil,
      List.append_nil]
  named label hlabel := by
    rw [labels_concat, hread, SearchLine.labels, List.append_nil] at hlabel
    exact h.named label hlabel

theorem Parsed.step (h : Parsed libraries lines found s)
    (hrun : (search_line libraries found line).run.run s = (.ok found', s')) :
    Parsed libraries (lines ++ [line]) found' s' := by
  have hextends : Extends s s' := by
    have hline := @search_line_extends libraries found line s
    rw [hrun] at hline
    exact hline
  unfold search_line at hrun
  cases hnode : node_pattern.captures line.toList with
  | some values =>
    have hread : read_line line = .node values := by rw [read_line, hnode]
    rw [hnode] at hrun
    obtain ⟨id, s₁, hregister, hrest⟩ := of_run_bind_ok hrun
    obtain ⟨rfl, hnamed⟩ := of_run_register_ok hregister
    cases hrest
    exact h.listed hextends hread hnamed
  | none =>
    rw [hnode] at hrun
    dsimp only at hrun
    cases hedge : edge_pattern.captures line.toList with
    | some values =>
      have hread : read_line line = .edge values := by rw [read_line, hnode, hedge]
      rw [hedge] at hrun
      obtain ⟨⟨source, nodes⟩, s₁, hfirst, hrun⟩ := of_run_bind_ok hrun
      obtain ⟨⟨target, nodes'⟩, s₂, hsecond, hrest⟩ := of_run_bind_ok hrun
      obtain ⟨hsource, hnodes, hnamed⟩ := of_mention_ok hfirst
      obtain ⟨htarget, hnodes', hnamed'⟩ := of_mention_ok hsecond
      have hlast := @mention_extends libraries nodes values.dst s₁
      rw [hsecond] at hlast
      cases hrest
      refine h.linked hextends hread hsource hnodes htarget hnodes' ?_
      rw [List.forall_mem_cons, List.forall_mem_singleton]
      exact ⟨hlast _ _ hnamed, hnamed'⟩
    | none =>
      rw [hedge] at hrun
      cases hrun
      exact h.passed (by rw [read_line, hnode, hedge])

theorem run_mention (h : Free libraries s label) (nodes : Dictionary String GraphNode) :
    ∃ r, (mention libraries nodes label).run.run s = (.ok r, registered libraries s label) := by
  rw [mention, run_bind_ok (run_register h)]
  exact ⟨_, rfl⟩

/-- The labels registered are those of a state and the ones given. -/
def Registers (libraries : Libraries) (given : List String) (s s' : ClientState) : Prop :=
  ∀ id label, Named s' id label →
    Named s id label ∨ ∃ l ∈ given, id = node_id libraries (strip l) ∧ label = strip l

theorem registers_registered (s : ClientState) (label : String) :
    Registers libraries [label] s (registered libraries s label) := by
  intro id other hnamed
  rw [named_registered] at hnamed
  split at hnamed
  · rename_i hid
    exact Or.inr ⟨label, List.mem_singleton.mpr rfl, hid, hnamed⟩
  · exact Or.inl hnamed

theorem Registers.trans {given given' : List String} {s'' : ClientState}
    (h : Registers libraries given s s') (h' : Registers libraries given' s' s'') :
    Registers libraries (given ++ given') s s'' := by
  intro id label hnamed
  obtain hnamed | ⟨l, hl, hname⟩ := h' id label hnamed
  · obtain hnamed | ⟨l, hl, hname⟩ := h id label hnamed
    · exact Or.inl hnamed
    · exact Or.inr ⟨l, List.mem_append_left _ hl, hname⟩
  · exact Or.inr ⟨l, List.mem_append_right _ hl, hname⟩

/-- A label of a consistent list stays free while labels of the list are registered. -/
theorem Consistent.free {given all : List String} (h : Consistent libraries s all)
    (hgiven : ∀ l ∈ given, l ∈ all) (hregisters : Registers libraries given s s')
    (hlabel : label ∈ all) : Free libraries s' label := by
  intro other hnamed
  obtain hnamed | ⟨l, hl, hid, rfl⟩ := hregisters _ _ hnamed
  · exact (h label hlabel).1 other hnamed
  · exact (h label hlabel).2 l (hgiven l hl) hid.symm

/-- A line whose labels are free is read. -/
theorem run_search_line {all done : List String} {s₀ : ClientState}
    (h : Consistent libraries s₀ all) (hdone : ∀ l ∈ done, l ∈ all)
    (hline : ∀ l ∈ (read_line line).labels, l ∈ all) (hregisters : Registers libraries done s₀ s) :
    ∃ found' s', (search_line libraries found line).run.run s = (.ok found', s') ∧
      Registers libraries (done ++ (read_line line).labels) s₀ s' := by
  unfold search_line
  cases hnode : node_pattern.captures line.toList with
  | some values =>
    have hread : read_line line = .node values := by rw [read_line, hnode]
    rw [hread] at hline ⊢
    have hfree := h.free hdone hregisters (hline values.label List.mem_cons_self)
    dsimp only
    rw [run_bind_ok (run_register hfree)]
    exact ⟨_, _, rfl, hregisters.trans (registers_registered _ _)⟩
  | none =>
    dsimp only
    cases hedge : edge_pattern.captures line.toList with
    | some values =>
      have hread : read_line line = .edge values := by rw [read_line, hnode, hedge]
      rw [hread] at hline ⊢
      rw [SearchLine.labels, List.forall_mem_cons, List.forall_mem_singleton] at hline
      have hfree := h.free hdone hregisters hline.1
      have hfirst := hregisters.trans (@registers_registered libraries s values.src)
      have hfree' := h.free (List.forall_mem_append.mpr ⟨hdone, List.forall_mem_singleton.mpr
        hline.1⟩) hfirst hline.2
      have hsecond := hfirst.trans
        (@registers_registered libraries (registered libraries s values.src) values.dst)
      obtain ⟨r, hr⟩ := run_mention hfree found.1
      obtain ⟨r', hr'⟩ := run_mention hfree' r.2
      dsimp only
      rw [run_bind_ok hr, run_bind_ok hr']
      rw [List.append_assoc] at hsecond
      exact ⟨_, _, rfl, hsecond⟩
    | none =>
      have hread : read_line line = .other := by rw [read_line, hnode, hedge]
      rw [hread, SearchLine.labels, List.append_nil]
      exact ⟨_, _, rfl, hregisters⟩

/-- Lines whose labels are consistent are all read. -/
theorem run_search_lines (h : Consistent libraries s (labels lines)) :
    ∃ found s', (lines.foldlM (search_line libraries) ([], [])).run.run s = (.ok found, s') ∧
      Parsed libraries lines found s' := by
  obtain ⟨found, s', hrun, hparsed, -⟩ := @run_foldlM_ok _ _ _ _ s (search_line libraries)
    (fun done found s' => Parsed libraries done found s' ∧ Registers libraries (labels done) s s')
    lines ([], []) ⟨.nil libraries s, fun _ _ hnamed => Or.inl hnamed⟩ (by
      intro done line rest found s₁ hlines hdone
      have hall : labels lines = labels done ++ ((read_line line).labels ++ labels rest) := by
        rw [hlines, labels, List.flatMap_append, List.flatMap_cons]
        rfl
      obtain ⟨found', s₂, hrun, hregisters⟩ := @run_search_line libraries s₁ line found
        (labels lines) (labels done) s h
        (fun l hl => hall ▸ List.mem_append_left _ hl)
        (fun l hl => hall ▸ List.mem_append_right _ (List.mem_append_left _ hl)) hdone.2
      rw [← labels_concat] at hregisters
      exact ⟨found', s₂, hrun, hdone.1.step hrun, hregisters⟩)
  exact ⟨found, s', hrun, hparsed⟩

theorem of_search_line_error {failure : Failure}
    (h : (search_line libraries found line).run.run s = (.error failure, s')) :
    failure = collision := by
  have hmention {nodes : Dictionary String GraphNode} {label : String} {s s' : ClientState}
      (h : (mention libraries nodes label).run.run s = (.error failure, s')) :
      failure = collision := by
    obtain h | ⟨_, _, -, h⟩ := of_run_bind_error h
    · exact of_run_register_error h
    · cases h
  unfold search_line at h
  split at h
  · obtain h | ⟨_, _, -, h⟩ := of_run_bind_error h
    · exact of_run_register_error h
    · cases h
  · split at h
    · obtain h | ⟨_, _, -, h⟩ := of_run_bind_error h
      · exact hmention h
      · obtain h | ⟨_, _, -, h⟩ := of_run_bind_error h
        · exact hmention h
        · cases h
    · cases h

/-- Lines with labels that are not consistent are not read to their end. -/
theorem run_search_lines_collision (h : ¬Consistent libraries s (labels lines)) :
    ∃ s', (lines.foldlM (search_line libraries) ([], [])).run.run s = (.error collision, s') := by
  rcases hrun : (lines.foldlM (search_line libraries) ([], [])).run.run s with ⟨failure | found, s'⟩
  · have hfailure : failure = collision :=
      of_run_foldlM_error (fun _ _ _ _ _ => of_search_line_error) hrun
    exact ⟨s', by rw [hfailure]⟩
  · refine absurd ?_ h
    have hparsed := of_run_foldlM_ok (P := Parsed libraries) hrun (.nil libraries s)
      fun _ _ _ _ _ _ hdone hline => hdone.step hline
    have hextends := Guarantees.foldlM Extends.refl (fun _ _ _ => .trans)
      (@search_line_extends libraries) lines ([], []) s
    rw [hrun] at hextends
    intro label hlabel
    refine ⟨fun other hother => ?_, fun other hother hid => ?_⟩
    · exact Option.some.inj ((hextends _ _ hother).symm.trans (hparsed.named label hlabel))
    · have hnamed := hparsed.named other hother
      rw [hid] at hnamed
      exact Option.some.inj (hnamed.symm.trans (hparsed.named label hlabel))

end Lines

section Results

variable {config : GraphifyMCPConfig} {libraries : Libraries} {s : ClientState}
  {lines : List String} {line label : String}

theorem ofList_ne_empty {s : List Char} (h : s ≠ []) : String.ofList s ≠ "" := by
  rw [ne_eq, ← String.toList_inj, String.toList_ofList]
  exact h

theorem node_label_ne_empty : node_pattern.Always (·.label ≠ "") :=
  .bind fun _ => .bind_of (Pattern.always_after _ _) fun _ hlabel => .bind fun _ => .bind fun _ =>
    .bind fun _ => .bind fun _ => .bind fun _ => .bind fun _ => .bind fun _ => .bind fun _ =>
      .pure (ofList_ne_empty hlabel)

theorem edge_labels_ne_empty :
    edge_pattern.Always fun values => values.src ≠ "" ∧ values.dst ≠ "" :=
  .bind fun _ => .bind_of (Pattern.always_after _ _) fun _ hsrc => .bind fun _ => .bind fun _ =>
    .bind fun _ => .bind fun _ => .bind fun _ => .bind fun _ =>
      .bind_of (Pattern.always_after _ _) fun _ hdst => .bind fun _ =>
        .pure ⟨ofList_ne_empty hsrc, ofList_ne_empty hdst⟩

theorem label_ne_empty (h : label ∈ labels lines) : label ≠ "" := by
  obtain ⟨line, -, hlabel⟩ := List.mem_flatMap.mp h
  unfold read_line at hlabel
  split at hlabel
  · rename_i values hnode
    rw [List.mem_singleton.mp hlabel]
    exact node_label_ne_empty.captures hnode
  · split at hlabel
    · rename_i values hedge
      obtain ⟨hsrc, hdst⟩ := edge_labels_ne_empty.captures hedge
      cases List.mem_cons.mp hlabel with
      | inl hfirst =>
        rw [hfirst]
        exact hsrc
      | inr hrest =>
        rw [List.mem_singleton.mp hrest]
        exact hdst
    · cases hlabel

theorem real_text_of_text {text : String} (h : strip text ≠ "") :
    (real_text (.text text)).run.run s = (.ok text, s) := by
  have hfilter : (Payload.text_of (.text text)).filter (strip · ≠ "") = some text := by
    simp [Payload.text_of, h]
  rw [real_text, hfilter]
  rfl

theorem real_text_blank {text : String} (h : strip text = "") :
    (real_text (.text text)).run.run s =
      (.error (.GraphifyError .invalid_response "Graphify text result is empty"), s) := by
  have hfilter : (Payload.text_of (.text text)).filter (strip · ≠ "") = none := by
    simp [Payload.text_of, h]
  rw [real_text, hfilter]
  rfl

theorem values_tabulate (keys : List String) (g : String → GraphNode) :
    (Dictionary.tabulate keys g).map (·.2) = keys.eraseDups.map g := by
  rw [Dictionary.tabulate, List.map_map]
  rfl

theorem node_id_ne_empty (libraries : Libraries) (label : String) :
    node_id libraries label ≠ "" := by
  intro h
  have hlist := congrArg String.toList h
  rw [node_id, String.toList_append] at hlist
  cases hlist

theorem text_or_ne_empty {value fallback : String} (h : fallback ≠ "") :
    text_or value fallback ≠ "" := by
  rw [text_or]
  split
  · exact h
  · assumption

theorem node_of_valid (h : label ≠ "") : (node_of libraries lines label).id ≠ "" ∧
    (node_of libraries lines label).label ≠ "" ∧ (node_of libraries lines label).type ≠ "" ∧
      (node_of libraries lines label).source.getD "" ≠ "" := by
  have htype : "graphify_node" ≠ "" := by decide
  have hsource : "Graphify knowledge graph" ≠ "" := by decide
  rw [node_of_id, node_of_label]
  refine ⟨node_id_ne_empty _ _, h, ?_⟩
  unfold node_of
  dsimp only
  split
  · exact ⟨htype, text_or_ne_empty hsource⟩
  · exact ⟨htype, hsource⟩

theorem edge_of_valid (values : EdgeLine) : (edge_of libraries values).id ≠ "" ∧
    (edge_of libraries values).source_node_id ≠ "" ∧
      (edge_of libraries values).target_node_id ≠ "" ∧
        (edge_of libraries values).relationship ≠ "" := by
  refine ⟨fun h => ?_, node_id_ne_empty _ _, node_id_ne_empty _ _, text_or_ne_empty (by decide)⟩
  have hlist := congrArg String.toList h
  rw [edge_of, search_edge, String.toList_append] at hlist
  cases hlist

/-- The model of the results accepts what is read of lines. -/
theorem search_result_valid (lines : List String) (graph_version : Option String)
    (truncated : Bool) (warnings : List String) :
    GraphSearchResult.valid
      { nodes := nodes_of libraries lines, edges := edges_of libraries lines,
        citations := (nodes_of libraries lines).map citation, graph_version, truncated,
        warnings } = true := by
  have hnodes (node : GraphNode) (hnode : node ∈ nodes_of libraries lines) :
      ∃ label, label ≠ "" ∧ node = node_of libraries lines label := by
    obtain ⟨label, hlabel, rfl⟩ := List.mem_map.mp hnode
    exact ⟨label, label_ne_empty (List.mem_eraseDups.mp hlabel), rfl⟩
  rw [GraphSearchResult.valid, GraphSubgraph.valid, Bool.and_eq_true, Bool.and_eq_true,
    List.all_eq_true, List.all_eq_true, List.all_eq_true]
  refine ⟨⟨fun node hnode => ?_, fun edge hedge => ?_⟩, fun item hitem => ?_⟩
  · obtain ⟨label, hlabel, rfl⟩ := hnodes node hnode
    obtain ⟨hid, hname, htype, -⟩ := @node_of_valid libraries lines label hlabel
    simp [hid, hname, htype]
  · obtain ⟨values, -, rfl⟩ := List.mem_map.mp hedge
    obtain ⟨hid, hsource, htarget, hrelationship⟩ := @edge_of_valid libraries values
    simp [hid, hsource, htarget, hrelationship]
  · obtain ⟨node, hnode, rfl⟩ := List.mem_map.mp hitem
    obtain ⟨label, hlabel, rfl⟩ := hnodes node hnode
    obtain ⟨-, hname, -, hsource⟩ := @node_of_valid libraries lines label hlabel
    have hid : "node:" ++ (node_of libraries lines label).id ≠ "" := by
      intro h
      have hlist := congrArg String.toList h
      rw [String.toList_append] at hlist
      cases hlist
    simp [citation, hid, hname, hsource]

theorem run_normalize_search (config : GraphifyMCPConfig) {text : String}
    (h : Consistent libraries s (labels (splitlines [] text.toList))) :
    ((normalize_real_search config libraries (.text text)).run.run s).1 =
      search_outcome config libraries text := by
  unfold search_outcome
  dsimp only
  by_cases hblank : strip text = ""
  · rw [if_pos hblank, normalize_real_search, run_bind_error (real_text_blank hblank)]
  rw [if_neg hblank, normalize_real_search, run_bind_ok (real_text_of_text hblank)]
  by_cases hnone : strip text = "No matching nodes found."
  · rw [if_pos hnone, if_pos hnone]
    rfl
  obtain ⟨⟨nodes, edges⟩, s', hrun, hparsed⟩ := run_search_lines h
  have hnodes : nodes.map (·.2) = nodes_of libraries (splitlines [] text.toList) := by
    have hnodes := hparsed.nodes
    dsimp only at hnodes
    rw [hnodes, values_tabulate, nodes_of]
  have hedges : edges = edges_of libraries (splitlines [] text.toList) := hparsed.edges
  have hempty : nodes = [] ↔ nodes_of libraries (splitlines [] text.toList) = [] := by
    rw [← hnodes, List.map_eq_nil_iff]
  rw [if_neg hnone, if_neg hnone, run_bind_ok hrun]
  dsimp only
  rw [hnodes, hedges, if_congr hempty rfl rfl]
  by_cases hno : nodes_of libraries (splitlines [] text.toList) = []
  · rw [if_pos hno, if_pos hno]
    rfl
  rw [if_neg hno, if_neg hno, validate_graph_limits]
  split
  · rfl
  · rw [parse, search_result_valid, if_pos rfl]
    rfl

/-- A search comes to what its text alone says while its labels and those registered have an
identifier each; it is refused otherwise. -/
theorem normalize_real_search_outcome (config : GraphifyMCPConfig) (libraries : Libraries)
    (text : String) (s : ClientState) :
    (Consistent libraries s (labels (splitlines [] text.toList)) →
      ((normalize_real_search config libraries (.text text)).run.run s).1 =
        search_outcome config libraries text) ∧
    (¬Consistent libraries s (labels (splitlines [] text.toList)) → strip text ≠ "" →
      strip text ≠ "No matching nodes found." →
        ((normalize_real_search config libraries (.text text)).run.run s).1 = .error collision) := by
  refine ⟨run_normalize_search config, fun h hblank hnone => ?_⟩
  obtain ⟨s', hrun⟩ := run_search_lines_collision h
  rw [normalize_real_search, run_bind_ok (real_text_of_text hblank), if_neg hnone,
    run_bind_error hrun]

end Results

end

def neighbor_lines (lines : List String) : List NeighborLine :=
  lines.filterMap fun line => neighbor_pattern.captures line.toList

/-- The labels of the center and its neighbours, in order. -/
def met_labels (center : String) (lines : List String) : List String :=
  center :: (neighbor_lines lines).map (·.label)

def met_node (libraries : Libraries) (label : String) : GraphNode :=
  graphify_node (node_id libraries (strip label)) label

def met_edge (libraries : Libraries) (center : String) (values : NeighborLine) : GraphEdge :=
  let source := if values.outgoing then center else values.label
  let target := if values.outgoing then values.label else center
  { id := node_id libraries (source ++ ":" ++ values.rel ++ ":" ++ target),
    source_node_id := node_id libraries (strip source),
    target_node_id := node_id libraries (strip target),
    relationship := text_or values.rel "related_to",
    properties := [("confidence", .str values.confidence)], provenance := .unknown }

variable {config : GraphifyMCPConfig} {libraries : Libraries} {s s' : ClientState}
  {lines : List String} {line label center : String} {found found' : Found}

/-- What has been read of a center's neighbours. -/
structure Met (libraries : Libraries) (center : String) (lines : List String) (found : Found)
    (s : ClientState) : Prop where
  nodes : found.1 = .tabulate (met_labels center lines) (met_node libraries)
  edges : found.2 = (neighbor_lines lines).map (met_edge libraries center)
  named : ∀ label ∈ met_labels center lines, Named s (node_id libraries (strip label)) (strip label)

theorem neighbor_lines_concat (lines : List String) (line : String) :
    neighbor_lines (lines ++ [line]) =
      neighbor_lines lines ++ (neighbor_pattern.captures line.toList).toList := by
  rw [neighbor_lines, List.filterMap_append, neighbor_lines]
  congr 1

theorem of_neighbor_node_ok {node : GraphNode}
    (h : (neighbor_node libraries label).run.run s = (.ok node, s')) :
    node = met_node libraries label ∧ label ≠ "" ∧
      Named s' (node_id libraries (strip label)) (strip label) := by
  obtain ⟨id, s₁, hregister, hrest⟩ := of_run_bind_ok h
  obtain ⟨rfl, hnamed⟩ := of_run_register_ok hregister
  split at hrest
  · cases hrest
  · rename_i hlabel
    cases hrest
    exact ⟨rfl, hlabel, hnamed⟩

/-- An edge between labels that have been met. -/
theorem neighbor_edge_met {keys : List String} {values : NeighborLine} (hcenter : center ∈ keys)
    (hlabel : values.label ∈ keys) :
    neighbor_edge libraries center values (.tabulate keys (met_node libraries)) =
      met_edge libraries center values := by
  have hlookup {label : String} (h : label ∈ keys) :
      ((Dictionary.tabulate keys (met_node libraries)).lookup label).elim "" (·.id) =
        node_id libraries (strip label) := by
    rw [Dictionary.lookup_tabulate, if_pos h]
    rfl
  unfold neighbor_edge met_edge
  cases values.outgoing with
  | true => simp only [if_true, hlookup hcenter, hlookup hlabel]
  | false => simp only [Bool.false_eq_true, if_false, hlookup hcenter, hlookup hlabel]

theorem Met.step (h : Met libraries center lines found s)
    (hrun : (neighbor_line libraries center found line).run.run s = (.ok found', s')) :
    Met libraries center (lines ++ [line]) found' s' := by
  have hextends : Extends s s' := by
    have hline := @neighbor_line_extends libraries center found line s
    rw [hrun] at hline
    exact hline
  unfold neighbor_line at hrun
  cases hvalues : neighbor_pattern.captures line.toList with
  | none =>
    rw [hvalues] at hrun
    cases hrun
    have hlines : neighbor_lines (lines ++ [line]) = neighbor_lines lines := by
      rw [neighbor_lines_concat, hvalues, Option.toList_none, List.append_nil]
    refine ⟨?_, ?_, ?_⟩
    · rw [met_labels, hlines]
      exact h.nodes
    · rw [hlines]
      exact h.edges
    · rw [met_labels, hlines]
      exact h.named
  | some values =>
    rw [hvalues] at hrun
    obtain ⟨node, s₁, hnode, hrest⟩ := of_run_bind_ok hrun
    obtain ⟨rfl, -, hnamed⟩ := of_neighbor_node_ok hnode
    have hlabels : met_labels center (lines ++ [line]) = met_labels center lines ++ [values.label] := by
      rw [met_labels, neighbor_lines_concat, hvalues, List.map_append]
      rfl
    have hnodes : found.1.put values.label (met_node libraries values.label) =
        .tabulate (met_labels center (lines ++ [line])) (met_node libraries) := by
      rw [hlabels, h.nodes]
      exact Dictionary.put_tabulate rfl fun _ _ _ => rfl
    cases hrest
    refine ⟨hnodes, ?_, fun label hlabel => ?_⟩
    · dsimp only
      rw [hnodes, neighbor_edge_met, h.edges, neighbor_lines_concat, hvalues, List.map_append]
      · rfl
      · exact List.mem_cons_self
      · rw [hlabels]
        exact List.mem_append_right _ (List.mem_singleton_self _)
    · rw [hlabels, List.mem_append, List.mem_singleton] at hlabel
      obtain hold | rfl := hlabel
      · exact hextends _ _ (h.named label hold)
      · exact hnamed

end lagraph.graphify
