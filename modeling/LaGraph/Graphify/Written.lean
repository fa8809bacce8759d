import LaGraph.Foundation.Duplicates
import LaGraph.Graphify.Sessions
import LaGraph.Plsql.Source.Lines

open foundation foundation.Pattern foundation.duplicates
open lagraph.agent (GraphNode GraphEdge)
open lagraph.plsql (splitlines)

namespace lagraph.graphify

/-- A text of one line. -/
def OneLine (s : String) : Prop :=
  ∀ c ∈ s.toList, c ≠ '\r' ∧ c ∉ plsql.LINE_BOUNDARIES

instance OneLine.decidable (s : String) : Decidable (OneLine s) :=
  List.decidableBAll (fun c => c ≠ '\r' ∧ c ∉ plsql.LINE_BOUNDARIES) s.toList

/-- The line that lists a node. -/
def NodeLine.written (values : NodeLine) : String :=
  "NODE " ++ values.label ++ " [src=" ++ values.src ++ " loc=" ++ values.loc ++ " community=" ++
    values.community ++ "]"

/-- The line of an edge. -/
def EdgeLine.written (values : EdgeLine) : String :=
  "EDGE " ++ values.src ++ " --" ++ values.rel ++ " [" ++ values.confidence ++
    (values.context.elim "" (" context=" ++ ·)) ++ "]--> " ++ values.dst

/-- A field is followed by the text that ends it, which does not come earlier. -/
def Ends (field ending : String) : Prop :=
  First ending.toList field.toList

instance Ends.decidable (field ending : String) : Decidable (Ends field ending) :=
  First.decidable ending.toList field.toList

/-- The same of a field that has one character at least. -/
def EndsAfter (field ending : String) : Prop :=
  field ≠ "" ∧ First ending.toList field.toList.tail

instance EndsAfter.decidable (field ending : String) : Decidable (EndsAfter field ending) :=
  @instDecidableAnd _ _ _ (First.decidable ending.toList field.toList.tail)

structure NodeLine.Plain (values : NodeLine) : Prop where
  one_line : OneLine values.written
  label : EndsAfter values.label " [src="
  src : Ends values.src " loc="
  loc : Ends values.loc " community="

structure EdgeLine.Plain (values : EdgeLine) : Prop where
  one_line : OneLine values.written
  src : EndsAfter values.src " --"
  rel : Ends values.rel " ["
  confidence : values.confidence ≠ "" ∧ ∀ c ∈ values.confidence.toList, is_confidence c = true
  context : ∀ context ∈ values.context, Ends context "]--> "
  dst : values.dst ≠ ""

theorem any_of_one_line {s : String} (h : OneLine s) : ∀ c ∈ s.toList, any c = true := by
  intro c hc
  have hboundary := (h c hc).2
  rw [any, decide_eq_true_eq]
  rintro rfl
  exact hboundary (by decide)

theorem exists_cons {s : String} (h : s ≠ "") : ∃ c u, s.toList = c :: u := by
  cases hs : s.toList with
  | nil => exact absurd (String.toList_eq_nil_iff.mp hs) h
  | cons c u => exact ⟨c, u, rfl⟩

/-- A line of a node is read as it was written. -/
theorem captures_node {values : NodeLine} (h : values.Plain) :
    node_pattern.captures values.written.toList = some values := by
  have hall := any_of_one_line h.one_line
  obtain ⟨c, u, hlabel⟩ := exists_cons h.label.1
  have hends := h.label.2
  rw [hlabel, List.tail_cons] at hends
  simp only [NodeLine.written, String.toList_append, hlabel, List.append_assoc, List.cons_append,
    List.mem_append, List.mem_cons] at hall ⊢
  refine @Begins.captures _ _ _ _ [] ?_
  refine (begins_literal _).bind ?_
  refine begins_after_fewest (hall c (by simp)) (fun d hd => hall d (by simp [hd])) hends ?_
  refine begins_fewest (fun d hd => hall d (by simp [hd])) h.src ?_
  refine begins_fewest (fun d hd => hall d (by simp [hd])) h.loc ?_
  refine begins_fewest_finish (fun d hd => hall d (by simp [hd])) ?_
  rw [← hlabel]
  simp only [String.ofList_toList]
  exact begins_pure

/-- A line of a node is one, and no line of an edge is. -/
theorem captures_node_of_edge (values : EdgeLine) :
    node_pattern.captures values.written.toList = none := by
  have hnot : ¬"NODE ".toList <+: values.written.toList := by
    simp [EdgeLine.written]
  rw [captures, node_pattern, literal_bind_nil hnot]
  rfl

/-- A line of an edge is read as it was written. -/
theorem captures_edge {values : EdgeLine} (h : values.Plain) :
    edge_pattern.captures values.written.toList = some values := by
  have hall := any_of_one_line h.one_line
  obtain ⟨c, u, hsrc⟩ := exists_cons h.src.1
  obtain ⟨d, v, hdst⟩ := exists_cons h.dst
  obtain ⟨e, w, hconfidence⟩ := exists_cons h.confidence.1
  have hends := h.src.2
  have hconfident := h.confidence.2
  rw [hsrc, List.tail_cons] at hends
  rw [hconfidence] at hconfident
  simp only [EdgeLine.written, String.toList_append, hsrc, hdst, hconfidence, List.append_assoc,
    List.cons_append, List.mem_append, List.mem_cons] at hall ⊢
  have hlast {context : Option String} (hcontext : values.context = context) :
      Begins (after any (most any) >>= fun dst => finish >>= fun _ => pure
        { src := .ofList (c :: u), rel := .ofList values.rel.toList,
          confidence := .ofList (e :: w), context, dst := .ofList dst }) (d :: v) values [] := by
    have hmost := @begins_most v [] any (fun x hx => hall x (by simp [hx])) (by simp)
    rw [List.append_nil] at hmost
    refine (begins_after (hall d (by simp)) hmost).bind (begins_finish.bind ?_)
    rw [← hsrc, ← hconfidence, ← hdst, ← hcontext]
    simp only [String.ofList_toList]
    exact begins_pure
  refine @Begins.captures _ _ _ _ [] ?_
  refine (begins_literal _).bind ?_
  refine begins_after_fewest (hall c (by simp)) (fun x hx => hall x (by simp [hx])) hends ?_
  refine begins_fewest (fun x hx => hall x (by simp [hx])) h.rel ?_
  obtain ⟨hfirst, hothers⟩ := List.forall_mem_cons.mp hconfident
  cases hcontext : values.context with
  | none =>
    have hmost := @begins_most w ("]--> ".toList ++ d :: v) is_confidence hothers
      (by simp [is_confidence])
    refine (begins_after hfirst hmost).bind (begins_either_right ?_ ?_)
    · exact literal_bind_nil (by simp)
    · rw [Pattern.pure_bind]
      exact (begins_literal _).bind (hlast hcontext)
  | some context =>
    rw [hcontext] at hall
    have hmost := @begins_most w (" context=".toList ++ (context.toList ++ ("]--> ".toList ++ d :: v)))
      is_confidence hothers (by simp [is_confidence])
    rw [Option.elim_some, String.toList_append, List.append_assoc]
    refine (begins_after hfirst hmost).bind (begins_either_left ?_)
    rw [context_pattern]
    simp only [Pattern.bind_bind, Pattern.pure_bind]
    refine (begins_literal _).bind (begins_fewest (fun x hx => hall x ?_) ?_ (hlast ?_))
    · simp [hx]
    · exact h.context context hcontext
    · rw [String.ofList_toList]
      exact hcontext

theorem read_node {values : NodeLine} (h : values.Plain) :
    read_line values.written = .node values := by
  rw [read_line, captures_node h]

theorem read_edge {values : EdgeLine} (h : values.Plain) :
    read_line values.written = .edge values := by
  rw [read_line, captures_node_of_edge, captures_edge h]

/-- Lines one under the other. -/
def written_lines : List String → String
  | [] => ""
  | line :: lines => line ++ "\n" ++ written_lines lines

theorem splitlines_line {line u s : List Char}
    (hu : ∀ c ∈ u, c ≠ '\r' ∧ c ∉ plsql.LINE_BOUNDARIES) :
    splitlines line (u ++ '\n' :: s) = String.ofList (line.reverse ++ u) :: splitlines [] s := by
  induction u generalizing line with
  | nil =>
    rw [List.nil_append, List.append_nil, plsql.splitlines, if_pos (Or.inr (by decide))]
    intro t hreturn
    exact absurd hreturn (by decide)
  | cons c u ih =>
    obtain ⟨⟨hreturn, hboundary⟩, hu⟩ := List.forall_mem_cons.mp hu
    rw [List.cons_append, plsql.splitlines, if_neg (not_or.mpr ⟨hreturn, hboundary⟩), ih hu,
      List.reverse_cons, List.append_assoc]
    · rfl
    · exact fun _ hsame => absurd hsame hreturn

theorem splitlines_written {lines : List String} (h : ∀ line ∈ lines, OneLine line) :
    splitlines [] (written_lines lines).toList = lines := by
  induction lines with
  | nil => rfl
  | cons line lines ih =>
    obtain ⟨hline, hlines⟩ := List.forall_mem_cons.mp h
    rw [written_lines, String.toList_append, String.toList_append, List.append_assoc]
    refine (splitlines_line hline).trans ?_
    rw [List.reverse_nil, List.nil_append, String.ofList_toList]
    exact congrArg (line :: ·) (ih hlines)

/-- A text that starts with these characters does so without blanks around it. -/
theorem strip_starts {a b : Char} {rest : List Char} {text : String} (ha : is_space a = false)
    (hb : is_space b = false) (htext : text.toList = a :: b :: rest) :
    ∃ kept, (strip text).toList = a :: b :: kept := by
  rw [strip, htext, List.dropWhile_cons, if_neg (by simp [ha]), List.reverse_cons, List.reverse_cons,
    List.append_assoc, String.toList_ofList, List.dropWhile_append]
  split
  · exact ⟨[], by simp [hb]⟩
  · exact ⟨(rest.reverse.dropWhile is_space).reverse, by simp⟩

section Graphs

variable {libraries : Libraries} {nodes : List NodeLine} {edges : List EdgeLine}

/-- The lines of a graph. -/
def graph_lines (nodes : List NodeLine) (edges : List EdgeLine) : List String :=
  nodes.map (·.written) ++ edges.map (·.written)

/-- A graph whose lines can be told apart: its nodes have labels of their own, and its edges are
between them. -/
structure Writable (nodes : List NodeLine) (edges : List EdgeLine) : Prop where
  nonempty : nodes ≠ []
  plain_nodes : ∀ values ∈ nodes, values.Plain
  plain_edges : ∀ values ∈ edges, values.Plain
  distinct : (nodes.map (·.label)).Nodup
  between : ∀ values ∈ edges, values.src ∈ nodes.map (·.label) ∧ values.dst ∈ nodes.map (·.label)

theorem listed_graph_lines (h : Writable nodes edges) :
    listed_lines (graph_lines nodes edges) = nodes := by
  have hnodes : (nodes.map (·.written)).filterMap (fun line => (read_line line).listed) = nodes := by
    rw [List.filterMap_map]
    refine (List.filterMap_congr fun values hvalues => ?_).trans (List.filterMap_some)
    rw [Function.comp, read_node (h.plain_nodes values hvalues)]
    rfl
  have hedges : (edges.map (·.written)).filterMap (fun line => (read_line line).listed) = [] := by
    rw [List.filterMap_map, List.filterMap_eq_nil_iff]
    intro values hvalues
    rw [Function.comp, read_edge (h.plain_edges values hvalues)]
    rfl
  rw [listed_lines, graph_lines, List.filterMap_append, hnodes, hedges, List.append_nil]

theorem linked_graph_lines (h : Writable nodes edges) :
    linked_lines (graph_lines nodes edges) = edges := by
  have hnodes : (nodes.map (·.written)).filterMap (fun line => (read_line line).linked) = [] := by
    rw [List.filterMap_map, List.filterMap_eq_nil_iff]
    intro values hvalues
    rw [Function.comp, read_node (h.plain_nodes values hvalues)]
    rfl
  have hedges : (edges.map (·.written)).filterMap (fun line => (read_line line).linked) = edges := by
    rw [List.filterMap_map]
    refine (List.filterMap_congr fun values hvalues => ?_).trans (List.filterMap_some)
    rw [Function.comp, read_edge (h.plain_edges values hvalues)]
    rfl
  rw [linked_lines, graph_lines, List.filterMap_append, hnodes, hedges, List.nil_append]

theorem labels_graph_lines (h : Writable nodes edges) :
    labels (graph_lines nodes edges) =
      nodes.map (·.label) ++ edges.flatMap fun values => [values.src, values.dst] := by
  have hnodes : (nodes.map (·.written)).flatMap (fun line => (read_line line).labels) =
      nodes.map (·.label) := by
    rw [List.flatMap_map, List.map_eq_flatMap]
    refine List.flatMap_congr fun values hvalues => ?_
    rw [read_node (h.plain_nodes values hvalues)]
    rfl
  have hedges : (edges.map (·.written)).flatMap (fun line => (read_line line).labels) =
      edges.flatMap fun values => [values.src, values.dst] := by
    rw [List.flatMap_map]
    refine List.flatMap_congr fun values hvalues => ?_
    rw [read_edge (h.plain_edges values hvalues)]
    rfl
  rw [labels, graph_lines, List.flatMap_append, hnodes, hedges]

theorem nodes_of_graph_lines (h : Writable nodes edges) :
    nodes_of libraries (graph_lines nodes edges) =
      nodes.map fun values => listed_node (node_id libraries (strip values.label)) values := by
  have hlater : (edges.flatMap fun values => [values.src, values.dst]).removeAll
      (nodes.map (·.label)) = [] := by
    rw [List.removeAll, List.filter_eq_nil_iff]
    intro label hlabel
    obtain ⟨values, hvalues, hends⟩ := List.mem_flatMap.mp hlabel
    rw [List.mem_cons, List.mem_singleton] at hends
    obtain rfl | rfl := hends
    · simpa using h.between values hvalues |>.1
    · simpa using h.between values hvalues |>.2
  rw [nodes_of, labels_graph_lines h, List.eraseDups_append, hlater, List.eraseDups_nil,
    List.append_nil, eraseDups_of_nodup h.distinct, List.map_map]
  refine List.map_congr_left fun values hvalues => ?_
  have hfound : nodes.reverse.find? (·.label = values.label) = some values := by
    have hdistinct : (nodes.reverse.map (·.label)).Nodup := by
      rw [List.map_reverse, List.nodup_reverse]
      exact h.distinct
    exact find?_of_nodup hdistinct (List.mem_reverse.mpr hvalues)
  rw [Function.comp, node_of, listed_graph_lines h, hfound]

theorem edges_of_graph_lines (h : Writable nodes edges) :
    edges_of libraries (graph_lines nodes edges) = edges.map (edge_of libraries) := by
  rw [edges_of, linked_graph_lines h]

theorem one_line_graph_lines (h : Writable nodes edges) :
    ∀ line ∈ graph_lines nodes edges, OneLine line := by
  intro line hline
  obtain hnode | hedge := List.mem_append.mp hline
  · obtain ⟨values, hvalues, rfl⟩ := List.mem_map.mp hnode
    exact (h.plain_nodes values hvalues).one_line
  · obtain ⟨values, hvalues, rfl⟩ := List.mem_map.mp hedge
    exact (h.plain_edges values hvalues).one_line

/-- The text of a graph starts with the line of a node. -/
theorem strip_written_lines (h : Writable nodes edges) :
    ∃ kept, (strip (written_lines (graph_lines nodes edges))).toList = 'N' :: 'O' :: kept := by
  cases nodes with
  | nil => exact absurd rfl h.nonempty
  | cons values nodes =>
    apply strip_starts (by decide) (by decide)
    rw [graph_lines, List.map_cons, List.cons_append, written_lines, NodeLine.written]
    simp only [String.toList_append]
    rfl

/-- The text of a graph that a search of the client returns is read as that graph, while its labels
and those registered have an identifier each. -/
theorem search_reads_written {config : GraphifyMCPConfig} {s : ClientState}
    (h : Writable nodes edges) (hconsistent : Consistent libraries s (nodes.map (·.label)))
    (hnodes : nodes.length ≤ config.max_nodes) (hedges : edges.length ≤ config.max_edges) :
    ∃ result s',
      (normalize_real_search config libraries
        (.text (written_lines (graph_lines nodes edges)))).run.run s = (.ok result, s') ∧
      result.nodes =
        (nodes.map fun values => listed_node (node_id libraries (strip values.label)) values) ∧
      result.edges = edges.map (edge_of libraries) ∧
      result.citations = result.nodes.map citation := by
  have hlines := splitlines_written (one_line_graph_lines h)
  obtain ⟨kept, hkept⟩ := strip_written_lines h
  have hblank : strip (written_lines (graph_lines nodes edges)) ≠ "" := by
    intro hempty
    rw [hempty] at hkept
    cases hkept
  have hnone : strip (written_lines (graph_lines nodes edges)) ≠ "No matching nodes found." := by
    intro hmessage
    rw [hmessage] at hkept
    exact absurd (List.cons.inj (List.cons.inj hkept).2).1 (by decide)
  have hall : Consistent libraries s (labels (graph_lines nodes edges)) := by
    have hmem (label : String) (hlabel : label ∈ labels (graph_lines nodes edges)) :
        label ∈ nodes.map (·.label) := by
      rw [labels_graph_lines h, List.mem_append] at hlabel
      obtain hnode | hedge := hlabel
      · exact hnode
      · obtain ⟨values, hvalues, hends⟩ := List.mem_flatMap.mp hedge
        rw [List.mem_cons, List.mem_singleton] at hends
        obtain rfl | rfl := hends
        · exact (h.between values hvalues).1
        · exact (h.between values hvalues).2
    intro label hlabel
    obtain ⟨hfree, hothers⟩ := hconsistent label (hmem label hlabel)
    exact ⟨hfree, fun other hother => hothers other (hmem other hother)⟩
  rw [← hlines] at hall
  have hrun := run_normalize_search config hall
  have hnodes' := @nodes_of_graph_lines libraries nodes edges h
  have hedges' := @edges_of_graph_lines libraries nodes edges h
  have hsome : nodes.map (fun values => listed_node (node_id libraries (strip values.label)) values)
      ≠ [] := by
    rw [ne_eq, List.map_eq_nil_iff]
    exact h.nonempty
  have hlimits : ¬(config.max_nodes < nodes.length ∨ config.max_edges < edges.length) := by omega
  rw [search_outcome, hlines, if_neg hblank, if_neg hnone, hnodes', hedges', if_neg hsome,
    List.length_map, List.length_map, if_neg hlimits] at hrun
  exact ⟨_, _, Prod.ext hrun rfl, rfl, rfl, rfl⟩

def law_line : NodeLine where
  label := "Law"
  src := "law.md"
  loc := "L1"
  community := "2"

def code_line : NodeLine where
  label := "Code"
  src := "code.md"
  loc := ""
  community := "2"

def cites_line : EdgeLine where
  src := "Law"
  rel := "cites"
  confidence := "EXTRACTED"
  context := some "preamble"
  dst := "Code"

def law_text : String :=
  "NODE Law [src=law.md loc=L1 community=2]\nNODE Code [src=code.md loc= community=2]\n" ++
    "EDGE Law --cites [EXTRACTED context=preamble]--> Code\n"

theorem search_reads_written_law :
    ∃ result s',
      (normalize_real_search law_config law_libraries (.text law_text)).run.run .initial =
        (.ok result, s') ∧ result.nodes.map (·.label) = ["Law", "Code"] := by
  have hwritable : Writable [law_line, code_line] [cites_line] := by
    refine ⟨by decide, ?_, ?_, by decide, by decide⟩
    · refine List.forall_mem_cons.mpr
        ⟨⟨?_, ?_, ?_, ?_⟩, List.forall_mem_singleton.mpr ⟨?_, ?_, ?_, ?_⟩⟩
      all_goals decide +kernel
    · have hconfidence : ∀ c ∈ cites_line.confidence.toList, is_confidence c = true :=
        List.all_eq_true.mp (by decide +kernel)
      refine List.forall_mem_singleton.mpr ⟨?_, ?_, ?_, ⟨?_, hconfidence⟩, ?_, ?_⟩
      all_goals decide +kernel
  have hconsistent : Consistent law_libraries .initial ["Law", "Code"] := by
    have hids : ∀ label ∈ ["Law", "Code"], ∀ other ∈ ["Law", "Code"],
        node_id law_libraries (strip other) = node_id law_libraries (strip label) →
          strip other = strip label := by
      decide +kernel
    exact fun label hlabel =>
      ⟨fun _ hnamed => absurd hnamed.symm (Option.some_ne_none _), hids label hlabel⟩
  have htext : written_lines (graph_lines [law_line, code_line] [cites_line]) = law_text := by
    decide +kernel
  obtain ⟨result, s', hrun, hnodes, -⟩ := @search_reads_written law_libraries _ _ law_config .initial
    hwritable hconsistent (by decide) (by decide)
  rw [htext] at hrun
  refine ⟨result, s', hrun, ?_⟩
  rw [hnodes]
  rfl

end Graphs

end lagraph.graphify
