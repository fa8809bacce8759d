import LaGraph.Agent.Evidence
import Mathlib.Data.List.Induction

open foundation

namespace lagraph.agent

variable {evidence : GraphEvidence} {citations : Table Citation} {citation : Citation}

theorem prefixed_inj {pre a b : String} : pre ++ a = pre ++ b ↔ a = b := by
  rw [← String.toList_inj, ← String.toList_inj, String.toList_append, String.toList_append,
    List.append_cancel_left_eq]

/-- Identifiers with different first letters are different. -/
theorem node_id_ne {a b : String} :
    "node:" ++ a ≠ "edge:" ++ b ∧ "node:" ++ a ≠ "path:" ++ b := by
  constructor
  · intro h
    have hlists := congrArg String.toList h
    rw [String.toList_append, String.toList_append] at hlists
    exact absurd (List.cons.inj hlists).1 (by decide)
  · intro h
    have hlists := congrArg String.toList h
    rw [String.toList_append, String.toList_append] at hlists
    exact absurd (List.cons.inj hlists).1 (by decide)

theorem GraphNode.cited_by_iff {node : GraphNode} :
    node.cited_by citations = true ↔ ∃ c ∈ citations, c.node_id = some node.id := by
  rw [GraphNode.cited_by, List.any_eq_true]
  simp [Table.mem_rows]

/-- The node has a citation of the adapter, or none is in the way of its own. -/
theorem mem_cite_nodes {nodes : List GraphNode} (hdistinct : (nodes.map (·.id)).Nodup) :
    citation ∈ cite_nodes citations nodes ↔
      citation ∈ citations ∨ ∃ node ∈ nodes, node.cited_by citations = false ∧
        (∀ c ∈ citations, c.id ≠ "node:" ++ node.id) ∧ citation = node.citation := by
  induction nodes using List.reverseRecOn generalizing citation with
  | nil => simp [cite_nodes]
  | append_singleton nodes node ih =>
    rw [List.map_append, List.map_singleton, List.nodup_append] at hdistinct
    have hbefore := fun {c} => @ih c hdistinct.1
    have hother : ∀ other ∈ nodes, other.id ≠ node.id := by
      intro other hother hsame
      exact hdistinct.2.2 _ (List.mem_map_of_mem hother) _ (List.mem_singleton.mpr rfl) hsame
    -- the citations added before are those of other nodes
    have hcited : node.cited_by (cite_nodes citations nodes) = node.cited_by citations := by
      rw [Bool.eq_iff_iff, GraphNode.cited_by_iff, GraphNode.cited_by_iff]
      constructor
      · intro h
        obtain ⟨c, hc, hid⟩ := h
        cases hbefore.mp hc with
        | inl hc => exact ⟨c, hc, hid⟩
        | inr hc =>
          obtain ⟨other, hmem, -, -, rfl⟩ := hc
          exact absurd (Option.some.inj hid) (hother other hmem)
      · intro h
        obtain ⟨c, hc, hid⟩ := h
        exact ⟨c, hbefore.mpr (Or.inl hc), hid⟩
    have hfree : (∀ c ∈ cite_nodes citations nodes, c.id ≠ "node:" ++ node.id) ↔
        ∀ c ∈ citations, c.id ≠ "node:" ++ node.id := by
      constructor
      · intro h c hc
        exact h c (hbefore.mpr (Or.inl hc))
      · intro h c hc
        cases hbefore.mp hc with
        | inl hc => exact h c hc
        | inr hc =>
          obtain ⟨other, hmem, -, -, rfl⟩ := hc
          exact fun hsame => hother other hmem (prefixed_inj.mp hsame)
    have hfold : cite_nodes citations (nodes ++ [node]) =
        if node.cited_by citations then cite_nodes citations nodes
        else (cite_nodes citations nodes).insert node.citation := by
      rw [cite_nodes, List.foldl_append, List.foldl_cons, List.foldl_nil]
      change (if node.cited_by (cite_nodes citations nodes) then _ else _) = _
      rw [hcited]
      rfl
    rw [hfold]
    simp only [List.mem_append, List.mem_singleton, or_and_right, exists_or]
    cases hnode : node.cited_by citations with
    | true => simp [hbefore, hnode]
    | false =>
      simp only [Bool.false_eq_true, if_false, exists_eq_left, hnode, true_and, ← or_assoc,
        ← hbefore]
      by_cases hkey : ∀ c ∈ cite_nodes citations nodes, c.id ≠ "node:" ++ node.id
      · rw [Table.mem_insert_of_fresh hkey]
        exact or_congr_right (iff_and_self.mpr fun _ => hfree.mp hkey)
      · have hsame : (cite_nodes citations nodes).insert node.citation =
            cite_nodes citations nodes := by
          rw [not_forall] at hkey
          obtain ⟨c, hc⟩ := hkey
          rw [Classical.not_imp, not_not] at hc
          exact Table.insert_of_taken hc.1 hc.2
        rw [hsame]
        simp [mt hfree.mpr hkey]

theorem mem_assign {c : Citation} :
    c ∈ assign citations citation ↔ c = citation ∨ c ∈ citations ∧ c.id ≠ citation.id := by
  have hupdated : ∀ x, x ∈ citations.update (·.id = citation.id)
      (fun c => { citation with id := c.id }) (fun _ => rfl) ↔
      x ∈ citations ∧ x.id ≠ citation.id ∨ x = citation ∧ ∃ y ∈ citations, y.id = citation.id := by
    intro x
    rw [Table.mem_update]
    constructor
    · intro h
      obtain ⟨y, hy, rfl⟩ := h
      by_cases hid : y.id = citation.id
      · simp only [hid, decide_true, if_true, ne_eq, not_true_eq_false, and_false, false_or]
        exact ⟨trivial, y, hy, hid⟩
      · simp [hid, hy]
    · intro h
      obtain ⟨hx, hid⟩ | ⟨rfl, y, hy, hid⟩ := h
      · exact ⟨x, hx, by simp [hid]⟩
      · exact ⟨y, hy, by simp [hid]⟩
  by_cases htaken : ∃ y ∈ citations, y.id = citation.id
  · have hthere : citation ∈ citations.update (·.id = citation.id)
        (fun c => { citation with id := c.id }) (fun _ => rfl) :=
      (hupdated citation).mpr (Or.inr ⟨rfl, htaken⟩)
    rw [assign, Table.insert_of_taken hthere rfl, hupdated]
    simp only [htaken, and_true]
    exact or_comm
  · have hfresh : ∀ x ∈ citations.update (·.id = citation.id)
        (fun c => { citation with id := c.id }) (fun _ => rfl), x.id ≠ citation.id := by
      intro x hx
      cases (hupdated x).mp hx with
      | inl h => exact h.2
      | inr h => exact absurd h.2 htaken
    rw [assign, Table.mem_insert_of_fresh hfresh, hupdated]
    simp only [htaken, and_false, or_false]
    exact or_comm

/-- Every edge lies between nodes of the evidence, every path along them. -/
def GraphEvidence.Connected (evidence : GraphEvidence) : Prop :=
  (∀ edge ∈ evidence.edges, (∃ node ∈ evidence.nodes, node.id = edge.source_node_id) ∧
    ∃ node ∈ evidence.nodes, node.id = edge.target_node_id) ∧
  ∀ path ∈ evidence.paths, ∀ id ∈ path.node_ids, ∃ node ∈ evidence.nodes, node.id = id

theorem node_label_of_mem {id : String} (h : ∃ node ∈ evidence.nodes, node.id = id) :
    ∃ label, evidence.node_label id = some label := by
  obtain ⟨node, hnode, hid⟩ := h
  cases hfind : evidence.nodes.find? (·.id = id) with
  | none => exact absurd (List.find?_eq_none.mp hfind node hnode) (by simp [hid])
  | some found => exact ⟨found.label, by rw [GraphEvidence.node_label, hfind]; rfl⟩

theorem node_labels_of_mem {ids : List String}
    (h : ∀ id ∈ ids, ∃ node ∈ evidence.nodes, node.id = id) :
    ∃ labels, ids.mapM evidence.node_label = some labels := by
  induction ids with
  | nil => exact ⟨[], rfl⟩
  | cons id ids ih =>
    obtain ⟨label, hlabel⟩ := node_label_of_mem (h id List.mem_cons_self)
    obtain ⟨labels, hlabels⟩ := ih fun id hid => h id (List.mem_cons_of_mem _ hid)
    exact ⟨label :: labels, by simp [hlabel, hlabels]⟩

/-- The citations after those with the given identifiers have been assigned, as far as
they name a node. -/
def Overwrites (ids : List String) (before after : Table Citation) : Prop :=
  ∀ c : Citation, c.node_id ≠ none → (c ∈ after ↔ c ∈ before ∧ c.id ∉ ids)

theorem overwrites_assign {ids : List String} {before after : Table Citation}
    (h : Overwrites ids (assign before citation) after) (hnode : citation.node_id = none) :
    Overwrites (citation.id :: ids) before after := by
  intro c hc
  have hne : c ≠ citation := fun hsame => hc (hsame ▸ hnode)
  rw [h c hc, mem_assign, List.mem_cons, not_or]
  simp [hne, and_assoc]

/-- The edges are cited without a failed lookup, in place of citations that have
their identifiers. -/
theorem cite_edges_some (h : evidence.Connected) :
    ∃ after, cite_edges evidence citations = some after ∧
      Overwrites (evidence.edges.map ("edge:" ++ ·.id)) citations after := by
  unfold cite_edges
  have hedges := h.1
  generalize evidence.edges = edges at hedges
  induction edges generalizing citations with
  | nil => exact ⟨citations, rfl, fun c _ => by simp⟩
  | cons edge edges ih =>
    obtain ⟨hsource, htarget⟩ := hedges edge List.mem_cons_self
    obtain ⟨source_label, hsource⟩ := node_label_of_mem hsource
    obtain ⟨target_label, htarget⟩ := node_label_of_mem htarget
    obtain ⟨after, hafter, hover⟩ := @ih
      (assign citations (edge.citation source_label target_label))
      (fun e he => hedges e (List.mem_cons_of_mem _ he))
    refine ⟨after, ?_, overwrites_assign hover rfl⟩
    rw [List.foldlM_cons, hsource, htarget]
    exact hafter

theorem cite_paths_some (h : evidence.Connected) :
    ∃ after, cite_paths evidence citations = some after ∧
      Overwrites (evidence.paths.map ("path:" ++ ·.id)) citations after := by
  unfold cite_paths
  have hpaths := h.2
  generalize evidence.paths = paths at hpaths
  induction paths generalizing citations with
  | nil => exact ⟨citations, rfl, fun c _ => by simp⟩
  | cons path paths ih =>
    obtain ⟨labels, hlabels⟩ := node_labels_of_mem (hpaths path List.mem_cons_self)
    obtain ⟨after, hafter, hover⟩ := @ih (assign citations (path.citation labels))
      (fun p hp => hpaths p (List.mem_cons_of_mem _ hp))
    refine ⟨after, ?_, overwrites_assign hover rfl⟩
    rw [List.foldlM_cons, hlabels]
    exact hafter

/-- The context of connected evidence is prepared without a failed lookup. -/
theorem prepare_context_some (h : evidence.Connected) (citations : List Citation)
    (source_passages : List retrieval.SourcePassage) (category : String) :
    (prepare_context evidence citations source_passages category).isSome = true := by
  have hedges : ∃ edges, (evidence.edges.mapM fun edge => do
      let source_label ← evidence.node_label edge.source_node_id
      let target_label ← evidence.node_label edge.target_node_id
      pure (ContextEdge.mk ("edge:" ++ edge.id) source_label target_label edge)) = some edges := by
    have hall := h.1
    generalize evidence.edges = edges at hall
    induction edges with
    | nil => exact ⟨[], rfl⟩
    | cons edge edges ih =>
      obtain ⟨hsource, htarget⟩ := hall edge List.mem_cons_self
      obtain ⟨source_label, hsource⟩ := node_label_of_mem hsource
      obtain ⟨target_label, htarget⟩ := node_label_of_mem htarget
      obtain ⟨rest, hrest⟩ := ih fun e he => hall e (List.mem_cons_of_mem _ he)
      exact ⟨_ :: rest, by rw [List.mapM_cons, hsource, htarget, hrest]; rfl⟩
  have hpaths : ∃ paths, (evidence.paths.mapM fun path => do
      let node_labels ← path.node_ids.mapM evidence.node_label
      pure (ContextPath.mk ("path:" ++ path.id) node_labels)) = some paths := by
    have hall := h.2
    generalize evidence.paths = paths at hall
    induction paths with
    | nil => exact ⟨[], rfl⟩
    | cons path paths ih =>
      obtain ⟨labels, hlabels⟩ := node_labels_of_mem (hall path List.mem_cons_self)
      obtain ⟨rest, hrest⟩ := ih fun p hp => hall p (List.mem_cons_of_mem _ hp)
      exact ⟨_ :: rest, by rw [List.mapM_cons, hlabels, hrest]; rfl⟩
  obtain ⟨edges, hedges⟩ := hedges
  obtain ⟨paths, hpaths⟩ := hpaths
  rw [prepare_context, hedges, hpaths]
  rfl

end lagraph.agent
