import LaGraph.Agent.Evidence

open foundation

namespace lagraph.agent

/-- The evidence on its first `k` nodes. -/
def GraphEvidence.restrict (evidence : GraphEvidence) (k : Nat) : GraphEvidence :=
  let nodes := evidence.nodes.take k
  { nodes
    edges := evidence.edges.filter fun edge =>
      nodes.any (·.id = edge.source_node_id) && nodes.any (·.id = edge.target_node_id)
    paths := evidence.paths.filter fun path => path.node_ids.all fun id => nodes.any (·.id = id) }

/-- The citations of the first `k` nodes. -/
def GraphEvidence.restrict_citations (evidence : GraphEvidence) (k : Nat)
    (citations : Table Citation) : Table Citation :=
  citations.delete fun citation =>
    !citation.node_id.any fun id => (evidence.nodes.take k).any (·.id = id)

/-- Evidence whose nodes are distinct. -/
def GraphEvidence.Distinct (evidence : GraphEvidence) : Prop :=
  (evidence.nodes.map (·.id)).Nodup

variable {evidence : GraphEvidence} {k limit : Nat} {citations : Table Citation}

theorem any_id_iff {nodes : List GraphNode} {id : String} :
    nodes.any (·.id = id) = true ↔ ∃ node ∈ nodes, node.id = id := by
  simp

/-- Of the identifiers among the first nodes, those that are left without the last
one are the others. -/
theorem any_id_take (hdistinct : evidence.Distinct) (hk : k < evidence.nodes.length)
    {id : String} : (evidence.nodes.take k).any (·.id = id) =
      ((evidence.nodes.take (k + 1)).any (·.id = id) && id ≠ evidence.nodes[k].id) := by
  have hsplit : evidence.nodes.take (k + 1) = evidence.nodes.take k ++ [evidence.nodes[k]] :=
    List.take_succ_eq_append_getElem hk
  have hlast : ∀ node ∈ evidence.nodes.take k, node.id ≠ evidence.nodes[k].id := by
    have hnodup : ((evidence.nodes.take (k + 1)).map GraphNode.id).Nodup :=
      ((List.take_sublist (k + 1) evidence.nodes).map GraphNode.id).nodup hdistinct
    rw [hsplit, List.map_append, List.map_singleton, List.nodup_append] at hnodup
    intro node hnode hsame
    exact hnodup.2.2 _ (List.mem_map_of_mem hnode) _ (List.mem_singleton.mpr rfl) hsame
  rw [hsplit, List.any_append, Bool.eq_iff_iff]
  simp only [Bool.and_eq_true, Bool.or_eq_true, any_id_iff, decide_eq_true_eq, List.any_cons,
    List.any_nil, Bool.or_false]
  constructor
  · intro h
    obtain ⟨node, hnode, rfl⟩ := h
    exact ⟨Or.inl ⟨node, hnode, rfl⟩, hlast node hnode⟩
  · intro h
    obtain ⟨h | h, hne⟩ := h
    · exact h
    · exact absurd h.symm hne

/-- One round of the loop. -/
theorem restrict_without (hdistinct : evidence.Distinct) (hk : k < evidence.nodes.length) :
    (evidence.restrict (k + 1)).without (evidence.nodes.take k) evidence.nodes[k] =
      evidence.restrict k := by
  unfold GraphEvidence.without GraphEvidence.restrict
  simp only [GraphEvidence.mk.injEq, List.filter_filter, true_and]
  constructor
  · refine List.filter_congr fun edge _ => ?_
    rw [any_id_take hdistinct hk, any_id_take hdistinct hk, Bool.eq_iff_iff]
    simp only [Bool.and_eq_true, decide_eq_true_eq]
    tauto
  · refine List.filter_congr fun path _ => ?_
    rw [Bool.eq_iff_iff]
    simp only [any_id_take hdistinct hk, Bool.and_eq_true, List.all_eq_true, decide_eq_true_eq]
    constructor
    · intro h id hid
      exact ⟨h.2 id hid, fun hsame => h.1 (hsame ▸ hid)⟩
    · intro h
      exact ⟨fun hmem => (h _ hmem).2 rfl, fun id hid => (h id hid).1⟩

theorem mem_restrict_citations {citation : Citation} :
    citation ∈ evidence.restrict_citations k citations ↔
      citation ∈ citations ∧
        ∃ node ∈ evidence.nodes.take k, citation.node_id = some node.id := by
  rw [GraphEvidence.restrict_citations, Table.mem_delete]
  refine and_congr_right fun _ => ?_
  cases citation.node_id with
  | none => simp
  | some id =>
    rw [Option.any_some, Bool.not_eq_false', any_id_iff]
    simp only [Option.some.injEq, @eq_comm _ id]

theorem restrict_citations_without (hdistinct : evidence.Distinct)
    (hk : k < evidence.nodes.length) :
    (evidence.restrict_citations (k + 1) citations).delete
        (·.node_id = some evidence.nodes[k].id) =
      evidence.restrict_citations k citations := by
  refine Table.ext_rows ?_
  simp only [GraphEvidence.restrict_citations, Table.delete, List.filter_filter]
  refine List.filter_congr fun citation _ => ?_
  cases citation.node_id with
  | none => simp
  | some id =>
    simp only [Option.any_some, Bool.not_not, any_id_take hdistinct hk, Option.some.injEq]
    rw [Bool.and_comm, decide_not]

theorem restrict_length (k : Nat) :
    (evidence.restrict k).nodes = evidence.nodes.take k := rfl

/-- `k` is the greatest number of nodes with which the evidence fits, or `0`. -/
structure GraphEvidence.Longest (evidence : GraphEvidence) (limit k : Nat) : Prop where
  le : k ≤ evidence.nodes.length
  fits : k = 0 ∨ encoding.size (evidence.restrict k) ≤ limit
  greatest : ∀ j, k < j → j ≤ evidence.nodes.length →
    limit < encoding.size (evidence.restrict j)

/-- The loop ends with the greatest number of nodes that fits. -/
theorem trim_restrict (hdistinct : evidence.Distinct) (hk : k ≤ evidence.nodes.length)
    (hgreater : ∀ j, k < j → j ≤ evidence.nodes.length →
      limit < encoding.size (evidence.restrict j)) :
    ∃ m, evidence.Longest limit m ∧
      trim limit k (evidence.restrict k) (evidence.restrict_citations k citations) =
        (evidence.restrict m, evidence.restrict_citations m citations) := by
  induction k with
  | zero => exact ⟨0, ⟨hk, Or.inl rfl, hgreater⟩, rfl⟩
  | succ k ih =>
    have hlt : k < evidence.nodes.length := hk
    by_cases hfits : encoding.size (evidence.restrict (k + 1)) ≤ limit
    · exact ⟨k + 1, ⟨hk, Or.inr hfits, hgreater⟩, by rw [trim, if_pos hfits]⟩
    · have hlonger : ∀ j, k < j → j ≤ evidence.nodes.length →
          limit < encoding.size (evidence.restrict j) := by
        intro j hj hle
        by_cases hsame : j = k + 1
        · rw [hsame]
          omega
        · exact hgreater j (by omega) hle
      obtain ⟨m, hm, htrim⟩ := ih hlt.le hlonger
      refine ⟨m, hm, ?_⟩
      have hlast : (evidence.restrict (k + 1)).nodes.getLast? = some evidence.nodes[k] := by
        rw [restrict_length, List.take_succ_eq_append_getElem hlt, List.getLast?_concat]
      have hinit : (evidence.restrict (k + 1)).nodes.dropLast = evidence.nodes.take k := by
        rw [restrict_length, List.take_succ_eq_append_getElem hlt, List.dropLast_concat]
      rw [trim, if_neg hfits, hlast]
      simp only [hinit, restrict_without hdistinct hlt, restrict_citations_without hdistinct hlt]
      exact htrim

end lagraph.agent
