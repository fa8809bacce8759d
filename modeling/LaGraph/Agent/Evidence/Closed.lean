import LaGraph.Agent.Evidence.Citations
import LaGraph.Agent.Evidence.Trim

open foundation

namespace lagraph.agent

/-- Evidence within its limits that refers to nothing outside it, each node cited. -/
structure Closed (limits : WorkflowLimits) (merged : MergedEvidence) : Prop where
  nodes_bounded : merged.evidence.nodes.length ≤ limits.max_nodes
  edges_bounded : merged.evidence.edges.length ≤ limits.max_edges
  bytes_bounded : encoding.size merged.evidence ≤ limits.max_evidence_bytes
  edge_ends : ∀ edge ∈ merged.evidence.edges,
    (∃ node ∈ merged.evidence.nodes, node.id = edge.source_node_id) ∧
      ∃ node ∈ merged.evidence.nodes, node.id = edge.target_node_id
  path_nodes : ∀ path ∈ merged.evidence.paths, ∀ id ∈ path.node_ids,
    ∃ node ∈ merged.evidence.nodes, node.id = id
  path_edges : ∀ path ∈ merged.evidence.paths, ∀ id ∈ path.edge_ids,
    ∃ edge ∈ merged.evidence.edges, edge.id = id
  cited_nodes : ∀ citation ∈ merged.citations, ∀ id ∈ citation.node_id,
    ∃ node ∈ merged.evidence.nodes, node.id = id
  node_citations : ∀ node ∈ merged.evidence.nodes,
    ∃ citation ∈ merged.citations, citation.node_id = some node.id

variable {results : List GraphResult} {limits : WorkflowLimits} {k : Nat}

theorem collect_nodup {ρ : Type} [Keyed ρ String] (records : List ρ) :
    ((collect records).rows.map Keyed.key).Nodup :=
  (collect records).nodup

theorem admitted_distinct : (admitted results limits).Distinct :=
  ((List.take_sublist _ _).map GraphNode.id).nodup (collect_nodup _)

/-- The identifier determines the edge. -/
theorem admitted_edge_eq {edge edge' : GraphEdge} (h : edge ∈ (admitted results limits).edges)
    (h' : edge' ∈ (admitted results limits).edges) (hid : edge.id = edge'.id) : edge = edge' := by
  have hcollected : ∀ {x}, x ∈ (admitted results limits).edges →
      x ∈ collect (results.flatMap (items · (·.edges))) :=
    fun hx => (List.mem_filter.mp (List.mem_of_mem_take hx)).1
  exact Table.eq_of_key (hcollected h) (hcollected h') hid

/-- Restricted to any number of its nodes, admitted evidence is connected. -/
theorem restrict_connected (evidence : GraphEvidence) (k : Nat) :
    (evidence.restrict k).Connected := by
  constructor
  · intro edge hedge
    have hends := (List.mem_filter.mp hedge).2
    rw [Bool.and_eq_true, any_id_iff, any_id_iff] at hends
    exact hends
  · intro path hpath id hid
    have hnodes := List.all_eq_true.mp (List.mem_filter.mp hpath).2 id hid
    exact any_id_iff.mp hnodes

theorem admitted_restrict_all :
    (admitted results limits).restrict (admitted results limits).nodes.length =
      admitted results limits := by
  unfold GraphEvidence.restrict
  rw [List.take_length]
  have hedges : ∀ edge ∈ (admitted results limits).edges,
      ((admitted results limits).nodes.any (·.id = edge.source_node_id) &&
        (admitted results limits).nodes.any (·.id = edge.target_node_id)) = true :=
    fun edge hedge => (List.mem_filter.mp (List.mem_of_mem_take hedge)).2
  have hpaths : ∀ path ∈ (admitted results limits).paths,
      path.node_ids.all (fun id => (admitted results limits).nodes.any (·.id = id)) = true :=
    fun path hpath => ((Bool.and_eq_true _ _).mp (List.mem_filter.mp hpath).2).1
  simp only [List.filter_eq_self.mpr hedges, List.filter_eq_self.mpr hpaths]

/-- The citations that the trimming starts with are those of the nodes. -/
theorem cite_nodes_restrict_all :
    (admitted results limits).restrict_citations (admitted results limits).nodes.length
        (cite_nodes (admitted_citations results limits) (admitted results limits).nodes) =
      cite_nodes (admitted_citations results limits) (admitted results limits).nodes := by
  refine Table.ext_rows (List.filter_eq_self.mpr fun citation hcitation => ?_)
  rw [List.take_length, Bool.not_not]
  cases (mem_cite_nodes admitted_distinct).mp hcitation with
  | inl h =>
    have hnode := (Table.mem_delete.mp h).2
    rwa [Bool.not_eq_false'] at hnode
  | inr h =>
    obtain ⟨node, hnode, -, -, rfl⟩ := h
    exact any_id_iff.mpr ⟨node, hnode, rfl⟩

theorem GraphEvidence.Longest.unique {evidence : GraphEvidence} {limit j : Nat}
    (h : evidence.Longest limit k) (h' : evidence.Longest limit j) : k = j := by
  have hle : ∀ {a b}, evidence.Longest limit a → evidence.Longest limit b → ¬ a < b := by
    intro a b ha hb hlt
    cases hb.fits with
    | inl hzero => omega
    | inr hfits => exact absurd hfits (Nat.not_le.mpr (ha.greatest b hlt hb.le))
  have hkj := hle h h'
  have hjk := hle h' h
  omega

/-- A node keeps a citation of the adapter that no edge or path displaces, or it was
not cited and the identifier of its own citation is free. -/
def Citable (results : List GraphResult) (limits : WorkflowLimits) (kept : GraphEvidence)
    (node : GraphNode) : Prop :=
  (∃ citation ∈ admitted_citations results limits, citation.node_id = some node.id ∧
    citation.id ∉ kept.edges.map ("edge:" ++ ·.id) ∧
    citation.id ∉ kept.paths.map ("path:" ++ ·.id)) ∨
  ∀ citation ∈ admitted_citations results limits,
    citation.node_id ≠ some node.id ∧ citation.id ≠ "node:" ++ node.id

/-- On the most nodes that fit, every path that is left runs along edges between
these nodes and every node is citable. -/
def KeepsReferences (results : List GraphResult) (limits : WorkflowLimits) : Prop :=
  ∀ k, (admitted results limits).Longest limits.max_evidence_bytes k →
    encoding.size ((admitted results limits).restrict k) ≤ limits.max_evidence_bytes →
    (∀ path ∈ ((admitted results limits).restrict k).paths,
      ∀ edge ∈ (admitted results limits).edges, edge.id ∈ path.edge_ids →
        ∀ id ∈ [edge.source_node_id, edge.target_node_id],
          ∃ node ∈ (admitted results limits).nodes.take k, node.id = id) ∧
    ∀ node ∈ (admitted results limits).nodes.take k,
      Citable results limits ((admitted results limits).restrict k) node

/-- The evidence of a merge, its warnings, and its citations as far as they name a node. -/
theorem merge_evidence_some (results : List GraphResult) (limits : WorkflowLimits) :
    ∃ k merged, (admitted results limits).Longest limits.max_evidence_bytes k ∧
      merge_evidence results limits = some merged ∧
      merged.warnings = (merged_warnings results limits).eraseDups ∧
      (encoding.size ((admitted results limits).restrict k) ≤ limits.max_evidence_bytes →
        merged.evidence = (admitted results limits).restrict k ∧
        ∀ c : Citation, c.node_id ≠ none → (c ∈ merged.citations ↔
          c ∈ (admitted results limits).restrict_citations k
            (cite_nodes (admitted_citations results limits) (admitted results limits).nodes) ∧
          c.id ∉ merged.evidence.edges.map ("edge:" ++ ·.id) ∧
          c.id ∉ merged.evidence.paths.map ("path:" ++ ·.id))) ∧
      (limits.max_evidence_bytes < encoding.size ((admitted results limits).restrict k) →
        merged.evidence = .empty ∧ merged.citations = []) := by
  have hall : ∀ j, (admitted results limits).nodes.length < j →
      j ≤ (admitted results limits).nodes.length →
      limits.max_evidence_bytes < encoding.size ((admitted results limits).restrict j) := by
    intro j hlt hle
    omega
  have htrim := @trim_restrict _ _ _
    (cite_nodes (admitted_citations results limits) (admitted results limits).nodes)
    admitted_distinct (le_refl _) hall
  rw [admitted_restrict_all, cite_nodes_restrict_all] at htrim
  obtain ⟨k, hk, htrim⟩ := htrim
  by_cases hfits : encoding.size ((admitted results limits).restrict k) ≤ limits.max_evidence_bytes
  · obtain ⟨edges, hedges, hover⟩ := @cite_edges_some _ ((admitted results limits).restrict_citations
      k (cite_nodes (admitted_citations results limits) (admitted results limits).nodes))
      (restrict_connected (admitted results limits) k)
    obtain ⟨paths, hpaths, hover'⟩ := @cite_paths_some _ edges
      (restrict_connected (admitted results limits) k)
    refine ⟨k, ⟨(admitted results limits).restrict k, paths.rows, merged_version results,
      (merged_warnings results limits).eraseDups⟩, hk, ?_, rfl, fun _ => ⟨rfl, ?_⟩, fun h => ?_⟩
    · unfold merge_evidence
      simp only [htrim, if_neg (Nat.not_lt.mpr hfits), hedges]
      change (cite_paths _ edges >>= fun citations => pure _) = _
      rw [hpaths]
      rfl
    · intro c hc
      rw [Table.mem_rows, hover' c hc, hover c hc, and_assoc]
    · exact absurd h (Nat.not_lt.mpr hfits)
  · refine ⟨k, ⟨.empty, [], merged_version results, (merged_warnings results limits).eraseDups⟩, hk,
      ?_, rfl, fun h => absurd h hfits, fun _ => ⟨rfl, rfl⟩⟩
    unfold merge_evidence
    simp only [htrim, if_pos (Nat.not_le.mp hfits)]
    rfl

/-- A citation of the kept nodes is one of the adapter for one of them, or the own one
of a node that the adapter did not cite. -/
theorem citable_iff {node : GraphNode} {kept : GraphEvidence}
    (hnode : node ∈ (admitted results limits).nodes.take k) :
    Citable results limits kept node ↔
      ∃ c ∈ (admitted results limits).restrict_citations k
        (cite_nodes (admitted_citations results limits) (admitted results limits).nodes),
        c.node_id = some node.id ∧ c.id ∉ kept.edges.map ("edge:" ++ ·.id) ∧
          c.id ∉ kept.paths.map ("path:" ++ ·.id) := by
  have hmem : ∀ c : Citation, c.node_id = some node.id →
      (c ∈ (admitted results limits).restrict_citations k
        (cite_nodes (admitted_citations results limits) (admitted results limits).nodes) ↔
      c ∈ cite_nodes (admitted_citations results limits) (admitted results limits).nodes) := by
    intro c hc
    rw [mem_restrict_citations, and_iff_left_iff_imp]
    exact fun _ => ⟨node, hnode, hc⟩
  have hown : node.citation.id ∉ kept.edges.map ("edge:" ++ ·.id) ∧
      node.citation.id ∉ kept.paths.map ("path:" ++ ·.id) := by
    constructor
    · intro h
      obtain ⟨edge, -, hid⟩ := List.mem_map.mp h
      exact node_id_ne.1 hid.symm
    · intro h
      obtain ⟨path, -, hid⟩ := List.mem_map.mp h
      exact node_id_ne.2 hid.symm
  constructor
  · intro h
    cases h with
    | inl h =>
      obtain ⟨c, hc, hid, hfree⟩ := h
      exact ⟨c, (hmem c hid).mpr ((mem_cite_nodes admitted_distinct).mpr (Or.inl hc)), hid, hfree⟩
    | inr h =>
      refine ⟨node.citation, (hmem _ rfl).mpr ((mem_cite_nodes admitted_distinct).mpr ?_), rfl,
        hown⟩
      refine Or.inr ⟨node, List.mem_of_mem_take hnode, ?_, fun c hc => (h c hc).2, rfl⟩
      rw [Bool.eq_false_iff, ne_eq, GraphNode.cited_by_iff]
      rintro ⟨c, hc, hid⟩
      exact (h c hc).1 hid
  · intro h
    obtain ⟨c, hc, hid, hfree⟩ := h
    cases (mem_cite_nodes admitted_distinct).mp ((hmem c hid).mp hc) with
    | inl hc => exact Or.inl ⟨c, hc, hid, hfree⟩
    | inr hc =>
      obtain ⟨other, hother, huncited, hfresh, rfl⟩ := hc
      have hsame : other.id = node.id := Option.some.inj hid
      right
      intro c hc
      constructor
      · intro hnamed
        have hcited : other.cited_by (admitted_citations results limits) = true :=
          GraphNode.cited_by_iff.mpr ⟨c, hc, by rw [hnamed, hsame]⟩
        rw [huncited] at hcited
        cases hcited
      · rw [← hsame]
        exact hfresh c hc

/-- Merged evidence is closed and bounded exactly when no path runs along an edge
that the trimming cuts and no identifier of a citation gets in the way of another;
label lookups never fail. -/
theorem merge_closed_iff :
    (∃ merged, merge_evidence results limits = some merged ∧ Closed limits merged ∧
      ∀ citations source_passages category,
        (prepare_context merged.evidence citations source_passages category).isSome = true) ↔
      KeepsReferences results limits := by
  obtain ⟨k, merged, hk, hmerge, -, hfitting, hempty⟩ := merge_evidence_some results limits
  by_cases hfits : encoding.size ((admitted results limits).restrict k) ≤ limits.max_evidence_bytes
  · obtain ⟨hevidence, hcitations⟩ := hfitting hfits
    have hconnected := restrict_connected (admitted results limits) k
    constructor
    · intro h j hj _
      obtain ⟨merged', hmerge', hclosed, -⟩ := h
      cases hmerge.symm.trans hmerge'
      cases hk.unique hj
      constructor
      · intro path hpath edge hedge hid
        obtain ⟨kept, hkept, hsame⟩ := hclosed.path_edges path (hevidence ▸ hpath) edge.id hid
        rw [hevidence] at hkept
        have hedges : edge = kept :=
          admitted_edge_eq hedge (List.mem_filter.mp hkept).1 hsame.symm
        obtain ⟨hsource, htarget⟩ := hconnected.1 kept hkept
        rw [hedges, List.forall_mem_cons, List.forall_mem_singleton]
        exact ⟨hsource, htarget⟩
      · intro node hnode
        obtain ⟨c, hc, hid⟩ := hclosed.node_citations node (hevidence ▸ hnode)
        have hnamed : c.node_id ≠ none := by simp [hid]
        obtain ⟨hkept, hfree⟩ := (hcitations c hnamed).mp hc
        rw [hevidence] at hfree
        exact (citable_iff hnode).mpr ⟨c, hkept, hid, hfree⟩
    · intro h
      obtain ⟨hpaths, hnodes⟩ := h k hk hfits
      refine ⟨merged, hmerge, ?_, fun citations source_passages category => ?_⟩
      · constructor
        case nodes_bounded =>
          rw [hevidence]
          have htake : (admitted results limits).nodes.length ≤ limits.max_nodes :=
            List.length_take_le _ _
          exact (List.length_take_le _ _).trans hk.le |>.trans htake
        case edges_bounded =>
          rw [hevidence]
          have htake : (admitted results limits).edges.length ≤ limits.max_edges :=
            List.length_take_le _ _
          exact (List.length_filter_le _ _).trans htake
        case bytes_bounded => rwa [hevidence]
        case edge_ends => rw [hevidence]; exact hconnected.1
        case path_nodes => rw [hevidence]; exact hconnected.2
        case path_edges =>
          rw [hevidence]
          intro path hpath id hid
          have hadmitted := (List.mem_filter.mp hpath).1
          have hids := ((Bool.and_eq_true _ _).mp (List.mem_filter.mp hadmitted).2).2
          have hedge := List.all_eq_true.mp hids id hid
          obtain ⟨edge, hedge, hsame⟩ := List.any_eq_true.mp hedge
          rw [decide_eq_true_eq] at hsame
          have hends := hpaths path hpath edge hedge (hsame ▸ hid)
          rw [List.forall_mem_cons, List.forall_mem_singleton] at hends
          refine ⟨edge, List.mem_filter.mpr ⟨hedge, ?_⟩, hsame⟩
          rw [Bool.and_eq_true, any_id_iff, any_id_iff]
          exact hends
        case cited_nodes =>
          intro c hc id hid
          have hnamed : c.node_id ≠ none := by
            intro hnone
            rw [hnone] at hid
            cases hid
          obtain ⟨-, node, hnode, hsame⟩ :=
            mem_restrict_citations.mp ((hcitations c hnamed).mp hc).1
          rw [hsame] at hid
          exact ⟨node, hevidence ▸ hnode, Option.some.inj hid⟩
        case node_citations =>
          intro node hnode
          rw [hevidence] at hnode
          obtain ⟨c, hc, hid, hfree⟩ := (citable_iff hnode).mp (hnodes node hnode)
          refine ⟨c, (hcitations c (by simp [hid])).mpr ⟨hc, ?_⟩, hid⟩
          rw [hevidence]
          exact hfree
      · rw [hevidence]
        exact prepare_context_some hconnected citations source_passages category
  · obtain ⟨hevidence, hcitations⟩ := hempty (Nat.not_le.mp hfits)
    constructor
    · intro _ j hj hfits'
      rw [hk.unique hj] at hfits
      exact absurd hfits' hfits
    · intro _
      refine ⟨merged, hmerge, ?_, fun citations source_passages category => ?_⟩
      · have hsize : encoding.size .empty ≤ limits.max_evidence_bytes := by
          have hempty : encoding.size .empty = 34 := by decide +kernel
          have hbound := limits.bytes_ge
          omega
        constructor <;> simp [hevidence, hcitations, GraphEvidence.empty]
        exact hsize
      · rw [hevidence]
        refine prepare_context_some ⟨fun _ h => ?_, fun _ h => ?_⟩ citations source_passages category
        · cases h
        · cases h

def plain_node (id label : String) : GraphNode where
  id := id
  label := label
  type := "entity"
  properties := []
  source := none
  excerpt := none
  provenance := .unknown

/-- Two nodes, and a citation of the first one under the identifier that the merge
draws for the second. -/
def colliding_result : GraphResult where
  direct := ⟨some [plain_node "a" "A", plain_node "b" "B"], some [], some []⟩
  nested := none
  citations := [.of_graph "node:b" "A" "atlas" (some "a") none .unknown none]
  graph_version := none
  warnings := []

/-- The second node is left without a citation. -/
theorem colliding_citation_hides_node :
    ¬ ∀ results limits, ∃ merged, merge_evidence results limits = some merged ∧
      Closed limits merged ∧ ∀ citations source_passages category,
        (prepare_context merged.evidence citations source_passages category).isSome = true := by
  intro h
  obtain ⟨merged, hmerge, hclosed, -⟩ := h [colliding_result] .default
  have hhidden : ∃ merged ∈ merge_evidence [colliding_result] .default,
      ∃ node ∈ merged.evidence.nodes,
        ¬ ∃ citation ∈ merged.citations, citation.node_id = some node.id := by decide +kernel
  obtain ⟨merged', hmerge', node, hnode, huncited⟩ := hhidden
  cases hmerge.symm.trans hmerge'
  exact huncited (hclosed.node_citations node hnode)

end lagraph.agent
