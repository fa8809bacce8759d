import LaGraph.Agent.Evidence.Closed
import Mathlib.Data.List.Perm.Subperm

open foundation

namespace lagraph.agent

/-- The nodes of the deduplicated merge. -/
def merged_nodes (results : List GraphResult) : List GraphNode :=
  (collect (results.flatMap (items · (·.nodes)))).rows

/-- The edges of the deduplicated merge. -/
def merged_edges (results : List GraphResult) : List GraphEdge :=
  (collect (results.flatMap (items · (·.edges)))).rows

/-- Both ends of an edge are among the nodes. -/
def GraphEdge.joins (edge : GraphEdge) (nodes : List GraphNode) : Bool :=
  nodes.any (·.id = edge.source_node_id) && nodes.any (·.id = edge.target_node_id)

/-- All nodes and edges of the merge, with the paths along them. -/
def whole_evidence (results : List GraphResult) : GraphEvidence where
  nodes := merged_nodes results
  edges := merged_edges results
  paths := (collect (results.flatMap (items · (·.paths)))).rows.filter fun path =>
    path.node_ids.all (fun id => (merged_nodes results).any (·.id = id)) &&
      path.edge_ids.all (fun id => (merged_edges results).any (·.id = id))

/-- More nodes or edges than the limits allow, or an edge with an end that no node has. -/
def CountsExceeded (results : List GraphResult) (limits : WorkflowLimits) : Prop :=
  limits.max_nodes < (merged_nodes results).length ∨
    limits.max_edges < (merged_edges results).length ∨
    ∃ edge ∈ merged_edges results, edge.joins (merged_nodes results) = false

/-- There are nodes, and the whole evidence is larger than the limit in bytes. -/
def BytesExceeded (results : List GraphResult) (limits : WorkflowLimits) : Prop :=
  merged_nodes results ≠ [] ∧ limits.max_evidence_bytes < encoding.size (whole_evidence results)

def TRUNCATED : String := "Graph evidence was truncated to configured limits."

/-- One of the results brings the warning along. -/
def WarnedBefore (results : List GraphResult) : Prop :=
  ∃ result ∈ results, TRUNCATED ∈ result.warnings

/-- A node or an edge of the merge is absent from its evidence. -/
def Lost (results : List GraphResult) (merged : MergedEvidence) : Prop :=
  (∃ node ∈ merged_nodes results, node ∉ merged.evidence.nodes) ∨
    ∃ edge ∈ merged_edges results, edge ∉ merged.evidence.edges

variable {results : List GraphResult} {limits : WorkflowLimits} {merged : MergedEvidence}

/-- What a shorter list lacks. -/
theorem exists_lost {α : Type} {l l' : List α} (hl : l.Nodup) (hlt : l'.length < l.length) :
    ∃ x ∈ l, x ∉ l' := by
  by_contra hall
  push Not at hall
  have hle := (List.subperm_of_subset hl hall).length_le
  omega

/-- Selecting and cutting drop something, or keep the list. -/
theorem take_filter_length_lt {α : Type} {p : α → Bool} {l : List α} {n : Nat} :
    ((l.filter p).take n).length < l.length ↔ n < l.length ∨ ∃ x ∈ l, p x = false := by
  rw [List.length_take]
  by_cases hall : ∀ x ∈ l, p x = true
  · rw [List.filter_eq_self.mpr hall]
    have hnone : ¬∃ x ∈ l, p x = false := by
      rintro ⟨x, hx, hfalse⟩
      rw [hall x hx] at hfalse
      cases hfalse
    simp only [hnone, or_false]
    omega
  · push Not at hall
    obtain ⟨x, hx, hno⟩ := hall
    have hshorter := List.length_filter_lt_length_iff_exists.mpr ⟨x, hx, hno⟩
    have hright : ∃ x ∈ l, p x = false := ⟨x, hx, Bool.eq_false_iff.mpr hno⟩
    simp only [hright, or_true, iff_true]
    omega

theorem merged_nodes_nodup : (merged_nodes results).Nodup :=
  (collect_nodup _).of_map

theorem merged_edges_nodup : (merged_edges results).Nodup :=
  (collect_nodup _).of_map

/-- The merge warns when its limits on numbers cut something. -/
theorem cut_iff : ((admitted results limits).nodes.length < (merged_nodes results).length ∨
      (admitted results limits).edges.length < (merged_edges results).length) ↔
    CountsExceeded results limits := by
  have hnodes : (admitted results limits).nodes = (merged_nodes results).take limits.max_nodes := rfl
  have hedges : (admitted results limits).edges = ((merged_edges results).filter fun edge =>
      edge.joins (admitted results limits).nodes).take limits.max_edges := rfl
  have hlength : (admitted results limits).nodes.length < (merged_nodes results).length ↔
      limits.max_nodes < (merged_nodes results).length := by
    rw [hnodes, List.length_take]
    omega
  rw [hlength, CountsExceeded]
  by_cases hmore : limits.max_nodes < (merged_nodes results).length
  · simp only [hmore, true_or]
  · rw [hedges, take_filter_length_lt, hnodes, List.take_of_length_le (Nat.le_of_not_lt hmore)]

/-- Within the limits on numbers everything is admitted. -/
theorem admitted_eq_whole (h : ¬CountsExceeded results limits) :
    admitted results limits = whole_evidence results := by
  unfold CountsExceeded at h
  push Not at h
  obtain ⟨hnodes, hedges, hjoins⟩ := h
  have hall : limited_nodes results limits = merged_nodes results :=
    List.take_of_length_le hnodes
  have hjoined : ∀ edge ∈ merged_edges results, edge.joins (merged_nodes results) = true :=
    fun edge hedge => Bool.not_eq_false _ ▸ hjoins edge hedge
  have hkept : ((collect (results.flatMap (items · (·.edges)))).rows.filter fun edge =>
      (merged_nodes results).any (·.id = edge.source_node_id) &&
        (merged_nodes results).any (·.id = edge.target_node_id)).take limits.max_edges =
      merged_edges results := by
    change ((merged_edges results).filter (·.joins (merged_nodes results))).take _ = _
    rw [List.filter_eq_self.mpr hjoined, List.take_of_length_le hedges]
  unfold admitted whole_evidence
  simp only [hall, hkept]

/-- The evidence of a merge has no more than was admitted. -/
theorem merged_length_le (h : merge_evidence results limits = some merged) :
    merged.evidence.nodes.length ≤ (admitted results limits).nodes.length ∧
      merged.evidence.edges.length ≤ (admitted results limits).edges.length := by
  obtain ⟨k, merged', hk, hmerge, -, hfitting, hempty⟩ := merge_evidence_some results limits
  cases hmerge.symm.trans h
  rcases Nat.lt_or_ge limits.max_evidence_bytes
    (encoding.size ((admitted results limits).restrict k)) with hlarge | hfits
  · rw [(hempty hlarge).1]
    exact ⟨Nat.zero_le _, Nat.zero_le _⟩
  · rw [(hfitting hfits).1]
    exact ⟨List.length_take_le' _ _, List.length_filter_le _ _⟩

/-- Something is lost to a limit on numbers or to the limit in bytes. -/
theorem lost_iff (h : merge_evidence results limits = some merged) :
    Lost results merged ↔ CountsExceeded results limits ∨ BytesExceeded results limits := by
  by_cases hcounts : CountsExceeded results limits
  · have hle := merged_length_le h
    simp only [hcounts, true_or, iff_true]
    rcases cut_iff.mpr hcounts with hnodes | hedges
    · exact Or.inl (exists_lost merged_nodes_nodup (by omega))
    · exact Or.inr (exists_lost merged_edges_nodup (by omega))
  · obtain ⟨k, merged', hk, hmerge, -, hfitting, hempty⟩ := merge_evidence_some results limits
    cases hmerge.symm.trans h
    have hwhole := admitted_eq_whole hcounts
    have hall : (whole_evidence results).restrict (merged_nodes results).length =
        whole_evidence results := by
      have hrestrict := @admitted_restrict_all results limits
      rwa [hwhole] at hrestrict
    rw [hwhole] at hk hfitting hempty
    have hle : k ≤ (merged_nodes results).length := hk.le
    simp only [hcounts, false_or]
    by_cases hbytes : limits.max_evidence_bytes < encoding.size (whole_evidence results)
    · simp only [BytesExceeded, hbytes, and_true]
      constructor
      · rintro (⟨node, hnode, -⟩ | ⟨edge, hedge, -⟩)
        · exact List.ne_nil_of_mem hnode
        · unfold CountsExceeded at hcounts
          push Not at hcounts
          have hjoins := hcounts.2.2 edge hedge
          intro hnil
          exact hjoins (by rw [hnil]; rfl)
      · intro hnodes
        have hpos := List.length_pos_iff.mpr hnodes
        refine Or.inl (exists_lost merged_nodes_nodup ?_)
        rcases Nat.lt_or_ge limits.max_evidence_bytes
          (encoding.size ((whole_evidence results).restrict k)) with hlarge | hfits
        · rw [(hempty hlarge).1]
          exact hpos
        · have hne : k ≠ (merged_nodes results).length := by
            rintro rfl
            rw [hall] at hfits
            omega
          rw [(hfitting hfits).1, restrict_length, List.length_take]
          omega
    · have hkept : k = (merged_nodes results).length := by
        by_contra hne
        have hgreater := hk.greatest (merged_nodes results).length (by omega) (le_refl _)
        rw [hall] at hgreater
        exact hbytes hgreater
      have hevidence : merged.evidence = whole_evidence results := by
        rw [hkept, hall] at hfitting
        exact (hfitting (Nat.le_of_not_lt hbytes)).1
      simp only [BytesExceeded, hbytes, and_false, iff_false]
      rintro (⟨node, hnode, hlost⟩ | ⟨edge, hedge, hlost⟩)
      · exact hlost (hevidence ▸ hnode)
      · exact hlost (hevidence ▸ hedge)

theorem merge_evidence_warnings (h : merge_evidence results limits = some merged) :
    merged.warnings = (merged_warnings results limits).eraseDups := by
  obtain ⟨-, merged', -, hmerge, hwarnings, -⟩ := merge_evidence_some results limits
  cases hmerge.symm.trans h
  exact hwarnings

/-- The warning is one of the merge or one of a result. -/
theorem warned_iff (h : merge_evidence results limits = some merged) :
    TRUNCATED ∈ merged.warnings ↔ CountsExceeded results limits ∨ WarnedBefore results := by
  have hbefore : TRUNCATED ∈ results.flatMap (·.warnings) ↔ WarnedBefore results :=
    List.mem_flatMap
  have hwarnings : merged_warnings results limits =
      if (admitted results limits).nodes.length < (merged_nodes results).length ∨
          (admitted results limits).edges.length < (merged_edges results).length then
        results.flatMap (·.warnings) ++ [TRUNCATED]
      else results.flatMap (·.warnings) := rfl
  rw [merge_evidence_warnings h, List.mem_eraseDups, hwarnings]
  by_cases hcut : CountsExceeded results limits
  · rw [if_pos (cut_iff.mpr hcut)]
    simp [hcut]
  · rw [if_neg (mt cut_iff.mp hcut), hbefore]
    simp [hcut]

theorem merge_evidence_isSome (results : List GraphResult) (limits : WorkflowLimits) :
    ∃ merged, merge_evidence results limits = some merged := by
  obtain ⟨-, merged, -, hmerge, -⟩ := merge_evidence_some results limits
  exact ⟨merged, hmerge⟩

/-- The warning tells whether something is lost exactly when a limit on numbers is exceeded,
or the bytes are exceeded just when a result brings the warning along. -/
theorem lost_iff_warned_iff (results : List GraphResult) (limits : WorkflowLimits) :
    ∃ merged, merge_evidence results limits = some merged ∧
      ((Lost results merged ↔ TRUNCATED ∈ merged.warnings) ↔
        (CountsExceeded results limits ∨ (BytesExceeded results limits ↔ WarnedBefore results))) := by
  obtain ⟨merged, hmerge⟩ := merge_evidence_isSome results limits
  refine ⟨merged, hmerge, ?_⟩
  rw [lost_iff hmerge, warned_iff hmerge]
  by_cases hcounts : CountsExceeded results limits
  · simp only [hcounts, true_or]
  · simp only [hcounts, false_or]

/-- A result with one node. -/
def labelled_result (label : String) : GraphResult where
  direct := ⟨some [plain_node "a" label], some [], some []⟩
  nested := none
  citations := []
  graph_version := none
  warnings := []

/-- The smallest limit in bytes. -/
def small_limits : WorkflowLimits :=
  { WorkflowLimits.default with max_evidence_bytes := 1024, bytes_ge := by decide }

theorem labelled_counts (label : String) :
    ¬CountsExceeded [labelled_result label] small_limits := by
  have hnodes : merged_nodes [labelled_result label] = [plain_node "a" label] := rfl
  have hedges : merged_edges [labelled_result label] = [] := rfl
  rw [CountsExceeded, hnodes, hedges]
  simp [small_limits, WorkflowLimits.default]

/-- The evidence is larger than the label. -/
theorem labelled_size (label : String) :
    (json.asciiStr label).length < encoding.size (whole_evidence [labelled_result label]) := by
  have hwhole : whole_evidence [labelled_result label] = ⟨[plain_node "a" label], [], []⟩ := rfl
  have hnode : encoding.node (plain_node "a" label) =
      "\x7b" ++ (json.asciiStr "id" ++ ":" ++ json.asciiStr "a" ++ "," ++
        (json.asciiStr "label" ++ ":" ++ json.asciiStr label) ++ "," ++
        (json.asciiStr "type" ++ ":" ++ json.asciiStr "entity") ++ "," ++
        (json.asciiStr "properties" ++ ":" ++ encoding.properties []) ++ "," ++
        (json.asciiStr "source" ++ ":" ++ json.null) ++ "," ++
        (json.asciiStr "excerpt" ++ ":" ++ json.null) ++ "," ++
        (json.asciiStr "provenance" ++ ":" ++ json.asciiStr "unknown")) ++ "\x7d" := rfl
  have hevidence : encoding.evidence ⟨[plain_node "a" label], [], []⟩ =
      "\x7b" ++ (json.asciiStr "nodes" ++ ":" ++
        ("[" ++ encoding.node (plain_node "a" label) ++ "]") ++ "," ++
        (json.asciiStr "edges" ++ ":" ++ "[]") ++ "," ++
        (json.asciiStr "paths" ++ ":" ++ "[]")) ++ "\x7d" := rfl
  have hbrace : "\x7b".length = 1 := rfl
  rw [hwhole, encoding.size, hevidence, hnode]
  simp only [String.length_append, hbrace]
  omega

/-- Trimming by size drops the node without a warning. -/
theorem trimmed_silently : ¬∀ results limits merged,
    merge_evidence results limits = some merged →
      (Lost results merged ↔ TRUNCATED ∈ merged.warnings) := by
  intro h
  have hescaped (n : Nat) : (json.asciiStr (String.ofList (List.replicate n 'a'))).length =
      n + 2 := by
    have hescape : json.escapeAscii 'a' = ['a'] := by decide
    have hquote : "\"".length = 1 := rfl
    have hbody : (String.ofList ((List.replicate n 'a').flatMap json.escapeAscii)).length = n := by
      simp [List.length_flatMap, hescape]
    rw [json.asciiStr, String.length_append, String.length_append, String.toList_ofList, hbody,
      hquote]
    omega
  have hbytes : BytesExceeded [labelled_result (String.ofList (List.replicate 1023 'a'))]
      small_limits := by
    refine ⟨List.cons_ne_nil _ _, ?_⟩
    have hsize := labelled_size (String.ofList (List.replicate 1023 'a'))
    rw [hescaped] at hsize
    exact lt_trans (by decide) hsize
  have hbefore (label : String) : ¬WarnedBefore [labelled_result label] := by
    simp [WarnedBefore, labelled_result]
  obtain ⟨merged, hmerge⟩ := merge_evidence_isSome
    [labelled_result (String.ofList (List.replicate 1023 'a'))] small_limits
  have hboth := h _ _ _ hmerge
  rw [lost_iff hmerge, warned_iff hmerge] at hboth
  exact (hboth.mp (Or.inr hbytes)).elim (labelled_counts _) (hbefore _)

end lagraph.agent
