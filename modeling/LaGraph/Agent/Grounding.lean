import LaGraph.Agent.Evidence.Citations
import LaGraph.Agent.Workflow
import LaGraph.Foundation.Results

open foundation

namespace lagraph.agent

variable (workflow : KnowledgeWorkflow)

/-- The graph adapter answered with the result. -/
def FromAdapter (result : GraphResult) : Prop :=
  (∃ call query, workflow.graph_client.search call query = .ok result) ∨
    ∃ call id depth, workflow.graph_client.get_neighbors call id depth = .ok result

/-- The retriever returned the passages of the state. -/
def Retrieved (state : WorkflowState) : Prop :=
  ∃ retrieve ∈ workflow.source_retriever,
    retrieve state.planned_query state.retrieval_scope 8 = .ok state.source_passages

/-- A citation of what the adapter and the retriever answered in this request. -/
def Gathered (state : WorkflowState) (citation : Citation) : Prop :=
  (∃ merged, (∀ result ∈ state.graph_results, FromAdapter workflow result) ∧
    merge_evidence state.graph_results workflow.limits = some merged ∧
    citation ∈ merged.citations) ∨
  Retrieved workflow state ∧ ∃ passage ∈ state.source_passages, citation = source_citation passage

/-- The question needs the text of the documents for its answer. -/
def RequiresSourceText (state : WorkflowState) : Prop :=
  article_detail_required workflow state = true ∨ passages_available state = true

/-- An answer rests on what was gathered, and on a passage when the text is needed; an
insufficient one is the fixed text. -/
structure Grounded (state : WorkflowState) (answer : Answer) : Prop where
  cited : answer.response_type = .answer → answer.citations ≠ []
  gathered : answer.response_type = .answer →
    ∀ citation ∈ answer.citations, Gathered workflow state citation
  passage_cited : answer.response_type = .answer → RequiresSourceText workflow state →
    ∃ citation ∈ answer.citations,
      Retrieved workflow state ∧ ∃ passage ∈ state.source_passages, citation.id = passage.id
  insufficient : answer.response_type = .insufficient →
    answer.answer = insufficient_answer state.response_language ∧ answer.citations = []

/-- Where the text is needed, a confident draft that cites known identifiers, one of
them with the prefix of a passage, cites a passage. -/
def CitesPassage (state : WorkflowState) : Prop :=
  RequiresSourceText workflow state → state.draft_confidence ≠ .insufficient →
    (∀ id ∈ state.draft_citation_ids, allows state.evidence_citations id = true) →
    (∃ id ∈ state.draft_citation_ids, is_source_id id = true) →
    ∃ id ∈ state.draft_citation_ids, ∃ passage ∈ state.source_passages, passage.id = id

variable {workflow : KnowledgeWorkflow} {state after : WorkflowState}

theorem orRaise_ok {α : Type} {failure : Failure} {value : Option α} {a : α} :
    orRaise failure value = .ok a ↔ value = some a := by
  cases value with
  | none => simp [orRaise]
  | some b => simp [orRaise]

/-- What is merged is among the citations given, under their identifiers. -/
theorem mem_of_assigned {citations : List Citation} {citation : Citation}
    (h : citation ∈ (citations.foldl assign .empty).rows) : citation ∈ citations := by
  induction citations using List.reverseRecOn with
  | nil => cases h
  | append_singleton citations last ih =>
    rw [List.foldl_append, List.foldl_cons, List.foldl_nil, Table.mem_rows, mem_assign] at h
    cases h with
    | inl h => exact List.mem_append_right _ (List.mem_singleton.mpr h)
    | inr h => exact List.mem_append_left _ (ih (Table.mem_rows.mpr h.1))

theorem focused_retrieval_ok {calls n : Nat} {candidates : List String} {result : GraphResult}
    (h : focused_retrieval workflow calls candidates = .ok (n, some result)) :
    FromAdapter workflow result := by
  induction candidates generalizing calls with
  | nil => cases h
  | cons candidate rest ih =>
    rw [focused_retrieval] at h
    by_cases hlimit : workflow.limits.max_tool_calls ≤ calls
    · rw [if_pos hlimit] at h
      cases h
    · rw [if_neg hlimit] at h
      obtain ⟨retry, hretry, h⟩ := results.bind_ok.mp h
      by_cases hnodes : items retry (·.nodes) ≠ []
      · rw [if_pos hnodes] at h
        cases h
        exact Or.inl ⟨calls, candidate, hretry⟩
      · rw [if_neg hnodes] at h
        exact ih h

theorem query_graphify_ok (h : query_graphify workflow state = .ok after) :
    FromAdapter workflow after.search_result := by
  rw [query_graphify] at h
  by_cases hlimit : workflow.limits.max_tool_calls ≤ state.tool_calls
  · rw [if_pos hlimit] at h
    cases h
  · rw [if_neg hlimit] at h
    obtain ⟨result, hresult, h⟩ := results.bind_ok.mp h
    have hfirst : FromAdapter workflow result := Or.inl ⟨_, _, hresult⟩
    by_cases hnodes : items result (·.nodes) ≠ []
    · rw [if_pos hnodes] at h
      cases h
      exact hfirst
    · rw [if_neg hnodes] at h
      obtain ⟨⟨calls, retry⟩, hretry, h⟩ := results.bind_ok.mp h
      cases retry with
      | none =>
        cases h
        exact hfirst
      | some retry =>
        cases h
        exact focused_retrieval_ok hretry

/-- Passages in the state are those that the retriever returned for its scope. -/
theorem retrieved_of_passages
    (h : (retrieve_source_passages_with_haystack workflow state).source_passages ≠ []) :
    Retrieved workflow (retrieve_source_passages_with_haystack workflow state) := by
  unfold retrieve_source_passages_with_haystack at h ⊢
  cases hretriever : workflow.source_retriever with
  | none =>
    rw [hretriever] at h
    exact absurd rfl h
  | some retrieve =>
    rw [hretriever] at h
    by_cases hscope : state.retrieval_scope.documents = [] ∨
        (is_article_detail_question workflow state = true ∧ state.retrieval_scope.articles = [])
    · simp only [if_pos hscope] at h
      exact absurd rfl h
    · simp only [if_neg hscope] at h ⊢
      cases hpassages : retrieve state.planned_query state.retrieval_scope 8 with
      | error failure =>
        rw [hpassages] at h
        exact absurd rfl h
      | ok passages => exact ⟨retrieve, hretriever, hpassages⟩

/-- The fields that the draft is judged by and that only the nodes before it set. -/
structure SameEvidence (state after : WorkflowState) : Prop where
  resolution : after.follow_up_resolution = state.follow_up_resolution
  planned_query : after.planned_query = state.planned_query
  scope : after.retrieval_scope = state.retrieval_scope
  passages : after.source_passages = state.source_passages
  results : after.graph_results = state.graph_results
  citations : after.evidence_citations = state.evidence_citations

theorem SameEvidence.retrieved (h : SameEvidence state after) :
    Retrieved workflow after ↔ Retrieved workflow state := by
  unfold Retrieved
  rw [h.planned_query, h.scope, h.passages]

theorem SameEvidence.gathered (h : SameEvidence state after) {citation : Citation} :
    Gathered workflow after citation ↔ Gathered workflow state citation := by
  unfold Gathered
  rw [h.retrieved, h.results, h.passages]

theorem generate_answer_ok (h : generate_answer workflow state = .ok after) :
    SameEvidence state after := by
  rw [generate_answer] at h
  by_cases hempty : state.evidence.nodes = [] ∨ state.evidence_citations = []
  · rw [if_pos hempty] at h
    cases h
    constructor <;> rfl
  · rw [if_neg hempty] at h
    by_cases harticle : workflow.source_retriever.isSome ∧
        is_article_detail_question workflow state = true ∧ state.source_passages = []
    · rw [if_pos harticle] at h
      cases h
      constructor <;> rfl
    · rw [if_neg harticle] at h
      by_cases hlimit : workflow.limits.max_model_iterations ≤ state.model_iterations
      · rw [if_pos hlimit] at h
        cases h
      · rw [if_neg hlimit] at h
        obtain ⟨output, -, h⟩ := results.bind_ok.mp h
        cases h
        constructor <;> rfl

/-- Passages are looked up without touching how the question was resolved. -/
theorem retrieve_resolution :
    (retrieve_source_passages_with_haystack workflow state).follow_up_resolution =
        state.follow_up_resolution ∧
      (retrieve_source_passages_with_haystack workflow state).search_result =
        state.search_result := by
  unfold retrieve_source_passages_with_haystack
  cases workflow.source_retriever with
  | none => exact ⟨rfl, rfl⟩
  | some retrieve =>
    by_cases hscope : state.retrieval_scope.documents = [] ∨
        (is_article_detail_question workflow state = true ∧ state.retrieval_scope.articles = [])
    · simp only [if_pos hscope, and_self]
    · simp only [if_neg hscope]
      cases retrieve state.planned_query state.retrieval_scope 8 <;> exact ⟨rfl, rfl⟩

theorem query_graphify_resolution (h : query_graphify workflow state = .ok after) :
    after.follow_up_resolution = state.follow_up_resolution := by
  rw [query_graphify] at h
  by_cases hlimit : workflow.limits.max_tool_calls ≤ state.tool_calls
  · rw [if_pos hlimit] at h
    cases h
  · rw [if_neg hlimit] at h
    obtain ⟨result, -, h⟩ := results.bind_ok.mp h
    by_cases hnodes : items result (·.nodes) ≠ []
    · rw [if_pos hnodes] at h
      cases h
      rfl
    · rw [if_neg hnodes] at h
      obtain ⟨⟨calls, retry⟩, -, h⟩ := results.bind_ok.mp h
      cases retry <;> cases h <;> rfl

/-- The evidence of the graph is merged from results of the adapter. -/
theorem expand_graph_evidence_ok (h : expand_graph_evidence workflow state = .ok after)
    (hsearch : FromAdapter workflow state.search_result) :
    (∀ result ∈ after.graph_results, FromAdapter workflow result) ∧
      (∃ merged, merge_evidence after.graph_results workflow.limits = some merged ∧
        after.evidence_citations = merged.citations) ∧
      after.follow_up_resolution = state.follow_up_resolution ∧
      after.planned_query = state.planned_query ∧
      after.retrieval_scope = state.retrieval_scope ∧
      after.source_passages = state.source_passages := by
  rw [expand_graph_evidence] at h
  obtain ⟨initial, -, h⟩ := results.bind_ok.mp h
  obtain ⟨expanded, hexpanded, h⟩ := results.bind_ok.mp h
  obtain ⟨merged, hmerged, h⟩ := results.bind_ok.mp h
  cases h
  refine ⟨?_, ⟨merged, orRaise_ok.mp hmerged, rfl⟩, rfl, rfl, rfl, rfl⟩
  intro result hresult
  cases List.mem_cons.mp hresult with
  | inl hfirst => exact hfirst ▸ hsearch
  | inr hresult =>
    obtain ⟨item, -, hneighbors⟩ := results.mem_of_mapM hexpanded result hresult
    exact Or.inr ⟨_, _, _, hneighbors⟩

/-- Every citation that a draft may use was gathered, and its passages were retrieved. -/
theorem investigate_ok (h : investigate workflow state = .ok after) :
    after.follow_up_resolution = state.follow_up_resolution ∧
      (after.source_passages ≠ [] → Retrieved workflow after) ∧
      ∀ citation ∈ after.evidence_citations, Gathered workflow after citation := by
  rw [investigate] at h
  obtain ⟨queried, hqueried, h⟩ := results.bind_ok.mp h
  obtain ⟨narrowed, hnarrowed, h⟩ := results.bind_ok.mp h
  obtain ⟨expanded, hexpanded, h⟩ := results.bind_ok.mp h
  obtain ⟨prepared, hprepared, h⟩ := results.bind_ok.mp h
  obtain ⟨scope, -, hnarrowed⟩ := results.bind_ok.mp hnarrowed
  obtain ⟨context, -, hprepared⟩ := results.bind_ok.mp hprepared
  cases hnarrowed
  cases hprepared
  have hsame := generate_answer_ok h
  have hsearch := query_graphify_ok hqueried
  obtain ⟨hresolution, hsearched⟩ :=
    @retrieve_resolution workflow { queried with retrieval_scope := scope }
  obtain ⟨hadapter, ⟨merged, hmerged, hcitations⟩, hkept, hquery, hscope, hpassages⟩ :=
    expand_graph_evidence_ok hexpanded (by rw [hsearched]; exact hsearch)
  have hretrieved : after.source_passages ≠ [] → Retrieved workflow after := by
    intro hne
    rw [hsame.passages] at hne
    have hne : expanded.source_passages ≠ [] := hne
    rw [hpassages] at hne
    rw [hsame.retrieved]
    change Retrieved workflow expanded
    unfold Retrieved
    rw [hquery, hscope, hpassages]
    exact retrieved_of_passages hne
  refine ⟨?_, hretrieved, ?_⟩
  · rw [hsame.resolution]
    change expanded.follow_up_resolution = _
    rw [hkept, hresolution]
    have hplanned := query_graphify_resolution hqueried
    exact hplanned
  · intro citation hcitation
    rw [hsame.citations] at hcitation
    cases List.mem_append.mp (mem_of_assigned hcitation) with
    | inl hgraph =>
      rw [hsame.gathered]
      exact Or.inl ⟨merged, hadapter, hmerged, hcitations ▸ hgraph⟩
    | inr hsource =>
      obtain ⟨passage, hpassage, rfl⟩ := List.mem_map.mp hsource
      have hpassage : passage ∈ after.source_passages := by
        rw [hsame.passages]
        exact hpassage
      exact Or.inr ⟨hretrieved (List.ne_nil_of_mem hpassage), passage, hpassage, rfl⟩

/-- A draft that is not a request to clarify the question comes from the research. -/
theorem draft_ok {question : String} {history : List ConversationTurn}
    (h : draft workflow question history = .ok state) :
    state.follow_up_resolution.kind = .clarification ∧ state.response_type = .clarification ∧
        state.draft_confidence = .insufficient ∨
      state.follow_up_resolution.kind ≠ .clarification ∧
        (state.source_passages ≠ [] → Retrieved workflow state) ∧
        ∀ citation ∈ state.evidence_citations, Gathered workflow state citation := by
  rw [draft] at h
  obtain ⟨requested, -, h⟩ := results.bind_ok.mp h
  obtain ⟨resolved, -, h⟩ := results.bind_ok.mp h
  by_cases hkind : resolved.follow_up_resolution.kind = .clarification
  · rw [if_pos hkind] at h
    cases h
    exact Or.inl ⟨hkind, rfl, rfl⟩
  · rw [if_neg hkind] at h
    obtain ⟨hresolution, hresearch⟩ := investigate_ok h
    rw [← hresolution] at hkind
    exact Or.inr ⟨hkind, hresearch⟩

end lagraph.agent
