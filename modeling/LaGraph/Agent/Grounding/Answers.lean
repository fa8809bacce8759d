import LaGraph.Agent.Grounding

open foundation

namespace lagraph.agent

variable {workflow : KnowledgeWorkflow} {state : WorkflowState}

theorem allows_iff {citations : List Citation} {id : String} :
    allows citations id = true ↔ ∃ citation ∈ citations, citation.id = id := by
  simp [allows, List.any_eq_true]

/-- The drafts that the check turns down. -/
def Rejected (workflow : KnowledgeWorkflow) (state : WorkflowState) : Prop :=
  state.draft_confidence = .insufficient ∨ state.draft_citation_ids = [] ∨
    (∃ id ∈ state.draft_citation_ids, ¬ allows state.evidence_citations id = true) ∨
    RequiresSourceText workflow state ∧
      ¬ ∃ id ∈ state.draft_citation_ids, is_source_id id = true

theorem rejected_iff :
    Rejected workflow state ↔
      state.draft_confidence = .insufficient ∨ state.draft_citation_ids = [] ∨
        (state.draft_citation_ids.any fun id => !allows state.evidence_citations id) = true ∨
        (article_detail_required workflow state = true ∧
          (!state.draft_citation_ids.any is_source_id) = true) ∨
        (passages_available state = true ∧
          (!state.draft_citation_ids.any is_source_id) = true) := by
  have hunsupported : (state.draft_citation_ids.any fun id =>
      !allows state.evidence_citations id) = true ↔
        ∃ id ∈ state.draft_citation_ids, ¬ allows state.evidence_citations id = true := by
    simp [List.any_eq_true]
  have hsource : (!state.draft_citation_ids.any is_source_id) = true ↔
      ¬ ∃ id ∈ state.draft_citation_ids, is_source_id id = true := by
    rw [Bool.not_eq_true', Bool.eq_false_iff, ne_eq, List.any_eq_true]
  rw [Rejected, RequiresSourceText, hunsupported, hsource, or_and_right]

/-- A rejected draft is answered with the fixed text and without citations. -/
theorem rejected_answer (h : Rejected workflow state) :
    (format_response (validate_grounding workflow state)).response_type = .insufficient ∧
      (format_response (validate_grounding workflow state)).answer =
        insufficient_answer state.response_language ∧
      (format_response (validate_grounding workflow state)).citations = [] := by
  have hnone : state.evidence_citations.filter (·.id ∈ ([] : List String)) = [] := by
    rw [List.filter_eq_nil_iff]
    intro citation _ hcited
    exact List.not_mem_nil (of_decide_eq_true hcited)
  rw [validate_grounding]
  simp only [if_pos (rejected_iff.mp h)]
  refine ⟨rfl, ?_, hnone⟩
  have hdisplayed := insufficient_displayed state.response_language
  unfold format_response insufficient_draft
  simp only [hnone]
  exact hdisplayed

/-- An accepted draft is answered with the citations of the cited identifiers. -/
theorem accepted_answer (h : ¬ Rejected workflow state) :
    (format_response (validate_grounding workflow state)).response_type = .answer ∧
      (format_response (validate_grounding workflow state)).citations =
        state.evidence_citations.filter (·.id ∈ state.draft_citation_ids) := by
  rw [validate_grounding]
  simp only [if_neg (mt rejected_iff.mpr h)]
  exact ⟨rfl, rfl⟩

/-- Whatever the adapter, the retriever and the model return, the answer is grounded
exactly when the draft does not pass off another citation as a passage. -/
theorem grounded_iff {question : String} {history : List ConversationTurn}
    (h : draft workflow question history = .ok state) :
    Grounded workflow state (respond workflow state) ↔ CitesPassage workflow state := by
  obtain ⟨hkind, htype, hconfidence⟩ | ⟨hkind, hretrieved, hgathered⟩ := draft_ok h
  · rw [respond, if_pos hkind]
    have htype : (format_response state).response_type = .clarification := htype
    constructor
    · intro _ _ hconfident
      exact absurd hconfidence hconfident
    · intro _
      constructor <;> intro hother <;> rw [htype] at hother <;> cases hother
  · rw [respond, if_neg hkind]
    by_cases hrejected : Rejected workflow state
    · obtain ⟨htype, htext, hcitations⟩ := rejected_answer hrejected
      constructor
      · intro _ hrequired hconfident hallowed hsource
        obtain hinsufficient | hempty | ⟨id, hid, hunknown⟩ | ⟨-, hnone⟩ := hrejected
        · exact absurd hinsufficient hconfident
        · obtain ⟨id, hid, -⟩ := hsource
          rw [hempty] at hid
          cases hid
        · exact absurd (hallowed id hid) hunknown
        · exact absurd hsource hnone
      · intro _
        constructor
        case insufficient => exact fun _ => ⟨htext, hcitations⟩
        all_goals
          intro hanswer
          rw [htype] at hanswer
          cases hanswer
    · obtain ⟨htype, hcitations⟩ := accepted_answer hrejected
      rw [Rejected, not_or, not_or, not_or, not_and, not_not] at hrejected
      obtain ⟨hconfident, hsome, hallowed, hsource⟩ := hrejected
      simp only [not_exists, not_and, not_not] at hallowed
      have hmem : ∀ citation, citation ∈ (format_response
          (validate_grounding workflow state)).citations ↔
            citation ∈ state.evidence_citations ∧ citation.id ∈ state.draft_citation_ids := by
        intro citation
        rw [hcitations, List.mem_filter, decide_eq_true_eq]
      constructor
      · intro hgrounded hrequired _ _ _
        obtain ⟨citation, hcitation, -, passage, hpassage, hid⟩ :=
          hgrounded.passage_cited htype hrequired
        exact ⟨citation.id, ((hmem citation).mp hcitation).2, passage, hpassage, hid.symm⟩
      · intro hcites
        constructor
        case cited =>
          intro _ hempty
          obtain ⟨id, hid⟩ := List.exists_mem_of_ne_nil _ hsome
          obtain ⟨citation, hcitation, rfl⟩ := allows_iff.mp (hallowed id hid)
          have hcited := (hmem citation).mpr ⟨hcitation, hid⟩
          rw [hempty] at hcited
          cases hcited
        case gathered =>
          intro _ citation hcitation
          exact hgathered citation ((hmem citation).mp hcitation).1
        case passage_cited =>
          intro _ hrequired
          obtain ⟨id, hid, passage, hpassage, hsame⟩ :=
            hcites hrequired hconfident hallowed (hsource hrequired)
          obtain ⟨citation, hcitation, rfl⟩ := allows_iff.mp (hallowed id hid)
          exact ⟨citation, (hmem citation).mpr ⟨hcitation, hid⟩,
            hretrieved (List.ne_nil_of_mem hpassage), passage, hpassage, hsame.symm⟩
        case insufficient =>
          intro hinsufficient
          rw [htype] at hinsufficient
          cases hinsufficient

def statute : GraphNode where
  id := "a"
  label := "Pension law"
  type := "entity"
  properties := []
  source := some "law.md"
  excerpt := none
  provenance := .extracted

/-- The adapter cites the node under an identifier like that of a passage. -/
def statute_result : GraphResult where
  direct := ⟨some [statute], some [], some []⟩
  nested := none
  citations := [.of_graph "source:a" "Pension law" "law.md" (some "a") none .extracted none]
  graph_version := none
  warnings := []

def statute_passage : retrieval.SourcePassage where
  id := "source:p"
  document := "law.md"
  article := none
  paragraph := none
  text := "Pensions are paid monthly."
  start_line := 1
  end_line := 1
  checksum := ""
  graph_version := "v1"
  score := some 1
  media_type := "text/markdown"
  profile := "general"
  processing_fingerprint := none
  level := 0
  parent_id := none
  children_ids := []
  token_count := 5
  start_char := 0
  end_char := 26
  page_number := none
  section_path := []
  standalone := true
  auto_merge_threshold := 1 / 2

/-- A model that cites the identifiers given. -/
def citing_model (citation_ids : List String) : LanguageModel where
  resolve_follow_up := fun request => .ok ⟨.standalone, some request.question, none, []⟩
  generate := fun _ => .ok ⟨"Monthly.", .high, citation_ids, []⟩

def statute_workflow (citation_ids : List String) : KnowledgeWorkflow where
  graph_client := ⟨fun _ _ => .ok statute_result, fun _ _ _ => .ok statute_result⟩
  model := citing_model citation_ids
  limits := .default
  max_history_turns := 6
  max_history_characters := 8000
  source_retriever := some fun _ _ _ => .ok [statute_passage]
  rules := plain_rules

/-- A passage is retrieved, and the answer cites only the adapter's identifier. -/
theorem adapter_citation_passes_for_passage :
    ¬ ∀ workflow question history state, draft workflow question history = .ok state →
      Grounded workflow state (respond workflow state) := by
  intro h
  have hdraft : ∃ state ∈ (draft (statute_workflow ["source:a"]) "When are pensions paid"
      []).toOption, passages_available state = true ∧
        (respond (statute_workflow ["source:a"]) state).response_type = .answer ∧
        ∀ citation ∈ (respond (statute_workflow ["source:a"]) state).citations,
          ∀ passage ∈ state.source_passages, citation.id ≠ passage.id := by decide +kernel
  obtain ⟨state, hstate, havailable, hanswer, hother⟩ := hdraft
  have hgrounded := h _ _ _ _ (results.mem_toOption.mp hstate)
  obtain ⟨citation, hcitation, -, passage, hpassage, hsame⟩ :=
    hgrounded.passage_cited hanswer (Or.inr havailable)
  exact hother citation hcitation passage hpassage hsame

/-- The answer that cites the passage is grounded. -/
theorem grounded_iff_cited : ∃ state,
    draft (statute_workflow ["source:p"]) "When are pensions paid" [] = .ok state ∧
      Grounded (statute_workflow ["source:p"]) state
        (respond (statute_workflow ["source:p"]) state) := by
  have hdraft : ∃ state ∈ (draft (statute_workflow ["source:p"]) "When are pensions paid"
      []).toOption, ∃ id ∈ state.draft_citation_ids,
        ∃ passage ∈ state.source_passages, passage.id = id := by decide +kernel
  obtain ⟨state, hstate, hcites⟩ := hdraft
  have hstate := results.mem_toOption.mp hstate
  exact ⟨state, hstate, (grounded_iff hstate).mpr fun _ _ _ _ => hcites⟩

end lagraph.agent
