import LaGraph.Agent.Scope.Selection

open foundation

namespace lagraph.agent

inductive Failure
  | value_error (message : String)
  | runtime_error (message : String)
  | model_response_error (message : String)
  | key_error
  /-- What the adapter or the model raised. -/
  | raised (message : String)
  deriving DecidableEq, Repr

/-- The graph adapter: what it answers at each call of a request. -/
structure GraphClient where
  search : Nat → String → Except Failure GraphResult
  get_neighbors : Nat → String → Nat → Except Failure GraphResult

inductive FollowUpKind
  | standalone | resolved_follow_up | clarification
  deriving DecidableEq, Repr

structure FollowUpResolution where
  kind : FollowUpKind
  standalone_query : Option String
  clarification_question : Option String
  referenced_turn_ids : List String

structure FollowUpRequest where
  question : String
  history : List ConversationTurn
  language : ResponseLanguage

structure ModelRequest where
  question : String
  context : Context
  language : ResponseLanguage
  history : List ConversationTurn

structure AnswerDraft where
  answer : String
  confidence : Confidence
  citation_ids : List String
  warnings : List String

structure LanguageModel where
  resolve_follow_up : FollowUpRequest → Except Failure FollowUpResolution
  generate : ModelRequest → Except Failure AnswerDraft

/-- `retrieve` of a query within a scope, up to a number of passages. -/
abbrev SourceRetriever :=
  String → retrieval.RetrievalScope → Nat → Except Failure (List retrieval.SourcePassage)

/-- What a workflow is built from. -/
structure KnowledgeWorkflow where
  graph_client : GraphClient
  model : LanguageModel
  limits : WorkflowLimits
  max_history_turns : Nat
  max_history_characters : Nat
  source_retriever : Option SourceRetriever
  rules : TextRules

inductive Category
  | knowledge | relationship
  deriving DecidableEq, Repr

def Category.name : Category → String
  | .knowledge => "knowledge"
  | .relationship => "relationship"

/-- The state that the nodes update; every key has a value that no node reads before
another has set it. -/
structure WorkflowState where
  question : String
  conversation_history : List ConversationTurn
  response_language : ResponseLanguage
  follow_up_resolution : FollowUpResolution
  resolved_query : String
  response_type : ResponseType := .answer
  category : Category := .knowledge
  planned_query : String := ""
  search_result : GraphResult := ⟨⟨none, none, none⟩, none, [], none, []⟩
  retrieval_scope : retrieval.RetrievalScope := ⟨[], []⟩
  source_passages : List retrieval.SourcePassage := []
  source_available : Bool := false
  /-- The results that the evidence is merged from. -/
  graph_results : List GraphResult := []
  evidence : GraphEvidence := .empty
  evidence_citations : List Citation := []
  graph_version : Option String := none
  context : Context := ⟨"", [], [], [], [], []⟩
  draft_answer : String := ""
  draft_confidence : Confidence := .insufficient
  draft_citation_ids : List String := []
  warnings : List String := []
  tool_calls : Nat := 0
  model_iterations : Nat := 0

variable (workflow : KnowledgeWorkflow)

def orRaise {α : Type} (failure : Failure) : Option α → Except Failure α
  | some a => .ok a
  | none => .error failure

def validate_request (question : String) (history : List ConversationTurn) :
    Except Failure WorkflowState :=
  let question := workflow.rules.strip question
  if question = "" ∨ 4000 < question.length then
    .error (.value_error "Question must contain between 1 and 4000 characters")
  else
    .ok
      { question
        conversation_history := sanitize_conversation_history workflow.rules history
          workflow.max_history_turns workflow.max_history_characters
        response_language := detect_response_language workflow.rules question
        follow_up_resolution := ⟨.standalone, some question, none, []⟩
        resolved_query := question }

def resolve_follow_up (state : WorkflowState) : Except Failure WorkflowState :=
  if state.conversation_history = [] then
    .ok
      { state with
        follow_up_resolution := ⟨.standalone, some state.question, none, []⟩
        resolved_query := state.question }
  else do
    let output ← workflow.model.resolve_follow_up
      ⟨state.question, state.conversation_history, state.response_language⟩
    if output.referenced_turn_ids.any fun id =>
        state.conversation_history.all fun turn => turn.id ≠ id then
      .error (.model_response_error "Follow-up referenced an unknown turn")
    else if output.kind = .clarification then
      let question := workflow.rules.strip (output.clarification_question.getD "")
      if question = "" then
        .error (.model_response_error "Clarification response omitted its question")
      else
        .ok
          { state with
            follow_up_resolution :=
              ⟨.clarification, none, some question, output.referenced_turn_ids⟩
            resolved_query := state.question }
    else
      let query := workflow.rules.strip (output.standalone_query.getD "")
      if query = "" then
        .error (.model_response_error "Follow-up response omitted its standalone query")
      else
        .ok
          { state with
            follow_up_resolution := ⟨output.kind, some query, none, output.referenced_turn_ids⟩
            resolved_query := query }

def prepare_clarification (state : WorkflowState) : WorkflowState :=
  { state with
    draft_answer := state.follow_up_resolution.clarification_question.getD ""
    draft_confidence := .insufficient
    draft_citation_ids := []
    evidence := .empty
    evidence_citations := []
    graph_version := none
    warnings := []
    response_type := .clarification }

/-- A text occurs in another one. -/
def occurs (pattern value : String) : Bool :=
  value.toList.tails.any (pattern.toList.isPrefixOf ·)

def classify_question (state : WorkflowState) : WorkflowState :=
  { state with
    category :=
      if ["relationship", "related", "connect", "path", "relacion", "relación", "conecta",
          "vincula"].any (occurs · (workflow.rules.lower state.resolved_query)) then .relationship
      else .knowledge }

def plan_graph_query (state : WorkflowState) : WorkflowState :=
  { state with planned_query := normalize_retrieval_query workflow.rules state.resolved_query }

/-- The first of further queries that finds nodes, and the number of calls then. -/
def focused_retrieval : Nat → List String → Except Failure (Nat × Option GraphResult)
  | calls, [] => .ok (calls, none)
  | calls, candidate :: rest =>
    if workflow.limits.max_tool_calls ≤ calls then .ok (calls, none)
    else do
      let retry ← workflow.graph_client.search calls candidate
      if items retry (·.nodes) ≠ [] then .ok (calls + 1, some retry)
      else focused_retrieval (calls + 1) rest

def FOCUSED_QUERY_WARNING : String :=
  "Graphify returned no nodes for the primary query; a focused retrieval query was used."

def query_graphify (state : WorkflowState) : Except Failure WorkflowState :=
  if workflow.limits.max_tool_calls ≤ state.tool_calls then
    .error (.runtime_error "Graphify tool-call limit exceeded")
  else do
    let result ← workflow.graph_client.search state.tool_calls state.planned_query
    let calls := state.tool_calls + 1
    if items result (·.nodes) ≠ [] then
      .ok { state with search_result := result, tool_calls := calls, warnings := [] }
    else do
      let variants := retrieval_query_variants workflow.rules state.resolved_query
      let (calls, retry) ← focused_retrieval workflow calls (variants.drop 1)
      match retry with
      | some retry =>
        .ok
          { state with
            search_result := retry
            tool_calls := calls
            warnings := [FOCUSED_QUERY_WARNING] }
      | none => .ok { state with search_result := result, tool_calls := calls, warnings := [] }

def scope_text_retrieval (state : WorkflowState) : Except Failure WorkflowState := do
  let scope ← orRaise .key_error
    (source_scope workflow.rules state.search_result state.resolved_query)
  pure { state with retrieval_scope := scope }

def is_article_detail_question (state : WorkflowState) : Bool :=
  !(workflow.rules.article_numbers state.resolved_query).isEmpty

def passages_missing_warning : ResponseLanguage → String
  | .es => SOURCE_PASSAGES_MISSING_WARNING_ES
  | .en => SOURCE_PASSAGES_MISSING_WARNING

def retrieve_source_passages_with_haystack (state : WorkflowState) : WorkflowState :=
  let article_detail := is_article_detail_question workflow state
  let missing := passages_missing_warning state.response_language
  match workflow.source_retriever with
  | none => { state with source_passages := [], source_available := false }
  | some retrieve =>
    if state.retrieval_scope.documents = [] ∨
        (article_detail ∧ state.retrieval_scope.articles = []) then
      { state with
        source_passages := []
        source_available := state.retrieval_scope.documents ≠ []
        warnings := (state.warnings ++ if article_detail then [missing] else []).eraseDups }
    else
      match retrieve state.planned_query state.retrieval_scope 8 with
      | .error _ =>
        { state with
          source_passages := []
          source_available := false
          warnings := (state.warnings ++ [SOURCE_RETRIEVAL_UNAVAILABLE_WARNING]).eraseDups }
      | .ok passages =>
        { state with
          source_passages := passages
          source_available := true
          warnings := (state.warnings ++
            if article_detail ∧ passages = [] then [missing] else []).eraseDups }

def expand_graph_evidence (state : WorkflowState) : Except Failure WorkflowState := do
  let initial ← orRaise .key_error (merge_evidence [state.search_result] workflow.limits)
  let remaining := workflow.limits.max_tool_calls - state.tool_calls
  let expanded ← ((initial.evidence.nodes.take remaining).zipIdx state.tool_calls).mapM fun item =>
    workflow.graph_client.get_neighbors item.2 item.1.id workflow.limits.max_traversal_depth
  let results := state.search_result :: expanded
  let merged ← orRaise .key_error (merge_evidence results workflow.limits)
  pure
    { state with
      graph_results := results
      evidence := merged.evidence
      evidence_citations := merged.citations
      graph_version := merged.graph_version
      warnings := (state.warnings ++ merged.warnings).eraseDups
      tool_calls := state.tool_calls + expanded.length }

def merge_graph_and_text_evidence (state : WorkflowState) : WorkflowState :=
  { state with
    evidence_citations :=
      ((state.evidence_citations ++ state.source_passages.map source_citation).foldl assign
        .empty).rows }

def prepare_model_context (state : WorkflowState) : Except Failure WorkflowState := do
  let context ← orRaise .key_error
    (prepare_context state.evidence state.evidence_citations state.source_passages
      state.category.name)
  pure { state with context }

/-- A draft that stands for missing evidence. -/
def insufficient_draft (state : WorkflowState) : WorkflowState :=
  { state with
    draft_answer := insufficient_answer state.response_language
    draft_confidence := .insufficient
    draft_citation_ids := [] }

def generate_answer (state : WorkflowState) : Except Failure WorkflowState :=
  if state.evidence.nodes = [] ∨ state.evidence_citations = [] then
    .ok (insufficient_draft state)
  else if workflow.source_retriever.isSome ∧ is_article_detail_question workflow state ∧
      state.source_passages = [] then
    .ok (insufficient_draft state)
  else if workflow.limits.max_model_iterations ≤ state.model_iterations then
    .error (.runtime_error "Model iteration limit exceeded")
  else do
    let output ← workflow.model.generate
      ⟨state.question, state.context, state.response_language, state.conversation_history⟩
    pure
      { state with
        draft_answer := output.answer
        draft_confidence := output.confidence
        draft_citation_ids := output.citation_ids.eraseDups
        warnings := (state.warnings ++ output.warnings).eraseDups
        model_iterations := state.model_iterations + 1 }

/-- The question asks for the text of an article, or it is a knowledge question that
passages were retrieved for. -/
def article_detail_required (state : WorkflowState) : Bool :=
  workflow.source_retriever.isSome && is_article_detail_question workflow state

def passages_available (state : WorkflowState) : Bool :=
  state.category ≠ .relationship && !state.source_passages.isEmpty

def is_source_id (id : String) : Bool :=
  text.startsWith id "source:"

def allows (citations : List Citation) (id : String) : Bool :=
  citations.any (·.id = id)

def unsupported_citations_warning : ResponseLanguage → String
  | .es => UNSUPPORTED_CITATIONS_WARNING_ES
  | .en => UNSUPPORTED_CITATIONS_WARNING

def validate_grounding (state : WorkflowState) : WorkflowState :=
  let requested := state.draft_citation_ids
  let unsupported := requested.any fun id => !allows state.evidence_citations id
  let without_source_citation := !requested.any is_source_id
  if state.draft_confidence = .insufficient ∨ requested = [] ∨ unsupported ∨
      (article_detail_required workflow state ∧ without_source_citation) ∨
      (passages_available state ∧ without_source_citation) then
    { insufficient_draft state with
      response_type := .insufficient
      warnings := (state.warnings ++
        if unsupported then [unsupported_citations_warning state.response_language]
        else []).eraseDups }
  else { state with response_type := .answer }

def format_response (state : WorkflowState) : Answer :=
  let citations := state.evidence_citations.filter (·.id ∈ state.draft_citation_ids)
  { answer := numbered_citation_answer state.draft_answer citations state.response_language
    response_type := state.response_type
    confidence := state.draft_confidence
    graph_version := state.graph_version
    citations
    graph_evidence := state.evidence
    warnings := state.warnings }

/-- The nodes from the classification of a question to the model's draft. -/
def investigate (state : WorkflowState) : Except Failure WorkflowState := do
  let state ← query_graphify workflow (plan_graph_query workflow (classify_question workflow state))
  let state ← scope_text_retrieval workflow state
  let state := retrieve_source_passages_with_haystack workflow state
  let state ← expand_graph_evidence workflow state
  let state ← prepare_model_context (merge_graph_and_text_evidence state)
  generate_answer workflow state

/-- The nodes before the draft is checked; a question to be clarified skips the rest. -/
def draft (question : String) (history : List ConversationTurn) :
    Except Failure WorkflowState := do
  let state ← validate_request workflow question history
  let state ← resolve_follow_up workflow state
  if state.follow_up_resolution.kind = .clarification then pure (prepare_clarification state)
  else investigate workflow state

/-- The nodes after the draft. -/
def respond (state : WorkflowState) : Answer :=
  format_response
    (if state.follow_up_resolution.kind = .clarification then state
      else validate_grounding workflow state)

def invoke (question : String) (history : List ConversationTurn) : Except Failure Answer := do
  let state ← draft workflow question history
  pure (respond workflow state)

end lagraph.agent
