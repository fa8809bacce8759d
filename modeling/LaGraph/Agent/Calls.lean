import LaGraph.Agent.Workflow
import LaGraph.Foundation.Guarantees
import LaGraph.Foundation.Results

open foundation foundation.Stateful

namespace lagraph.agent

inductive GraphCall
  | search (query : String)
  | get_neighbors (node_id : String) (depth : Nat)

/-- The calls of a client's methods, those that `_invoke` has counted, and whether its guard
has refused one. -/
structure GraphCalls where
  calls : Nat
  invocations : Nat
  limit_reached : Bool

/-- What a client does with its calls: the ones its checks refuse, by the number of the call,
and the answers of its server, by the number of the invocation. -/
structure GraphServer where
  refuses : Nat → GraphCall → Option Failure
  answer : Nat → GraphCall → Except Failure GraphResult

abbrev Calling := ExceptT Failure (StateM GraphCalls)

/-- A method of `MCPGraphKnowledgeClient`: its checks, and `_invoke` with the guard. -/
def invoke_tool (max_tool_calls : Nat) (server : GraphServer) (call : GraphCall) :
    Calling GraphResult := do
  let before ← get
  set { before with calls := before.calls + 1 }
  match server.refuses before.calls call with
  | some failure => throw failure
  | none =>
    set { before with calls := before.calls + 1, invocations := before.invocations + 1 }
    if max_tool_calls < before.invocations + 1 then do
      modify fun s => { s with limit_reached := true }
      throw (.raised "Graphify tool-call limit exceeded")
    else liftM (server.answer before.invocations call)

variable (workflow : KnowledgeWorkflow) (server : GraphServer)

/-- The client of a workflow, configured with the limit of the workflow. -/
def call (request : GraphCall) : Calling GraphResult :=
  invoke_tool workflow.limits.max_tool_calls server request

/-- `focused_retrieval`, making its calls. -/
def focused_retrieval_calls : Nat → List String → Calling (Nat × Option GraphResult)
  | calls, [] => pure (calls, none)
  | calls, candidate :: rest =>
    if workflow.limits.max_tool_calls ≤ calls then pure (calls, none)
    else do
      let retry ← call workflow server (.search candidate)
      if items retry (·.nodes) ≠ [] then pure (calls + 1, some retry)
      else focused_retrieval_calls (calls + 1) rest

/-- `query_graphify`, making its calls. -/
def query_graphify_calls (state : WorkflowState) : Calling WorkflowState :=
  if workflow.limits.max_tool_calls ≤ state.tool_calls then
    throw (.runtime_error "Graphify tool-call limit exceeded")
  else do
    let result ← call workflow server (.search state.planned_query)
    let calls := state.tool_calls + 1
    if items result (·.nodes) ≠ [] then
      pure { state with search_result := result, tool_calls := calls, warnings := [] }
    else do
      let variants := retrieval_query_variants workflow.rules state.resolved_query
      let (calls, retry) ← focused_retrieval_calls workflow server calls (variants.drop 1)
      match retry with
      | some retry =>
        pure
          { state with
            search_result := retry
            tool_calls := calls
            warnings := [FOCUSED_QUERY_WARNING] }
      | none => pure { state with search_result := result, tool_calls := calls, warnings := [] }

/-- `expand_graph_evidence`, making its calls. -/
def expand_graph_evidence_calls (state : WorkflowState) : Calling WorkflowState := do
  let initial ← liftM (orRaise .key_error (merge_evidence [state.search_result] workflow.limits))
  let remaining := workflow.limits.max_tool_calls - state.tool_calls
  let expanded ← (initial.evidence.nodes.take remaining).mapM fun node =>
    call workflow server (.get_neighbors node.id workflow.limits.max_traversal_depth)
  let results := state.search_result :: expanded
  let merged ← liftM (orRaise Failure.key_error (merge_evidence results workflow.limits))
  pure
    { state with
      graph_results := results
      evidence := merged.evidence
      evidence_citations := merged.citations
      graph_version := merged.graph_version
      warnings := (state.warnings ++ merged.warnings).eraseDups
      tool_calls := state.tool_calls + expanded.length }

/-- `investigate`, making its calls. -/
def investigate_calls (state : WorkflowState) : Calling WorkflowState := do
  let state ← query_graphify_calls workflow server
    (plan_graph_query workflow (classify_question workflow state))
  let state ← liftM (scope_text_retrieval workflow state)
  let state := retrieve_source_passages_with_haystack workflow state
  let state ← expand_graph_evidence_calls workflow server state
  let state ← liftM (prepare_model_context (merge_graph_and_text_evidence state))
  liftM (generate_answer workflow state)

/-- `draft`, making its calls. -/
def draft_calls (question : String) (history : List ConversationTurn) : Calling WorkflowState := do
  let state ← liftM (validate_request workflow question history)
  let state ← liftM (resolve_follow_up workflow state)
  if state.follow_up_resolution.kind = .clarification then pure (prepare_clarification state)
  else investigate_calls workflow server state

/-- `invoke`, making its calls; `stream` runs the same nodes. -/
def invoke_calls (question : String) (history : List ConversationTurn) : Calling Answer := do
  let state ← draft_calls workflow server question history
  pure (respond workflow state)

/-- The counters stay within a limit, and the guard has refused nothing. -/
structure Within (limit : Nat) (s : GraphCalls) : Prop where
  calls : s.calls ≤ limit
  invocations : s.invocations ≤ s.calls
  guard : s.limit_reached = false

/-- From `start` calls on, a part of a run stays within the limit, and has made as many calls as
it says if it returns. -/
def Spends {α : Type} (limit start : Nat) (m : Calling α) (spent : α → Nat) : Prop :=
  ∀ s, Within limit s → s.calls = start →
    Within limit (m.run.run s).2 ∧
      ∀ a, (m.run.run s).1 = .ok a → (m.run.run s).2.calls = spent a

namespace Spends

variable {α β : Type} {limit start : Nat} {m : Calling α} {spent : α → Nat}

theorem lift {x : Except Failure α} (h : ∀ a, x = .ok a → spent a = start) :
    Spends limit start (liftM x) spent := by
  intro s hs hstart
  rw [run_lift]
  exact ⟨hs, fun a ha => hstart.trans (h a ha).symm⟩

theorem pure {a : α} (h : spent a = start) : Spends limit start (Pure.pure a) spent := by
  intro s hs hstart
  refine ⟨hs, fun b hb => ?_⟩
  obtain rfl := Except.ok.inj hb
  exact hstart.trans h.symm

theorem throw (failure : Failure) : Spends limit start (MonadExcept.throw failure) spent := by
  intro s hs hstart
  refine ⟨hs, fun a ha => ?_⟩
  cases ha

theorem bind {f : α → Calling β} {spent' : β → Nat} (hm : Spends limit start m spent)
    (hf : ∀ a, spent a ≤ limit → Spends limit (spent a) (f a) spent') :
    Spends limit start (m >>= f) spent' := by
  intro s hs hstart
  obtain ⟨hwithin, hspent⟩ := hm s hs hstart
  rw [run_bind]
  cases hrun : m.run.run s with
  | mk result s' =>
    rw [hrun] at hwithin hspent
    cases result with
    | ok a =>
      have hcalls : s'.calls = spent a := hspent a rfl
      exact hf a (hcalls ▸ hwithin.calls) s' hwithin hcalls
    | error failure =>
      refine ⟨hwithin, fun a ha => ?_⟩
      cases ha

/-- What makes no calls comes before what follows. -/
theorem lift_bind {x : Except Failure α} {f : α → Calling β} {spent' : β → Nat}
    (hf : ∀ a, x = .ok a → Spends limit start (f a) spent') :
    Spends limit start (liftM x >>= f) spent' := by
  intro s hs hstart
  rw [run_bind, run_lift]
  cases hx : x with
  | ok a => exact hf a hx s hs hstart
  | error failure =>
    refine ⟨hs, fun a ha => ?_⟩
    cases ha

/-- A call within the limit is not refused by the guard. -/
theorem call {workflow : KnowledgeWorkflow} {server : GraphServer} {request : GraphCall}
    (h : start < workflow.limits.max_tool_calls) :
    Spends workflow.limits.max_tool_calls start (agent.call workflow server request)
      fun _ => start + 1 := by
  intro s hs hstart
  have hcalls := hs.calls
  have hinvocations := hs.invocations
  have hrun : ∃ result s', (agent.call workflow server request).run.run s = (result, s') ∧
      s'.calls = s.calls + 1 ∧ s'.invocations ≤ s.invocations + 1 ∧
      s'.limit_reached = s.limit_reached := by
    rw [agent.call, invoke_tool, run_bind, run_get]
    dsimp only
    rw [run_bind]
    cases hrefuses : server.refuses s.calls request with
    | some failure => exact ⟨_, _, rfl, rfl, Nat.le_succ _, rfl⟩
    | none =>
      dsimp only
      rw [if_neg (by omega)]
      exact ⟨_, _, rfl, rfl, le_refl _, rfl⟩
  obtain ⟨result, s', hresult, hcalls', hinvocations', hguard⟩ := hrun
  rw [hresult]
  dsimp only
  refine ⟨⟨?_, ?_, hguard.trans hs.guard⟩, fun a ha => ?_⟩
  · omega
  · omega
  · omega

end Spends

section Run

variable {workflow : KnowledgeWorkflow} {server : GraphServer} {state : WorkflowState}

theorem focused_retrieval_spends {start : Nat} {candidates : List String}
    (h : start ≤ workflow.limits.max_tool_calls) :
    Spends workflow.limits.max_tool_calls start
      (focused_retrieval_calls workflow server start candidates) fun found => found.1 := by
  induction candidates generalizing start with
  | nil => exact Spends.pure rfl
  | cons candidate rest ih =>
    rw [focused_retrieval_calls]
    by_cases hspent : workflow.limits.max_tool_calls ≤ start
    · rw [if_pos hspent]
      exact Spends.pure rfl
    · rw [if_neg hspent]
      refine (Spends.call (by omega)).bind fun retry _ => ?_
      split_ifs
      · exact Spends.pure rfl
      · exact ih (by omega)

theorem query_graphify_spends :
    Spends workflow.limits.max_tool_calls state.tool_calls
      (query_graphify_calls workflow server state) fun state' => state'.tool_calls := by
  rw [query_graphify_calls]
  split_ifs with hspent
  · exact Spends.throw _
  · refine (Spends.call (by omega)).bind fun result _ => ?_
    split_ifs
    · exact Spends.pure rfl
    · refine (focused_retrieval_spends (by omega)).bind fun found _ => ?_
      obtain ⟨calls, retry⟩ := found
      cases retry with
      | none => exact Spends.pure rfl
      | some retry => exact Spends.pure rfl

/-- Each expanded node costs a call. -/
theorem expand_nodes_spends {start : Nat} {nodes : List GraphNode} {depth : Nat}
    (h : start + nodes.length ≤ workflow.limits.max_tool_calls) :
    Spends workflow.limits.max_tool_calls start
      (nodes.mapM fun node => call workflow server (.get_neighbors node.id depth))
      fun expanded => start + expanded.length := by
  induction nodes generalizing start with
  | nil => exact Spends.pure rfl
  | cons node nodes ih =>
    rw [List.length_cons] at h
    rw [List.mapM_cons]
    refine (Spends.call (by omega)).bind fun result _ => ?_
    refine (ih (by omega)).bind fun expanded _ => ?_
    apply Spends.pure
    rw [List.length_cons]
    omega

theorem expand_graph_evidence_spends
    (hstate : state.tool_calls ≤ workflow.limits.max_tool_calls) :
    Spends workflow.limits.max_tool_calls state.tool_calls
      (expand_graph_evidence_calls workflow server state) fun state' => state'.tool_calls := by
  rw [expand_graph_evidence_calls]
  refine Spends.bind (Spends.lift fun _ _ => rfl) fun initial _ => ?_
  refine (expand_nodes_spends ?_).bind fun expanded _ => ?_
  · have htake := List.length_take_le
      (workflow.limits.max_tool_calls - state.tool_calls) initial.evidence.nodes
    omega
  · exact Spends.bind (Spends.lift fun _ _ => rfl) fun merged _ => Spends.pure rfl

theorem scope_text_retrieval_spends {state' : WorkflowState}
    (h : scope_text_retrieval workflow state = .ok state') :
    state'.tool_calls = state.tool_calls := by
  obtain ⟨scope, -, hstate⟩ := results.bind_ok.mp h
  obtain rfl := Except.ok.inj hstate
  rfl

theorem retrieve_source_passages_spends :
    (retrieve_source_passages_with_haystack workflow state).tool_calls = state.tool_calls := by
  rw [retrieve_source_passages_with_haystack]
  cases workflow.source_retriever with
  | none => rfl
  | some retrieve =>
    by_cases hscope : state.retrieval_scope.documents = [] ∨
        (is_article_detail_question workflow state ∧ state.retrieval_scope.articles = [])
    · dsimp only
      rw [if_pos hscope]
    · dsimp only
      rw [if_neg hscope]
      cases retrieve state.planned_query state.retrieval_scope 8 with
      | error failure => rfl
      | ok passages => rfl

theorem prepare_model_context_spends {state' : WorkflowState}
    (h : prepare_model_context state = .ok state') : state'.tool_calls = state.tool_calls := by
  obtain ⟨context, -, hstate⟩ := results.bind_ok.mp h
  obtain rfl := Except.ok.inj hstate
  rfl

theorem generate_answer_spends {state' : WorkflowState}
    (h : generate_answer workflow state = .ok state') : state'.tool_calls = state.tool_calls := by
  rw [generate_answer] at h
  split_ifs at h
  · obtain rfl := Except.ok.inj h
    rfl
  · obtain rfl := Except.ok.inj h
    rfl
  · obtain ⟨output, -, hstate⟩ := results.bind_ok.mp h
    obtain rfl := Except.ok.inj hstate
    rfl

theorem investigate_spends (hstate : state.tool_calls = 0) :
    Spends workflow.limits.max_tool_calls 0 (investigate_calls workflow server state)
      fun state' => state'.tool_calls := by
  have hplanned : (plan_graph_query workflow (classify_question workflow state)).tool_calls = 0 :=
    hstate
  rw [investigate_calls, ← hplanned]
  refine query_graphify_spends.bind fun searched _ => ?_
  refine (Spends.lift fun _ h => scope_text_retrieval_spends h).bind fun found hfound => ?_
  rw [← @retrieve_source_passages_spends workflow found] at hfound ⊢
  refine (expand_graph_evidence_spends hfound).bind fun expanded _ => ?_
  change Spends _ (merge_graph_and_text_evidence expanded).tool_calls _ _
  refine (Spends.lift fun _ h => prepare_model_context_spends h).bind fun prepared _ => ?_
  exact Spends.lift fun _ h => generate_answer_spends h

theorem validate_request_spends {question : String} {history : List ConversationTurn}
    (h : validate_request workflow question history = .ok state) : state.tool_calls = 0 := by
  rw [validate_request] at h
  split_ifs at h
  obtain rfl := Except.ok.inj h
  rfl

theorem resolve_follow_up_spends {state' : WorkflowState}
    (h : resolve_follow_up workflow state = .ok state') : state'.tool_calls = state.tool_calls := by
  rw [resolve_follow_up] at h
  split_ifs at h
  · obtain rfl := Except.ok.inj h
    rfl
  · obtain ⟨output, -, hresolved⟩ := results.bind_ok.mp h
    dsimp only at hresolved
    split_ifs at hresolved
    · obtain rfl := Except.ok.inj hresolved
      rfl
    · obtain rfl := Except.ok.inj hresolved
      rfl

theorem draft_spends {question : String} {history : List ConversationTurn} :
    Spends workflow.limits.max_tool_calls 0 (draft_calls workflow server question history)
      fun state => state.tool_calls := by
  rw [draft_calls]
  refine Spends.lift_bind fun valid hvalid => Spends.lift_bind fun resolved hresolved => ?_
  have hstate : resolved.tool_calls = 0 :=
    (resolve_follow_up_spends hresolved).trans (validate_request_spends hvalid)
  split_ifs
  · exact Spends.pure hstate
  · exact investigate_spends hstate

/-- Whatever is asked and whatever the server answers, a run makes no more calls of the client
than its limit allows, and the client's own guard refuses none of them. -/
theorem invoke_within_limit (question : String) (history : List ConversationTurn) :
    Within workflow.limits.max_tool_calls
      ((invoke_calls workflow server question history).run.run ⟨0, 0, false⟩).2 := by
  have hstart : Within workflow.limits.max_tool_calls ⟨0, 0, false⟩ :=
    ⟨Nat.zero_le _, le_refl 0, rfl⟩
  have hdraft := (@draft_spends workflow server question history _ hstart rfl).1
  rw [invoke_calls, run_bind]
  cases hrun : (draft_calls workflow server question history).run.run ⟨0, 0, false⟩ with
  | mk result s' =>
    rw [hrun] at hdraft
    cases result with
    | ok state => exact hdraft
    | error failure => exact hdraft

end Run

/-- A server whose client refuses nothing, as the adapter of the uncounted run. -/
def GraphServer.client (server : GraphServer) : GraphClient where
  search n query := server.answer n (.search query)
  get_neighbors n node_id depth := server.answer n (.get_neighbors node_id depth)

def KnowledgeWorkflow.on (workflow : KnowledgeWorkflow) (server : GraphServer) :
    KnowledgeWorkflow :=
  { workflow with graph_client := server.client }

@[simp]
theorem KnowledgeWorkflow.on_limits : (workflow.on server).limits = workflow.limits := rfl

@[simp]
theorem KnowledgeWorkflow.on_rules : (workflow.on server).rules = workflow.rules := rfl

/-- From `start` calls on, a part of a run has a given outcome, and has made as many calls as it
says if that returns. -/
def Yields {α : Type} (start : Nat) (m : Calling α) (outcome : Except Failure α)
    (spent : α → Nat) : Prop :=
  (m.run.run ⟨start, start, false⟩).1 = outcome ∧
    ∀ a, outcome = .ok a → (m.run.run ⟨start, start, false⟩).2 = ⟨spent a, spent a, false⟩

namespace Yields

variable {α β : Type} {start : Nat} {m : Calling α} {outcome : Except Failure α} {spent : α → Nat}

theorem pure {a : α} (h : spent a = start) : Yields start (Pure.pure a) (.ok a) spent := by
  refine ⟨rfl, fun b hb => ?_⟩
  obtain rfl := Except.ok.inj hb
  rw [h]
  rfl

theorem throw (failure : Failure) :
    Yields start (MonadExcept.throw failure) (.error failure) spent := by
  refine ⟨rfl, fun b hb => ?_⟩
  cases hb

theorem bind {f : α → Calling β} {g : α → Except Failure β} {spent' : β → Nat}
    (hm : Yields start m outcome spent)
    (hf : ∀ a, outcome = .ok a → Yields (spent a) (f a) (g a) spent') :
    Yields start (m >>= f) (outcome >>= g) spent' := by
  obtain ⟨hresult, hstate⟩ := hm
  rw [Yields, run_bind]
  cases hrun : m.run.run ⟨start, start, false⟩ with
  | mk result s' =>
    rw [hrun] at hresult hstate
    cases outcome with
    | error failure =>
      obtain rfl := hresult
      refine ⟨rfl, fun b hb => ?_⟩
      cases hb
    | ok a =>
      obtain rfl := hresult
      obtain rfl := hstate a rfl
      exact hf a rfl

theorem lift {x : Except Failure α} (h : ∀ a, x = .ok a → spent a = start) :
    Yields start (liftM x) x spent := by
  rw [Yields, run_lift]
  refine ⟨rfl, fun a ha => ?_⟩
  rw [h a ha]

theorem lift_bind {x : Except Failure α} {f : α → Calling β} {g : α → Except Failure β}
    {spent' : β → Nat} (hf : ∀ a, x = .ok a → Yields start (f a) (g a) spent') :
    Yields start (liftM x >>= f) (x >>= g) spent' := by
  have hlift : Yields start (liftM x : Calling α) x fun _ => start := lift fun _ _ => rfl
  exact hlift.bind hf

/-- Within the limit, a call that is not refused is answered by the server. -/
theorem call {workflow : KnowledgeWorkflow} {server : GraphServer} {request : GraphCall}
    (hrefuses : ∀ n request, server.refuses n request = none)
    (h : start < workflow.limits.max_tool_calls) :
    Yields start (agent.call workflow server request) (server.answer start request)
      fun _ => start + 1 := by
  have hrun : (agent.call workflow server request).run.run ⟨start, start, false⟩ =
      (server.answer start request, ⟨start + 1, start + 1, false⟩) := by
    rw [agent.call, invoke_tool, run_bind, run_get]
    dsimp only
    rw [run_bind, hrefuses]
    dsimp only
    rw [if_neg (by omega)]
    rfl
  rw [Yields, hrun]
  exact ⟨rfl, fun _ _ => rfl⟩

/-- The calls of an outcome stay within the limit that the run is held to. -/
theorem within {limit : Nat} {a : α} (hm : Yields start m outcome spent)
    (hspends : Spends limit start m spent) (hstart : start ≤ limit) (ha : outcome = .ok a) :
    spent a ≤ limit := by
  have hwithin : Within limit ⟨start, start, false⟩ := ⟨hstart, le_refl start, rfl⟩
  have hcalls := (hspends _ hwithin rfl).1.calls
  rw [hm.2 a ha] at hcalls
  exact hcalls

end Yields

section Outcomes

variable {workflow : KnowledgeWorkflow} {server : GraphServer} {state : WorkflowState}
  (hrefuses : ∀ n request, server.refuses n request = none)

include hrefuses

theorem focused_retrieval_yields {start : Nat} {candidates : List String} :
    Yields start (focused_retrieval_calls workflow server start candidates)
      (focused_retrieval (workflow.on server) start candidates) fun found => found.1 := by
  induction candidates generalizing start with
  | nil => exact Yields.pure rfl
  | cons candidate rest ih =>
    rw [focused_retrieval_calls, focused_retrieval, workflow.on_limits]
    by_cases hspent : workflow.limits.max_tool_calls ≤ start
    · rw [if_pos hspent, if_pos hspent]
      exact Yields.pure rfl
    · rw [if_neg hspent, if_neg hspent]
      refine (Yields.call hrefuses (by omega)).bind fun retry _ => ?_
      split_ifs
      · exact Yields.pure rfl
      · exact ih

theorem query_graphify_yields :
    Yields state.tool_calls (query_graphify_calls workflow server state)
      (query_graphify (workflow.on server) state) fun state' => state'.tool_calls := by
  rw [query_graphify_calls, query_graphify, workflow.on_limits]
  by_cases hspent : workflow.limits.max_tool_calls ≤ state.tool_calls
  · rw [if_pos hspent, if_pos hspent]
    exact Yields.throw _
  · rw [if_neg hspent, if_neg hspent]
    refine (Yields.call hrefuses (by omega)).bind fun result _ => ?_
    dsimp only
    split_ifs
    · exact Yields.pure rfl
    · refine (focused_retrieval_yields hrefuses).bind fun found _ => ?_
      obtain ⟨calls, retry⟩ := found
      cases retry with
      | none => exact Yields.pure rfl
      | some retry => exact Yields.pure rfl

theorem expand_nodes_yields {start : Nat} {nodes : List GraphNode} {depth : Nat}
    (h : start + nodes.length ≤ workflow.limits.max_tool_calls) :
    Yields start (nodes.mapM fun node => call workflow server (.get_neighbors node.id depth))
      ((nodes.zipIdx start).mapM fun item => server.answer item.2 (.get_neighbors item.1.id depth))
      fun expanded => start + expanded.length := by
  induction nodes generalizing start with
  | nil => exact Yields.pure rfl
  | cons node nodes ih =>
    rw [List.length_cons] at h
    rw [List.mapM_cons, List.zipIdx_cons, List.mapM_cons]
    refine (Yields.call hrefuses (by omega)).bind fun result _ => ?_
    refine (ih (by omega)).bind fun expanded _ => ?_
    apply Yields.pure
    rw [List.length_cons]
    omega

theorem expand_graph_evidence_yields
    (hstate : state.tool_calls ≤ workflow.limits.max_tool_calls) :
    Yields state.tool_calls (expand_graph_evidence_calls workflow server state)
      (expand_graph_evidence (workflow.on server) state) fun state' => state'.tool_calls := by
  rw [expand_graph_evidence_calls, expand_graph_evidence]
  refine Yields.lift_bind fun initial _ => ?_
  have htake := List.length_take_le
    (workflow.limits.max_tool_calls - state.tool_calls) initial.evidence.nodes
  refine (expand_nodes_yields hrefuses (by omega)).bind fun expanded _ => ?_
  exact Yields.lift_bind fun merged _ => Yields.pure rfl

theorem investigate_yields (hstate : state.tool_calls = 0) :
    Yields 0 (investigate_calls workflow server state)
      (investigate (workflow.on server) state) fun state' => state'.tool_calls := by
  have hplanned : (plan_graph_query workflow (classify_question workflow state)).tool_calls = 0 :=
    hstate
  rw [investigate_calls, investigate, ← hplanned]
  have hquery := @query_graphify_yields workflow server
    (plan_graph_query workflow (classify_question workflow state)) hrefuses
  refine hquery.bind fun searched hsearched => ?_
  have hlimit := hquery.within query_graphify_spends (by omega) hsearched
  refine Yields.lift_bind fun found hfound => ?_
  have hcalls : (retrieve_source_passages_with_haystack workflow found).tool_calls =
      searched.tool_calls :=
    retrieve_source_passages_spends.trans (scope_text_retrieval_spends hfound)
  rw [← hcalls] at hlimit ⊢
  refine (expand_graph_evidence_yields hrefuses hlimit).bind fun expanded _ => ?_
  change Yields (merge_graph_and_text_evidence expanded).tool_calls _ _ _
  refine Yields.lift_bind fun prepared hprepared => ?_
  rw [← prepare_model_context_spends hprepared]
  exact Yields.lift fun _ h => generate_answer_spends h

theorem draft_yields {question : String} {history : List ConversationTurn} :
    Yields 0 (draft_calls workflow server question history)
      (draft (workflow.on server) question history) fun state => state.tool_calls := by
  rw [draft_calls, draft]
  refine Yields.lift_bind fun valid hvalid => Yields.lift_bind fun resolved hresolved => ?_
  have hstate : resolved.tool_calls = 0 :=
    (resolve_follow_up_spends hresolved).trans (validate_request_spends hvalid)
  split_ifs
  · exact Yields.pure hstate
  · exact investigate_yields hrefuses hstate

/-- Where the client's checks refuse nothing, the counted run answers as the plain one does. -/
theorem invoke_calls_result (question : String) (history : List ConversationTurn) :
    ((invoke_calls workflow server question history).run.run ⟨0, 0, false⟩).1 =
      invoke (workflow.on server) question history := by
  have hdraft := (@draft_yields workflow server hrefuses question history).1
  rw [invoke_calls, invoke, ← hdraft, run_bind]
  cases hrun : (draft_calls workflow server question history).run.run ⟨0, 0, false⟩ with
  | mk result s' =>
    cases result with
    | ok state => rfl
    | error failure => rfl

end Outcomes

end lagraph.agent
