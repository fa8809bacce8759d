import LaGraph.Agent.Workflow

open foundation

namespace lagraph.agent

inductive EventType
  | message_started | tool_started | tool_completed | answer_delta | citation_available
  | message_completed | message_failed
  deriving DecidableEq, Repr

def EventType.name : EventType → String
  | .message_started => "message.started"
  | .tool_started => "tool.started"
  | .tool_completed => "tool.completed"
  | .answer_delta => "answer.delta"
  | .citation_available => "citation.available"
  | .message_completed => "message.completed"
  | .message_failed => "message.failed"

/-- The summary of a tool call. -/
structure ToolSummary where
  nodeCount : Nat
  edgeCount : Nat
  truncated : Bool
  deriving DecidableEq, Repr

/-- The error of a failed message. -/
structure EventError where
  code : String
  message : String
  retryable : Bool
  deriving DecidableEq, Repr

structure LifecycleEvent where
  type : EventType
  request_id : String
  conversation_id : String
  timestamp : String
  message_id : Option String
  tool_call_id : Option String
  tool : Option String
  summary : Option ToolSummary
  delta : Option String
  citation : Option Citation
  result : Option Answer
  error : Option EventError

/-- The identifiers and the clock of one stream. -/
structure StreamIds where
  request_id : String
  conversation_id : String
  message_id : String
  tool_call_id : String
  timestamp : String

/-- An event with the fields that every event has. -/
def StreamIds.event (ids : StreamIds) (type : EventType) : LifecycleEvent where
  type := type
  request_id := ids.request_id
  conversation_id := ids.conversation_id
  timestamp := ids.timestamp
  message_id := none
  tool_call_id := none
  tool := none
  summary := none
  delta := none
  citation := none
  result := none
  error := none

/-- The codes of `_safe_error`. -/
inductive FailureCode
  | request_timeout | invalid_request | mcp_timeout | llm_unavailable | llm_authentication_failed
  | llm_quota_exceeded | llm_model_access_failed | llm_permission_denied | llm_invalid_request
  | llm_rate_limited | invalid_model_response | graphify_unavailable | internal_error
  deriving DecidableEq, Repr

def FailureCode.name : FailureCode → String
  | .request_timeout => "request_timeout"
  | .invalid_request => "invalid_request"
  | .mcp_timeout => "mcp_timeout"
  | .llm_unavailable => "llm_unavailable"
  | .llm_authentication_failed => "llm_authentication_failed"
  | .llm_quota_exceeded => "llm_quota_exceeded"
  | .llm_model_access_failed => "llm_model_access_failed"
  | .llm_permission_denied => "llm_permission_denied"
  | .llm_invalid_request => "llm_invalid_request"
  | .llm_rate_limited => "llm_rate_limited"
  | .invalid_model_response => "invalid_model_response"
  | .graphify_unavailable => "graphify_unavailable"
  | .internal_error => "internal_error"

/-- `_error_message`. -/
def error_message : FailureCode → String
  | .request_timeout => "The request exceeded its configured time limit."
  | .invalid_request => "The question is invalid."
  | .mcp_timeout => "Graphify did not respond in time."
  | .llm_unavailable => "The language model is temporarily unavailable."
  | .llm_authentication_failed => "The language model provider rejected its credentials."
  | .llm_quota_exceeded => "The language model provider quota is exhausted."
  | .llm_model_access_failed =>
    "The configured language model is unavailable or not authorized."
  | .llm_permission_denied => "The language model provider denied access to this request."
  | .llm_invalid_request => "The language model provider rejected the request configuration."
  | .llm_rate_limited => "The language model provider is rate limiting requests."
  | .invalid_model_response => "The language model returned an invalid response."
  | .graphify_unavailable => "Graphify is temporarily unavailable."
  | .internal_error => "The request could not be completed."

/-- What ends a stream early: the code and whether a retry may help. -/
structure StreamFailure where
  code : FailureCode
  retryable : Bool
  deriving DecidableEq, Repr

/-- The updates of the graph, as far as the stream looks at them. -/
inductive Update
  | plan_graph_query
  | expand_graph_evidence (evidence : GraphEvidence) (warnings : List String)
  | format_response (answer : Answer)
  /-- Any other node. -/
  | other

/-- The pieces of at most eighty characters. -/
def pieces (s : String) : List String :=
  (List.range ((s.length + 79) / 80)).map fun i =>
    String.ofList ((s.toList.drop (80 * i)).take 80)

/-- The text holds the word in any case. -/
def mentions_truncation (rules : TextRules) (warning : String) : Bool :=
  occurs "truncated" (rules.lower warning)

/-- What the stream yields for an update. -/
def update_events (rules : TextRules) (ids : StreamIds) : Update → List LifecycleEvent
  | .plan_graph_query =>
    [{ ids.event .tool_started with
      tool_call_id := some ids.tool_call_id, tool := some "graphify.search" }]
  | .expand_graph_evidence evidence warnings =>
    [{ ids.event .tool_completed with
      tool_call_id := some ids.tool_call_id, tool := some "graphify.search",
      summary := some
        { nodeCount := evidence.nodes.length, edgeCount := evidence.edges.length,
          truncated := warnings.any (mentions_truncation rules) } }]
  | .format_response answer =>
    (pieces answer.answer).map (fun piece =>
      { ids.event .answer_delta with delta := some piece }) ++
    answer.citations.map (fun citation =>
      { ids.event .citation_available with citation := some citation }) ++
    [{ ids.event .message_completed with result := some answer }]
  | .other => []

/-- The event of a failure. -/
def failed_event (ids : StreamIds) (failure : StreamFailure) : LifecycleEvent :=
  { ids.event .message_failed with
    error := some
      { code := failure.code.name, message := error_message failure.code,
        retryable := failure.retryable } }

/-- `stream`: the events for the updates of the graph and for what ends it. -/
def stream (rules : TextRules) (ids : StreamIds) (updates : List Update)
    (failure : Option StreamFailure) : List LifecycleEvent :=
  { ids.event .message_started with message_id := some ids.message_id } ::
    updates.flatMap (update_events rules ids) ++ (failure.map (failed_event ids)).toList

/-- A run of the graph: a question that must be clarified, or one that is answered. -/
inductive GraphRun
  | clarification (answer : Answer)
  | retrieval (evidence : GraphEvidence) (warnings : List String) (answer : Answer)

def GraphRun.answer : GraphRun → Answer
  | .clarification answer => answer
  | .retrieval _ _ answer => answer

/-- The updates before the response is formatted, in the order of the graph's edges. -/
def GraphRun.investigation : GraphRun → List Update
  | .clarification _ => [.other, .other, .other]
  | .retrieval evidence warnings _ =>
    [.other, .other, .other, .plan_graph_query, .other, .other, .other,
      .expand_graph_evidence evidence warnings, .other, .other, .other, .other]

def GraphRun.updates (run : GraphRun) : List Update :=
  run.investigation ++ [.format_response run.answer]

/-- What the workflow emits of a run that breaks off after some events, with or without a
failure. -/
def emitted (rules : TextRules) (ids : StreamIds) (run : GraphRun) (count : Nat)
    (failure : Option StreamFailure) : List LifecycleEvent :=
  (stream rules ids run.updates none).take count ++ (failure.map (failed_event ids)).toList

end lagraph.agent
