import LaGraph.Foundation.Transducers
import LaGraph.Agent.Events

open foundation

namespace lagraph.web

/-- An event as `streamEventSchema` returns it. -/
inductive StreamEvent
  | message_started (message_id : String)
  | tool_started (tool_call_id tool : String)
  | tool_completed (tool_call_id tool : String) (summary : agent.ToolSummary)
  | answer_delta (delta : String)
  | citation_available (citation : agent.Citation)
  | message_completed (result : agent.Answer)
  | message_failed (error : agent.EventError)

/-- `citationSchema`: what it asks beyond the types. -/
def citation_schema (citation : agent.Citation) : Bool :=
  citation.id ≠ "" ∧ citation.title ≠ "" ∧ citation.source ≠ "" ∧
    citation.start_line.all (0 < ·) ∧ citation.end_line.all (0 < ·) ∧
    citation.page_number.all (0 < ·)

/-- `answerSchema`: the records of the evidence have no more than their types. -/
def answer_schema (answer : agent.Answer) : Bool :=
  answer.citations.all citation_schema

/-- `streamEventSchema`: every type asks for its own fields. -/
def stream_event_schema (event : agent.LifecycleEvent) : Option StreamEvent :=
  match event.type with
  | .message_started => event.message_id.map .message_started
  | .tool_started =>
    event.tool_call_id.bind fun id => event.tool.map (.tool_started id)
  | .tool_completed =>
    event.tool_call_id.bind fun id => event.tool.bind fun tool =>
      event.summary.map (.tool_completed id tool)
  | .answer_delta => event.delta.map .answer_delta
  | .citation_available => (event.citation.filter citation_schema).map .citation_available
  | .message_completed => (event.result.filter answer_schema).map .message_completed
  | .message_failed => event.error.map .message_failed

def StreamEvent.type : StreamEvent → agent.EventType
  | .message_started _ => .message_started
  | .tool_started _ _ => .tool_started
  | .tool_completed _ _ _ => .tool_completed
  | .answer_delta _ => .answer_delta
  | .citation_available _ => .citation_available
  | .message_completed _ => .message_completed
  | .message_failed _ => .message_failed

/-- The schema discriminates by the type. -/
theorem type_of_stream_event_schema {event : agent.LifecycleEvent} {parsed : StreamEvent}
    (h : stream_event_schema event = some parsed) : parsed.type = event.type := by
  unfold stream_event_schema at h
  cases htype : event.type <;>
    simp only [htype, Option.map_eq_some_iff, Option.bind_eq_some_iff] at h <;>
    grind [StreamEvent.type]

inductive Activity
  | searching | writing
  deriving DecidableEq

/-- The frames of the UI message stream; the text part has the identifier `answer`, the status
`status`, and a finish the reason `stop`. -/
inductive Frame
  | start (message_id : String)
  | data_status (activity : Activity)
  | text_start
  | text_delta (delta : String)
  | text_end
  | data_citation (citation : agent.Citation)
  | data_result (result : agent.Answer)
  | finish
  | data_error (error : agent.EventError)
  | error (error_text : String)
  | done

/-- What the route pushes for a valid event, and whether the text part is open then. -/
def push (text_open : Bool) : StreamEvent → Bool × List Frame
  | .message_started message_id =>
    (text_open, [.start message_id, .data_status .searching])
  | .tool_started _ _ => (text_open, [.data_status .searching])
  | .tool_completed _ _ _ => (text_open, [.data_status .writing])
  | .answer_delta delta =>
    (true, (if text_open then [] else [.text_start]) ++ [.text_delta delta])
  | .citation_available citation => (text_open, [.data_citation citation])
  | .message_completed result =>
    -- the part is ended, but the flag stays as it is
    (text_open, (if text_open then [.text_end] else []) ++ [.data_result result, .finish])
  | .message_failed error => (text_open, [.data_error error, .error error.message])

/-- What brings the events to the route: their text as JSON, the decoder with the event source
parser, which yields the data of the messages, and `JSON.parse`. -/
structure Upstream where
  json : agent.LifecycleEvent → String
  parser : transducers.Transducer UInt8 String
  parse : String → Option agent.LifecycleEvent

variable (upstream : Upstream)

/-- `onEvent`. -/
def on_event (text_open : Bool) (data : String) : Bool × List Frame :=
  match (upstream.parse data).bind stream_event_schema with
  | some event => push text_open event
  | none => (text_open, [.error "The response stream could not be validated."])

def on_events (text_open : Bool) : List String → Bool × List Frame
  | [] => (text_open, [])
  | data :: rest =>
    let pushed := on_event upstream text_open data
    let others := on_events pushed.1 rest
    (others.1, pushed.2 ++ others.2)

/-- How the upstream body ends. -/
inductive Ending
  | done
  /-- The reader raises. -/
  | interrupted

def Ending.frames : Ending → List Frame
  | .done => [.done]
  | .interrupted =>
    [.error "The connection was interrupted before the answer completed.", .done]

/-- The loop over the chunks of the upstream body. -/
def read_chunks (state : upstream.parser.State) (text_open : Bool) :
    List (List UInt8) → List Frame
  | [] => []
  | chunk :: chunks =>
    let fed := upstream.parser.feed state chunk
    let pushed := on_events upstream text_open fed.2
    pushed.2 ++ read_chunks fed.1 pushed.1 chunks

/-- The frames of the response. -/
def frames (chunks : List (List UInt8)) (ending : Ending) : List Frame :=
  read_chunks upstream upstream.parser.start false chunks ++ ending.frames

end lagraph.web
