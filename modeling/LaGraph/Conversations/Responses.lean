import LaGraph.Agent.Events
import LaGraph.Conversations.Records

open foundation

namespace lagraph.conversations

/-- What a response asks of the store, whose calls succeed. -/
inductive StoreCall
  | add_assistant_message (content : String) (status : MessageStatus)
      (result : Option agent.Answer)
  | release_request

def StoreCall.adds : StoreCall → Bool
  | .add_assistant_message .. => true
  | .release_request => false

/-- `_persist_terminal`. -/
def persist_terminal (event : agent.LifecycleEvent) : List StoreCall :=
  match event.type, event.result with
  | .message_completed, some result =>
    [.add_assistant_message result.answer .completed (some result)]
  | .message_failed, _ =>
    let message := match event.error with
      | some error => error.message
      | none => "The request could not be completed."
    [.add_assistant_message message .failed none]
  | _, _ => []

def is_terminal (event : agent.LifecycleEvent) : Bool :=
  event.type = .message_completed ∨ event.type = .message_failed

/-- What happens when the workflow has emitted an event. -/
inductive Fate
  /-- The event is persisted and sent, and the next one is asked for. -/
  | sent
  /-- The client was seen to be gone, or the task is cancelled, before the event is
  persisted. -/
  | disconnected
  /-- The response is closed, or something raises, once the event is persisted. -/
  | closed
  deriving DecidableEq, Repr

/-- The `finally` clause. -/
def close_stream (terminal : Bool) : List StoreCall :=
  (if terminal then []
    else [.add_assistant_message "The response stream was interrupted." .failed none]) ++
    [.release_request]

/-- `events` from an event on, `terminal` telling whether the last one persisted
was final; the workflow may stop or raise after any of them. -/
def events (terminal : Bool) : List (agent.LifecycleEvent × Fate) → List StoreCall
  | [] => close_stream terminal
  | (_, .disconnected) :: _ => close_stream terminal
  | (event, .closed) :: _ => persist_terminal event ++ close_stream (is_terminal event)
  | (event, .sent) :: rest => persist_terminal event ++ events (is_terminal event) rest

/-- The body of the response to an accepted message; a response that is dropped
before its first event is asked for never runs it. -/
def respond (started : Bool) (emitted : List (agent.LifecycleEvent × Fate)) : List StoreCall :=
  if started then events false emitted else []

/-- The events that are persisted. -/
def handled : List (agent.LifecycleEvent × Fate) → List agent.LifecycleEvent
  | [] => []
  | (_, .disconnected) :: _ => []
  | (event, .closed) :: _ => [event]
  | (event, .sent) :: rest => event :: handled rest

/-- The event carries the message that ends a conversation's turn. -/
def is_final (event : agent.LifecycleEvent) : Bool :=
  event.type = .message_completed ∧ event.result.isSome ∨ event.type = .message_failed

/-- One assistant message is appended, and the lease is released last. -/
def Settles (calls : List StoreCall) : Prop :=
  calls.countP StoreCall.adds = 1 ∧ calls.getLast? = some .release_request

/-- The last event, if there is one, ends the stream. -/
def ends_terminal (terminal : Bool) (events : List agent.LifecycleEvent) : Bool :=
  (events.getLast?.map is_terminal).getD terminal

theorem countP_persist_terminal (event : agent.LifecycleEvent) :
    (persist_terminal event).countP StoreCall.adds = if is_final event then 1 else 0 := by
  unfold persist_terminal is_final
  cases event.type <;> cases event.result <;> simp [StoreCall.adds]

theorem countP_close_stream (terminal : Bool) :
    (close_stream terminal).countP StoreCall.adds = if terminal then 0 else 1 := by
  cases terminal <;> rfl

theorem ends_terminal_cons (terminal : Bool) (event : agent.LifecycleEvent)
    (rest : List agent.LifecycleEvent) :
    ends_terminal terminal (event :: rest) = ends_terminal (is_terminal event) rest := by
  cases rest with
  | nil => rfl
  | cons next others =>
    have hlast : ∃ last, (next :: others).getLast? = some last :=
      ⟨_, List.getLast?_eq_some_getLast (List.cons_ne_nil _ _)⟩
    obtain ⟨last, hlast⟩ := hlast
    simp only [ends_terminal, List.getLast?_cons_cons, hlast, Option.map_some, Option.getD_some]

/-- The messages appended: one for each final event, and one more where the last
event leaves the stream open. -/
theorem countP_events (terminal : Bool) (emitted : List (agent.LifecycleEvent × Fate)) :
    (events terminal emitted).countP StoreCall.adds =
      (handled emitted).countP is_final +
        if ends_terminal terminal (handled emitted) then 0 else 1 := by
  induction emitted generalizing terminal with
  | nil => cases terminal <;> rfl
  | cons arrival rest ih =>
    obtain ⟨event, fate⟩ := arrival
    cases fate with
    | disconnected => cases terminal <;> rfl
    | closed =>
      rw [events, handled, List.countP_append, countP_persist_terminal, countP_close_stream,
        List.countP_singleton]
      rfl
    | sent =>
      rw [events, handled, List.countP_append, countP_persist_terminal, ih, List.countP_cons,
        ends_terminal_cons]
      omega

theorem getLast?_events (terminal : Bool) (emitted : List (agent.LifecycleEvent × Fate)) :
    (events terminal emitted).getLast? = some .release_request := by
  have hclose : ∀ (calls : List StoreCall) (terminal : Bool),
      (calls ++ close_stream terminal).getLast? = some .release_request := by
    intro calls terminal
    rw [close_stream, ← List.append_assoc, List.getLast?_concat]
  induction emitted generalizing terminal with
  | nil => exact hclose [] terminal
  | cons arrival rest ih =>
    obtain ⟨event, fate⟩ := arrival
    cases fate with
    | disconnected => exact hclose [] terminal
    | closed => exact hclose (persist_terminal event) (is_terminal event)
    | sent =>
      rw [events, List.getLast?_append, ih]
      rfl

/-- Exactly one message is appended and the lease released, if and only if the
response is started and of the events handled none is final and the last leaves
the stream open, or one is final and the last ends the stream. -/
theorem respond_settles_iff (started : Bool) (emitted : List (agent.LifecycleEvent × Fate)) :
    Settles (respond started emitted) ↔
      started = true ∧ (handled emitted).countP is_final =
        if ends_terminal false (handled emitted) then 1 else 0 := by
  cases started with
  | false => simp [Settles, respond]
  | true =>
    have hcount := countP_events false emitted
    have hlast := getLast?_events false emitted
    rw [Settles, respond, if_pos rfl, hcount, hlast]
    split
    · simp
    · simp

/-- An answer without evidence. -/
def short_answer : agent.Answer where
  answer := agent.INSUFFICIENT_ANSWER
  response_type := .insufficient
  confidence := .insufficient
  graph_version := none
  citations := []
  graph_evidence := .empty
  warnings := []

/-- A run that is answered, and whose time limit passes before the graph ends. -/
def late_failure : List agent.LifecycleEvent :=
  agent.stream agent.plain_rules ⟨"r", "c", "m", "t", "2026-08-04T00:00:00Z"⟩
    [.format_response short_answer] (some ⟨.request_timeout, true⟩)

/-- A response that is dropped before it is started leaves the lease and appends
nothing; one that fails after it was answered appends two messages. -/
theorem dropped_response_unsettled :
    ¬ Settles (respond false []) ∧
      ¬ Settles (respond true (late_failure.map fun event => (event, .sent))) := by
  constructor
  · rintro ⟨hcount, -⟩
    cases hcount
  · rintro ⟨hcount, -⟩
    revert hcount
    decide +kernel

end lagraph.conversations
