import LaGraph.Agent.Answers

open foundation

namespace lagraph.conversations

inductive Role
  | user | assistant
  deriving DecidableEq, Repr

inductive MessageStatus
  | pending | completed | failed
  deriving DecidableEq, Repr

/-- A message; moments are microseconds. -/
structure Message where
  id : String
  role : Role
  content : String
  status : MessageStatus
  created_at : Nat
  result : Option agent.Answer

structure Conversation where
  id : String
  project_id : String
  name : String
  created_at : Nat
  updated_at : Nat
  archived_at : Option Nat
  messages : List Message

/-- A conversation without its messages. -/
structure ConversationSummary where
  id : String
  project_id : String
  name : String
  created_at : Nat
  updated_at : Nat
  archived_at : Option Nat
  deriving DecidableEq, Repr

def Conversation.summary (c : Conversation) : ConversationSummary where
  id := c.id
  project_id := c.project_id
  name := c.name
  created_at := c.created_at
  updated_at := c.updated_at
  archived_at := c.archived_at

structure ConversationList where
  items : List ConversationSummary
  next_cursor : Option String
  deriving DecidableEq, Repr

structure ConversationScope where
  project_id : String
  graph_version : Option String
  deriving DecidableEq, Repr

/-- What a store operation raises. -/
inductive StoreError
  | ConversationNotFound (conversation_id : String)
  | ConversationRequestConflict (conversation_id : String) (active_request_id : Option String)
  | ConversationStateConflict (conversation_id : String)
  | value_error (message : String)
  | type_error
  deriving DecidableEq, Repr

/-- The settings both stores are built with. -/
structure StoreSettings where
  retention : Nat
  max_turns : Nat
  lease : Nat

def NEW_CONVERSATION : String := "New conversation"

/-- `_complete_exchanges`: each completed answer with the completed question
before it, `pending` being a question without an answer yet. -/
def complete_exchanges (pending : Option Message) : List Message → List (Message × Message)
  | [] => []
  | message :: messages =>
    if message.role = .user ∧ message.status = .completed then
      complete_exchanges (some message) messages
    else if message.role = .assistant ∧ message.status = .completed then
      match pending with
      | some question => (question, message) :: complete_exchanges none messages
      | none => complete_exchanges none messages
    else complete_exchanges pending messages

/-- The length of an exchange in characters. -/
def exchange_chars (exchange : Message × Message) : Nat :=
  exchange.1.content.length + exchange.2.content.length

/-- The latest exchanges that fit, latest first: one that is too long by itself is
passed over, and the first that no longer fits ends the selection. -/
def select_exchanges (max_chars : Nat) :
    (selected : List (Message × Message)) → (used_chars : Nat) → List (Message × Message) →
      List (Message × Message)
  | selected, _, [] => selected
  | selected, used_chars, exchange :: exchanges =>
    if selected ≠ [] ∧ max_chars < used_chars + exchange_chars exchange then selected
    else if max_chars < exchange_chars exchange then
      select_exchanges max_chars selected used_chars exchanges
    else
      select_exchanges max_chars (exchange :: selected) (used_chars + exchange_chars exchange)
        exchanges

/-- `exchanges[-max_turns:]`, where zero keeps all. -/
def last_turns (max_turns : Nat) (exchanges : List (Message × Message)) :
    List (Message × Message) :=
  if max_turns = 0 then exchanges else exchanges.drop (exchanges.length - max_turns)

/-- The messages of `get_history`, oldest first. -/
def history (messages : List Message) (max_turns max_chars : Nat) : List Message :=
  (select_exchanges max_chars [] 0
    (last_turns max_turns (complete_exchanges none messages)).reverse).flatMap
      fun exchange => [exchange.1, exchange.2]

/-- The characters that `str.isspace` holds of. -/
abbrev Spaces := Char → Bool

/-- `s.strip()`. -/
def strip (space : Spaces) (s : String) : String :=
  String.ofList (((s.toList.dropWhile space).reverse.dropWhile space).reverse)

/-- `" ".join(content.split())`. -/
def normalized (space : Spaces) (content : String) : List Char :=
  [' '].intercalate ((content.toList.splitOnP space).filter (· ≠ []))

/-- The text up to its first mark of the end of a sentence, before a blank or at
the end. -/
def first_sentence : List Char → Option (List Char)
  | [] => none
  | c :: rest =>
    if c ∈ ".!?;:".toList ∧ (rest = [] ∨ rest.head? = some ' ') then some [c]
    else (first_sentence rest).map (c :: ·)

/-- `s.rstrip()` of a text with blanks only. -/
def rstrip (s : List Char) : List Char :=
  (s.reverse.dropWhile (· = ' ')).reverse

/-- The text before its last blank; all of it when there is none before its
first word. -/
def before_last_blank (s : List Char) : List Char :=
  let before := ((s.reverse.dropWhile (· ≠ ' ')).drop 1).reverse
  if before = [] then s else before

/-- `_derive_name`. -/
def derive_name (space : Spaces) (content : String) : String :=
  let text := normalized space content
  let candidate := (first_sentence text).getD text
  if candidate.length ≤ 80 then String.ofList candidate
  else String.ofList (rstrip (before_last_blank (rstrip (candidate.take 79))) ++ ['…'])

example : derive_name Char.isWhitespace "  What is  this? And that" = "What is this?" := by
  decide +kernel

/-- The text of an invalid cursor's error. -/
def invalid_cursor : StoreError :=
  .value_error "Invalid conversation cursor"

/-- A row of `conversations`. -/
structure ConversationRow where
  id : String
  project_id : String
  graph_version : Option String
  created_by : String
  name : Option String
  created_at : Nat
  updated_at : Nat
  archived_at : Option Nat
  active_request_id : Option String
  lease_expires_at : Option Nat

/-- A row of `conversation_messages`. -/
structure MessageRow where
  row_id : Nat
  conversation_id : String
  ordinal : Nat
  message : Message

/-- The tables, in the order of insertion, and the next number of a message
row. -/
structure Database where
  rows : List ConversationRow
  messages : List MessageRow
  next_row_id : Nat

/-- The `WHERE` clause of `acquire_request` on the lease columns. -/
def ConversationRow.acquirable (row : ConversationRow) (request_id : String) (now : Nat) : Bool :=
  row.active_request_id = none ∨ row.lease_expires_at = none ∨
    (∃ expires_at ∈ row.lease_expires_at, expires_at ≤ now) ∨
    row.active_request_id = some request_id

def ConversationRow.leased (row : ConversationRow) (request_id : String) (expires_at : Nat) :
    ConversationRow :=
  { row with active_request_id := some request_id, lease_expires_at := some expires_at }

def ConversationRow.unleased (row : ConversationRow) : ConversationRow :=
  { row with active_request_id := none, lease_expires_at := none }

/-- `_reject_active_lease`. -/
def ConversationRow.reject_active_lease (row : ConversationRow) (now : Nat) :
    Except StoreError Unit :=
  match row.active_request_id, row.lease_expires_at with
  | some request_id, some expires_at =>
    if now < expires_at then .error (.ConversationRequestConflict row.id (some request_id))
    else .ok ()
  | _, _ => .ok ()

end lagraph.conversations
