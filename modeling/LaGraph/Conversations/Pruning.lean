import LaGraph.Conversations.Records
import LaGraph.Foundation.Pairing
import LaGraph.Foundation.SortedSets

open foundation foundation.pairing

namespace lagraph.conversations

/-- What a message does to the question that waits for an answer. -/
def Message.turn (message : Message) : Turn :=
  match message.role, message.status with
  | .user, .completed => .opens
  | .assistant, .completed => .closes
  | _, _ => .neither

def MessageRow.turn (row : MessageRow) : Turn :=
  row.message.turn

/-- `_complete_exchange_row_ids`. -/
def complete_exchange_row_ids (pending : Option MessageRow) : List MessageRow → List (Nat × Nat)
  | [] => []
  | row :: rows =>
    if row.message.role = .user ∧ row.message.status = .completed then
      complete_exchange_row_ids (some row) rows
    else if row.message.role = .assistant ∧ row.message.status = .completed then
      match pending with
      | some question => (question.row_id, row.row_id) :: complete_exchange_row_ids none rows
      | none => complete_exchange_row_ids none rows
    else complete_exchange_row_ids pending rows

/-- The rows of a conversation by ordinal. -/
def Database.messages_of (db : Database) (conversation_id : String) : List MessageRow :=
  (db.messages.filter (·.conversation_id = conversation_id)).insertionSort
    fun a b => a.ordinal ≤ b.ordinal

/-- `SQLAlchemyConversationStore._prune`. -/
def Database.prune (max_turns : Nat) (db : Database) (conversation_id : String) : Database :=
  let exchange_row_ids := complete_exchange_row_ids none (db.messages_of conversation_id)
  let excess := exchange_row_ids.length - max_turns
  if excess = 0 then db
  else
    let remove_ids := (exchange_row_ids.take excess).flatMap fun exchange =>
      [exchange.1, exchange.2]
    { db with messages := db.messages.filter (·.row_id ∉ remove_ids) }

/-- `InMemoryConversationStore._prune`, on the messages of the conversation. -/
def prune_messages (max_turns : Nat) (messages : List Message) : List Message :=
  let exchanges := complete_exchanges none messages
  let excess := exchanges.length - max_turns
  if excess = 0 then messages
  else
    let remove_ids := (exchanges.take excess).flatMap fun exchange =>
      [exchange.1.id, exchange.2.id]
    messages.filter (·.id ∉ remove_ids)

/-- The pairs that are not pruned. -/
def retained {α : Type} (max_turns : Nat) (exchanges : List α) : List α :=
  exchanges.drop (exchanges.length - max_turns)

/-- Before each completed answer that no question waits for, and that no retained exchange
precedes, no question was superseded. -/
def Undisturbed {α : Type} (turn : α → Turn) (max_turns : Nat) (messages : List α) : Prop :=
  Separate turn none none ((pairs turn none messages).length - max_turns) messages

section Exchanges

variable {pending : Option Message} {messages : List Message} {rows : List MessageRow}

theorem complete_exchanges_eq :
    complete_exchanges pending messages = pairs Message.turn pending messages := by
  induction messages generalizing pending with
  | nil => rfl
  | cons message messages ih =>
    simp only [complete_exchanges, pairs, Message.turn, ih]
    cases message.role <;> cases message.status <;> cases pending <;> simp

theorem complete_exchange_row_ids_eq {pending : Option MessageRow} :
    complete_exchange_row_ids pending rows =
      (pairs MessageRow.turn pending rows).map fun pair => (pair.1.row_id, pair.2.row_id) := by
  induction rows generalizing pending with
  | nil => rfl
  | cons row rows ih =>
    simp only [complete_exchange_row_ids, pairs, MessageRow.turn, Message.turn, ih]
    cases row.message.role <;> cases row.message.status <;> cases pending <;> simp

/-- The sort by ordinal selects rows as the table does. -/
theorem messages_of_filter {db : Database} {conversation_id : String} {keep : MessageRow → Bool} :
    { db with messages := db.messages.filter keep }.messages_of conversation_id =
      (db.messages_of conversation_id).filter keep := by
  have htotal : Std.Total fun a b : MessageRow => a.ordinal ≤ b.ordinal :=
    ⟨fun a b => Nat.le_total a.ordinal b.ordinal⟩
  have htrans : IsTrans MessageRow fun a b => a.ordinal ≤ b.ordinal :=
    ⟨fun _ _ _ => Nat.le_trans⟩
  simp only [Database.messages_of]
  rw [sorted.filter_insertionSort, List.filter_filter, List.filter_filter]
  simp only [Bool.and_comm]

variable {db : Database} {max_turns : Nat} {conversation_id : String}

/-- The rows of a conversation have row ids of their own. -/
theorem messages_of_nodup (hkeys : (db.messages.map (·.row_id)).Nodup) :
    ((db.messages_of conversation_id).map (·.row_id)).Nodup := by
  have hperm := List.perm_insertionSort (fun a b : MessageRow => a.ordinal ≤ b.ordinal)
    (db.messages.filter (·.conversation_id = conversation_id))
  rw [Database.messages_of, (hperm.map _).nodup_iff]
  exact hkeys.sublist (List.filter_sublist.map _)

/-- Pruning removes the first exchanges of the conversation. -/
theorem messages_of_prune (hkeys : (db.messages.map (·.row_id)).Nodup) :
    (db.prune max_turns conversation_id).messages_of conversation_id =
      without MessageRow.turn none []
        ((pairs MessageRow.turn none (db.messages_of conversation_id)).length - max_turns)
        (db.messages_of conversation_id) := by
  rw [Database.prune, complete_exchange_row_ids_eq, List.length_map]
  split_ifs with hexcess
  · rw [hexcess, without_zero]
  · rw [messages_of_filter, without_eq_filter_keys (messages_of_nodup hkeys), ← List.map_take,
      List.flatMap_map]

theorem prune_messages_eq {messages : List Message} (hkeys : (messages.map (·.id)).Nodup) :
    prune_messages max_turns messages =
      without Message.turn none []
        ((pairs Message.turn none messages).length - max_turns) messages := by
  rw [prune_messages, complete_exchanges_eq]
  split_ifs with hexcess
  · rw [hexcess, without_zero]
  · rw [without_eq_filter_keys hkeys]

/-- The complete exchanges after pruning are the retained ones exactly if no superseded
question is left for an answer that nothing asked for, in both stores. -/
theorem prune_retains_iff (max_turns : Nat) :
    (∀ (db : Database) (conversation_id : String), (db.messages.map (·.row_id)).Nodup →
      (complete_exchange_row_ids none
          ((db.prune max_turns conversation_id).messages_of conversation_id) =
        retained max_turns (complete_exchange_row_ids none (db.messages_of conversation_id)) ↔
      Undisturbed MessageRow.turn max_turns (db.messages_of conversation_id))) ∧
    ∀ messages : List Message, (messages.map (·.id)).Nodup →
      (complete_exchanges none (prune_messages max_turns messages) =
        retained max_turns (complete_exchanges none messages) ↔
      Undisturbed Message.turn max_turns messages) := by
  constructor
  · intro db conversation_id hkeys
    have hnodup : ((db.messages_of conversation_id).map (·.row_id)).Nodup := messages_of_nodup hkeys
    rw [messages_of_prune hkeys, complete_exchange_row_ids_eq, complete_exchange_row_ids_eq,
      retained, List.length_map, ← List.map_drop, map_keys_inj hnodup]
    · exact pairs_without_iff nofun nofun hnodup.of_map
    · exact fun pair hpair => mem_of_mem_pairs_without hnodup hpair
    · exact fun pair hpair => mem_of_mem_pairs (List.mem_of_mem_drop hpair)
  · intro messages hkeys
    rw [prune_messages_eq hkeys, complete_exchanges_eq, complete_exchanges_eq]
    exact pairs_without_iff nofun nofun hkeys.of_map

end Exchanges

/-- A message with a short text, told apart by its id. -/
def note (id : String) (role : Role) : Message where
  id := id
  role := role
  content := "text"
  status := .completed
  created_at := 0
  result := none

/-- A question that is superseded, its successor's answer, a second answer, and one more
exchange. -/
def second_answer : List Message :=
  [note "u1" .user, note "u2" .user, note "a2" .assistant, note "b2" .assistant,
    note "u3" .user, note "a3" .assistant]

/-- The messages as rows of a conversation. -/
def rows_of (messages : List Message) : Database where
  rows := []
  messages := messages.zipIdx.map fun item => ⟨item.2, "c", item.2, item.1⟩
  next_row_id := messages.length

/-- With room for one exchange, the superseded question gets the second answer. -/
theorem pruning_pairs_second_answer :
    (¬ ∀ (max_turns : Nat) (db : Database) (conversation_id : String),
      (db.messages.map (·.row_id)).Nodup →
      complete_exchange_row_ids none
          ((db.prune max_turns conversation_id).messages_of conversation_id) =
        retained max_turns (complete_exchange_row_ids none (db.messages_of conversation_id))) ∧
    ¬ ∀ (max_turns : Nat) (messages : List Message), (messages.map (·.id)).Nodup →
      complete_exchanges none (prune_messages max_turns messages) =
        retained max_turns (complete_exchanges none messages) := by
  constructor
  · intro h
    have hrows := h 1 (rows_of second_answer) "c" (by decide)
    revert hrows
    decide
  · intro h
    have hcount := congrArg List.length (h 1 second_answer (by decide))
    revert hcount
    decide

/-- An exchange between two others, with room for one. -/
def three_exchanges : List Message :=
  [note "u1" .user, note "a1" .assistant, note "u2" .user, note "a2" .assistant,
    note "u3" .user, note "a3" .assistant]

theorem prune_retains_iff_three :
    (complete_exchange_row_ids none (((rows_of three_exchanges).prune 1 "c").messages_of "c") =
        retained 1 (complete_exchange_row_ids none ((rows_of three_exchanges).messages_of "c")) ↔
      Undisturbed MessageRow.turn 1 ((rows_of three_exchanges).messages_of "c")) ∧
    (complete_exchanges none (prune_messages 1 three_exchanges) =
        retained 1 (complete_exchanges none three_exchanges) ↔
      Undisturbed Message.turn 1 three_exchanges) :=
  ⟨(prune_retains_iff 1).1 _ "c" (by decide), (prune_retains_iff 1).2 _ (by decide)⟩

end lagraph.conversations
