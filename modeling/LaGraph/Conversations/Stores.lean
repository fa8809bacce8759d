import LaGraph.Conversations.Listing
import LaGraph.Conversations.Pruning
import LaGraph.Foundation.Dictionaries
import LaGraph.Projects.Retention

open foundation foundation.pairing foundation.duplicates

namespace lagraph.conversations

/-- What is asked of a store, with the identifiers that it draws. -/
inductive StoreOperation
  | create (id project_id : String) (graph_version : Option String) (created_by : String)
  | get (conversation_id created_by : String)
  | get_scope (conversation_id created_by : String) (include_archived : Bool)
  | rename (conversation_id name created_by : String)
  | archive (conversation_id created_by : String)
  | restore (conversation_id created_by : String)
  | purge (conversation_id created_by : String)
  | delete_project (project_id : String)
  | cleanup
  | add_user_message (id conversation_id content created_by : String)
  | add_assistant_message (id conversation_id content : String) (status : MessageStatus)
      (result : Option agent.Answer) (created_by : String)
  | acquire_request (conversation_id request_id created_by : String)
  | release_request (conversation_id request_id created_by : String)
  | get_history (conversation_id : String) (max_turns max_chars : Nat) (created_by : String)

inductive StoreReply
  | conversation (value : Conversation)
  | scope (value : ConversationScope)
  | message (value : Message)
  | messages (value : List Message)
  | deleted (count : Nat)
  | done

/-- `if archived_at is None: raise error`. -/
def require_archived (archived_at : Option Nat) (error : StoreError) : Except StoreError Unit :=
  if archived_at = none then .error error else .ok ()

section Stores

-- The settings of both stores, the blanks of the Unicode data, and the clock during an operation.
variable (settings : StoreSettings) (space : Spaces) (now : Nat)

section SQLAlchemy

def Database.empty : Database where
  rows := []
  messages := []
  next_row_id := 1

/-- `_conversation_model`. -/
def Database.conversation (db : Database) (row : ConversationRow) : Conversation where
  id := row.id
  project_id := row.project_id
  name := row.summary.name
  created_at := row.created_at
  updated_at := row.updated_at
  archived_at := row.archived_at
  messages := (db.messages_of row.id).map (·.message)

/-- `_get_row`. -/
def Database.get_row (db : Database) (conversation_id created_by : String) (active_only : Bool) :
    Except StoreError ConversationRow :=
  match db.rows.find? fun row => row.id = conversation_id &&
    (row.created_by = created_by && (!active_only || row.archived_at.isNone)) with
  | some row => .ok row
  | none => .error (.ConversationNotFound conversation_id)

def Database.update (db : Database) (conversation_id : String)
    (f : ConversationRow → ConversationRow) : Database :=
  { db with rows := db.rows.map fun row => if row.id = conversation_id then f row else row }

/-- Rows are deleted with their messages. -/
def Database.keeping (db : Database) (keep : ConversationRow → Bool) : Database :=
  { db with
    rows := db.rows.filter keep,
    messages := db.messages.filter fun message => db.rows.all fun row =>
      row.id ≠ message.conversation_id || keep row }

/-- An archived conversation is kept for a while. -/
def ConversationRow.expired (row : ConversationRow) : Bool :=
  row.archived_at.any (· + settings.retention < now)

def Message.naming (message : Message) (row : ConversationRow) : ConversationRow :=
  { row with
    updated_at := message.created_at,
    name := if message.role = .user ∧ row.name = none then some (derive_name space message.content)
      else row.name }

/-- The row of a message, with the ordinal behind those of the conversation. -/
def Database.add (db : Database) (message : Message) (conversation_id : String) : Database :=
  let ordinals := (db.messages.filter (·.conversation_id = conversation_id)).map (·.ordinal)
  { db with
    messages := db.messages ++
      [⟨db.next_row_id, conversation_id, ordinals.foldr max 0 + 1, message⟩]
    next_row_id := db.next_row_id + 1 }

/-- `_append`. -/
def Database.append (db : Database) (message : Message) (conversation_id created_by : String) :
    Except StoreError Database := do
  let _ ← db.get_row conversation_id created_by true
  pure ((db.update conversation_id (message.naming space)).add message conversation_id)

def Database.acquire_request (db : Database) (conversation_id request_id created_by : String) :
    Except StoreError Database :=
  let chosen (row : ConversationRow) : Bool :=
    row.id = conversation_id && (row.created_by = created_by && row.archived_at.isNone)
  if db.rows.any fun row => chosen row && row.acquirable request_id now then
    .ok { db with
      rows := db.rows.map fun row =>
        if chosen row && row.acquirable request_id now then
          row.leased request_id (now + settings.lease) else row }
  else
    match (db.rows.find? chosen).bind (·.active_request_id) with
    | none => .error (.ConversationNotFound conversation_id)
    | some active_request_id =>
      .error (.ConversationRequestConflict conversation_id (some active_request_id))

def Database.release_request (db : Database) (conversation_id request_id created_by : String) :
    Except StoreError Database :=
  let chosen (row : ConversationRow) : Bool :=
    row.id = conversation_id && row.created_by = created_by
  if db.rows.any fun row => chosen row && row.active_request_id = some request_id then
    .ok { db with
      rows := db.rows.map fun row =>
        if chosen row && row.active_request_id = some request_id then row.unleased else row }
  else if db.rows.any chosen then .ok db
  else .error (.ConversationNotFound conversation_id)

/-- The operations of `SQLAlchemyConversationStore`; one that raises leaves the tables. -/
def Database.perform (db : Database) : StoreOperation → Except StoreError (StoreReply × Database)
  | .create id project_id graph_version created_by =>
    let row : ConversationRow :=
      { id, project_id, graph_version, created_by, name := none, created_at := now,
        updated_at := now, archived_at := none, active_request_id := none,
        lease_expires_at := none }
    .ok (.conversation { db.conversation row with messages := [] },
      { db with rows := db.rows ++ [row] })
  | .get conversation_id created_by => do
    let row ← db.get_row conversation_id created_by true
    pure (.conversation (db.conversation row), db)
  | .get_scope conversation_id created_by include_archived => do
    let row ← db.get_row conversation_id created_by (!include_archived)
    pure (.scope ⟨row.project_id, row.graph_version⟩, db)
  | .rename conversation_id name created_by => do
    let row ← db.get_row conversation_id created_by true
    row.reject_active_lease now
    let renamed (row : ConversationRow) : ConversationRow :=
      { row with name := some (strip space name), updated_at := now }
    pure (.conversation (db.conversation (renamed row)), db.update conversation_id renamed)
  | .archive conversation_id created_by => do
    let row ← db.get_row conversation_id created_by true
    row.reject_active_lease now
    pure (.done, db.update conversation_id fun row =>
      { row with archived_at := some now, updated_at := now })
  | .restore conversation_id created_by => do
    let row ← db.get_row conversation_id created_by false
    require_archived row.archived_at (.ConversationNotFound conversation_id)
    row.reject_active_lease now
    let restored (row : ConversationRow) : ConversationRow :=
      { row with archived_at := none, updated_at := now }
    pure (.conversation (db.conversation (restored row)), db.update conversation_id restored)
  | .purge conversation_id created_by => do
    let row ← db.get_row conversation_id created_by false
    require_archived row.archived_at (.ConversationStateConflict conversation_id)
    row.reject_active_lease now
    pure (.done, db.keeping (·.id ≠ conversation_id))
  | .delete_project project_id =>
    .ok (.deleted (db.rows.countP (·.project_id = project_id)), db.delete_project project_id)
  | .cleanup =>
    .ok (.deleted (db.rows.countP (·.expired settings now)),
      db.keeping fun row => !row.expired settings now)
  | .add_user_message id conversation_id content created_by => do
    let message : Message :=
      { id, role := .user, content, status := .completed, created_at := now, result := none }
    let db ← db.append space message conversation_id created_by
    pure (.message message, db)
  | .add_assistant_message id conversation_id content status result created_by => do
    let message : Message := { id, role := .assistant, content, status, created_at := now, result }
    let db ← db.append space message conversation_id created_by
    pure (.message message, db.prune settings.max_turns conversation_id)
  | .acquire_request conversation_id request_id created_by => do
    let db ← db.acquire_request settings now conversation_id request_id created_by
    pure (.done, db)
  | .release_request conversation_id request_id created_by => do
    let db ← db.release_request conversation_id request_id created_by
    pure (.done, db)
  | .get_history conversation_id max_turns max_chars created_by => do
    let row ← db.get_row conversation_id created_by true
    pure (.messages (history (db.conversation row).messages max_turns max_chars), db)

end SQLAlchemy

section InMemory

/-- The in-memory store with the versions and the leases of its conversations. -/
structure InMemoryStore extends InMemoryConversationStore where
  versions : Dictionary String (Option String)
  leases : Dictionary String (String × Nat)

def InMemoryStore.empty : InMemoryStore where
  items := []
  owners := []
  versions := []
  leases := []

/-- `_owned`. -/
def InMemoryStore.owned (store : InMemoryStore) (conversation_id created_by : String)
    (active_only : Bool) : Except StoreError Conversation :=
  match (store.items.lookup conversation_id).filter fun item =>
    store.owners.lookup conversation_id = some created_by &&
      (!active_only || item.archived_at.isNone) with
  | some item => .ok item
  | none => .error (.ConversationNotFound conversation_id)

/-- `_reject_lease`. -/
def InMemoryStore.reject_lease (store : InMemoryStore) (conversation_id : String) :
    Except StoreError Unit :=
  match store.leases.lookup conversation_id with
  | some (request_id, expires_at) =>
    if now < expires_at then
      .error (.ConversationRequestConflict conversation_id (some request_id))
    else .ok ()
  | none => .ok ()

/-- An item is changed where it stands. -/
def InMemoryStore.put (store : InMemoryStore) (conversation_id : String) (item : Conversation) :
    InMemoryStore :=
  { store with items := Dictionary.put conversation_id item store.items }

def InMemoryStore.pop (store : InMemoryStore) (gone : String → Bool) : InMemoryStore where
  items := store.items.filter (!gone ·.1)
  owners := store.owners.filter (!gone ·.1)
  versions := store.versions.filter (!gone ·.1)
  leases := store.leases.filter (!gone ·.1)

/-- The conversations with this property. -/
def InMemoryStore.identifiers (store : InMemoryStore) (p : Conversation → Bool) : List String :=
  (store.items.filter (p ·.2)).map (·.1)

def Conversation.expired (item : Conversation) : Bool :=
  item.archived_at.any (· + settings.retention < now)

/-- `_append`. -/
def InMemoryStore.append (store : InMemoryStore) (message : Message)
    (conversation_id created_by : String) : Except StoreError InMemoryStore := do
  let item ← store.owned conversation_id created_by true
  pure (store.put conversation_id { item with
    messages := item.messages ++ [message],
    updated_at := message.created_at,
    name := if message.role = .user ∧ item.name = NEW_CONVERSATION then
      derive_name space message.content else item.name })

/-- `_prune`. -/
def InMemoryStore.prune (store : InMemoryStore) (conversation_id : String) :
    Except StoreError InMemoryStore :=
  match store.items.lookup conversation_id with
  | none => .error (.ConversationNotFound conversation_id)
  | some item =>
    .ok (store.put conversation_id
      { item with messages := prune_messages settings.max_turns item.messages })

def InMemoryStore.acquire_request (store : InMemoryStore)
    (conversation_id request_id created_by : String) : Except StoreError InMemoryStore := do
  let _ ← store.owned conversation_id created_by true
  match (store.leases.lookup conversation_id).filter fun lease =>
    lease.1 ≠ request_id && now < lease.2 with
  | some lease => throw (.ConversationRequestConflict conversation_id (some lease.1))
  | none =>
    pure { store with
      leases := store.leases.put conversation_id (request_id, now + settings.lease) }

def InMemoryStore.release_request (store : InMemoryStore)
    (conversation_id request_id created_by : String) : Except StoreError InMemoryStore := do
  let _ ← store.owned conversation_id created_by false
  match (store.leases.lookup conversation_id).filter fun lease => lease.1 = request_id with
  | some _ => pure { store with leases := store.leases.filter (·.1 ≠ conversation_id) }
  | none => pure store

/-- The operations of `InMemoryConversationStore`. -/
def InMemoryStore.perform (store : InMemoryStore) : StoreOperation →
    Except StoreError (StoreReply × InMemoryStore)
  | .create id project_id graph_version created_by =>
    let item : Conversation :=
      { id, project_id, name := NEW_CONVERSATION, created_at := now, updated_at := now,
        archived_at := none, messages := [] }
    .ok (.conversation item,
      { store with
        items := Dictionary.put id item store.items
        owners := Dictionary.put id created_by store.owners
        versions := store.versions.put id graph_version })
  | .get conversation_id created_by => do
    let item ← store.owned conversation_id created_by true
    pure (.conversation item, store)
  | .get_scope conversation_id created_by include_archived => do
    let item ← store.owned conversation_id created_by (!include_archived)
    pure (.scope ⟨item.project_id, (store.versions.lookup conversation_id).join⟩, store)
  | .rename conversation_id name created_by => do
    let item ← store.owned conversation_id created_by true
    store.reject_lease now conversation_id
    let item := { item with name := strip space name, updated_at := now }
    pure (.conversation item, store.put conversation_id item)
  | .archive conversation_id created_by => do
    let item ← store.owned conversation_id created_by true
    store.reject_lease now conversation_id
    pure (.done, store.put conversation_id { item with archived_at := some now, updated_at := now })
  | .restore conversation_id created_by => do
    let item ← store.owned conversation_id created_by false
    require_archived item.archived_at (.ConversationNotFound conversation_id)
    store.reject_lease now conversation_id
    let item := { item with archived_at := none, updated_at := now }
    pure (.conversation item, store.put conversation_id item)
  | .purge conversation_id created_by => do
    let item ← store.owned conversation_id created_by false
    require_archived item.archived_at (.ConversationStateConflict conversation_id)
    store.reject_lease now conversation_id
    pure (.done, store.pop (· = conversation_id))
  | .delete_project project_id =>
    let identifiers := store.identifiers (·.project_id = project_id)
    .ok (.deleted identifiers.length, store.pop (· ∈ identifiers))
  | .cleanup =>
    let identifiers := store.identifiers (·.expired settings now)
    .ok (.deleted identifiers.length, store.pop (· ∈ identifiers))
  | .add_user_message id conversation_id content created_by => do
    let message : Message :=
      { id, role := .user, content, status := .completed, created_at := now, result := none }
    let store ← store.append space message conversation_id created_by
    pure (.message message, store)
  | .add_assistant_message id conversation_id content status result created_by => do
    let message : Message := { id, role := .assistant, content, status, created_at := now, result }
    let store ← store.append space message conversation_id created_by
    let store ← store.prune settings conversation_id
    pure (.message message, store)
  | .acquire_request conversation_id request_id created_by => do
    let store ← store.acquire_request settings now conversation_id request_id created_by
    pure (.done, store)
  | .release_request conversation_id request_id created_by => do
    let store ← store.release_request conversation_id request_id created_by
    pure (.done, store)
  | .get_history conversation_id max_turns max_chars created_by => do
    let item ← store.owned conversation_id created_by true
    pure (.messages (history item.messages max_turns max_chars), store)

end InMemory

end Stores

section Mirrors

variable {settings : StoreSettings} {space : Spaces} {now : Nat} {db db' : Database}
  {store : InMemoryStore} {row : ConversationRow} {conversation_id created_by : String}

def ConversationRow.lease (row : ConversationRow) : Option (String × Nat) :=
  match row.active_request_id, row.lease_expires_at with
  | some request_id, some expires_at => some (request_id, expires_at)
  | _, _ => none

/-- A name that is not taken for a conversation without one. -/
def Proper (name : Option String) : Prop :=
  name ≠ some "" ∧ name ≠ some NEW_CONVERSATION

/-- What holds of the tables. -/
structure Database.Sound (db : Database) : Prop where
  ids : (db.rows.map (·.id)).Nodup
  names : ∀ row ∈ db.rows, Proper row.name
  leases : ∀ row ∈ db.rows, row.active_request_id.isSome = row.lease_expires_at.isSome
  row_ids : (db.messages.map (·.row_id)).Nodup
  numbered : ∀ message ∈ db.messages, message.row_id < db.next_row_id
  message_ids : (db.messages.map (·.message.id)).Nodup
  placed : ∀ message ∈ db.messages, message.conversation_id ∈ db.rows.map (·.id)
  ordered : ∀ id, (db.messages.filter (·.conversation_id = id)).Pairwise (·.ordinal < ·.ordinal)

/-- The in-memory store shows the same conversations. -/
structure Mirrors (db : Database) (store : InMemoryStore) : Prop where
  items : store.items = db.rows.map fun row => (row.id, db.conversation row)
  owners : ∀ row ∈ db.rows, store.owners.lookup row.id = some row.created_by
  versions : ∀ row ∈ db.rows, store.versions.lookup row.id = some row.graph_version
  leases : ∀ row ∈ db.rows, store.leases.lookup row.id = row.lease
  known : ∀ id, (store.leases.lookup id).isSome → id ∈ db.rows.map (·.id)

/-- The same comes of an operation on both, and they go on showing the same. -/
def Alike {α : Type} :
    Except StoreError (α × Database) → Except StoreError (α × InMemoryStore) → Prop
  | .error e, .error e' => e = e'
  | .ok (a, db), .ok (a', store) => a = a' ∧ db.Sound ∧ Mirrors db store
  | _, _ => False

theorem Alike.bind {α γ δ : Type} {x : Except StoreError γ} {x' : Except StoreError δ}
    {f : γ → Except StoreError (α × Database)} {f' : δ → Except StoreError (α × InMemoryStore)}
    {g : γ → δ} (hx : x' = x.map g) (hf : ∀ c, x = .ok c → Alike (f c) (f' (g c))) :
    Alike (x >>= f) (x' >>= f') := by
  rw [hx]
  cases x with
  | error e => exact rfl
  | ok c => exact hf c rfl

section Lookups

theorem mem_of_get_row {active_only : Bool}
    (h : db.get_row conversation_id created_by active_only = .ok row) :
    row ∈ db.rows ∧ row.id = conversation_id := by
  unfold Database.get_row at h
  split at h
  · rename_i found hfound
    cases h
    have hp := List.find?_some hfound
    rw [Bool.and_eq_true, decide_eq_true_eq] at hp
    exact ⟨List.mem_of_find?_eq_some hfound, hp.1⟩
  · cases h

theorem row_eq_of_id (hs : db.Sound) {row' : ConversationRow} (hrow : row ∈ db.rows)
    (hrow' : row' ∈ db.rows) (hid : row'.id = row.id) : row' = row :=
  List.inj_on_of_nodup_map hs.ids hrow' hrow hid

/-- Both stores find the same conversation. -/
theorem owned_eq (hs : db.Sound) (hm : Mirrors db store) (active_only : Bool) :
    store.owned conversation_id created_by active_only =
      (db.get_row conversation_id created_by active_only).map db.conversation := by
  rw [InMemoryStore.owned, hm.items, Dictionary.lookup_keyed, Database.get_row,
    find?_and_of_nodup hs.ids]
  cases hfound : db.rows.find? (·.id = conversation_id) with
  | none => rfl
  | some row =>
    have hp := List.find?_some hfound
    have hid : row.id = conversation_id := of_decide_eq_true hp
    have howner := hm.owners row (List.mem_of_find?_eq_some hfound)
    rw [hid] at howner
    rw [Option.map_some, Option.filter_some, Option.filter_some, howner]
    have hsame : (some row.created_by = some created_by) ↔ row.created_by = created_by :=
      Option.some_inj
    simp only [hsame, Database.conversation]
    generalize (decide (row.created_by = created_by) && (!active_only || row.archived_at.isNone)) =
      admitted
    cases admitted <;> rfl

theorem reject_lease_eq (hm : Mirrors db store) (hrow : row ∈ db.rows) :
    store.reject_lease now row.id = (row.reject_active_lease now).map id := by
  rw [InMemoryStore.reject_lease, hm.leases row hrow, ConversationRow.lease,
    ConversationRow.reject_active_lease]
  cases row.active_request_id with
  | none => rfl
  | some request_id =>
    cases row.lease_expires_at with
    | none => rfl
    | some expires_at =>
      dsimp only
      split <;> rfl

end Lookups

section Rows

variable {f : ConversationRow → ConversationRow}

/-- The tables stay sound when rows keep their identifiers. -/
theorem Database.Sound.map (hs : db.Sound)
    (hf : ∀ row ∈ db.rows, (f row).id = row.id ∧ Proper (f row).name ∧
      (f row).active_request_id.isSome = (f row).lease_expires_at.isSome) :
    { db with rows := db.rows.map f }.Sound := by
  have hids : (db.rows.map f).map (·.id) = db.rows.map (·.id) := by
    rw [List.map_map]
    exact List.map_congr_left fun row hrow => (hf row hrow).1
  exact
    { ids := hids ▸ hs.ids
      names := List.forall_mem_map.mpr fun row hrow => (hf row hrow).2.1
      leases := List.forall_mem_map.mpr fun row hrow => (hf row hrow).2.2
      row_ids := hs.row_ids
      numbered := hs.numbered
      message_ids := hs.message_ids
      placed := fun message hmessage => hids ▸ hs.placed message hmessage
      ordered := hs.ordered }

/-- One conversation is changed in both stores. -/
theorem Mirrors.put (hs : db.Sound) (hm : Mirrors db store) (hrow : row ∈ db.rows)
    (hrows : db'.rows = db.rows.map f)
    (hf : ∀ r ∈ db.rows, (f r).id = r.id ∧ (f r).created_by = r.created_by ∧
      (f r).graph_version = r.graph_version ∧ (f r).lease = r.lease)
    (hothers : ∀ r ∈ db.rows, r.id ≠ row.id → db'.conversation (f r) = db.conversation r) :
    Mirrors db' (store.put row.id (db'.conversation (f row))) where
  items := by
    rw [InMemoryStore.put, hm.items, hrows, List.map_map]
    refine (Dictionary.put_keyed (fun r => db'.conversation (f r)) hs.ids hrow hothers).trans ?_
    refine List.map_congr_left fun r hr => ?_
    rw [Function.comp, (hf r hr).1]
  owners := by
    rw [hrows, List.forall_mem_map]
    intro r hr
    rw [(hf r hr).1, (hf r hr).2.1]
    exact hm.owners r hr
  versions := by
    rw [hrows, List.forall_mem_map]
    intro r hr
    rw [(hf r hr).1, (hf r hr).2.2.1]
    exact hm.versions r hr
  leases := by
    rw [hrows, List.forall_mem_map]
    intro r hr
    rw [(hf r hr).1, (hf r hr).2.2.2]
    exact hm.leases r hr
  known id hid := by
    have hids : db'.rows.map (·.id) = db.rows.map (·.id) := by
      rw [hrows, List.map_map]
      exact List.map_congr_left fun r hr => (hf r hr).1
    rw [hids]
    exact hm.known id hid

end Rows

section Messages

theorem le_foldr_max {n : Nat} {l : List Nat} (h : n ∈ l) : n ≤ l.foldr max 0 := by
  induction l with
  | nil => cases h
  | cons m l ih =>
    rw [List.foldr_cons]
    cases h with
    | head => exact Nat.le_max_left _ _
    | tail _ h => exact (ih h).trans (Nat.le_max_right _ _)

/-- The rows of a conversation are in the order of their numbers. -/
theorem messages_of_eq (hs : db.Sound) (id : String) :
    db.messages_of id = db.messages.filter (·.conversation_id = id) :=
  List.Pairwise.insertionSort_eq ((hs.ordered id).imp fun h => h.le)

/-- Without some rows and messages the tables stay sound. -/
theorem Database.Sound.sublist (hs : db.Sound) (hrows : db'.rows.Sublist db.rows)
    (hmessages : db'.messages.Sublist db.messages) (hnext : db'.next_row_id = db.next_row_id)
    (hplaced : ∀ message ∈ db'.messages, message.conversation_id ∈ db'.rows.map (·.id)) :
    db'.Sound where
  ids := hs.ids.sublist (hrows.map _)
  names row hrow := hs.names row (hrows.subset hrow)
  leases row hrow := hs.leases row (hrows.subset hrow)
  row_ids := hs.row_ids.sublist (hmessages.map _)
  numbered message hmessage := hnext ▸ hs.numbered message (hmessages.subset hmessage)
  message_ids := hs.message_ids.sublist (hmessages.map _)
  placed := hplaced
  ordered id := (hs.ordered id).sublist (hmessages.filter _)

end Messages

section Removal

variable {keep : ConversationRow → Bool} {gone : String → Bool}

theorem messages_of_keeping (hs : db.Sound) (hrow : row ∈ db.rows) (hkeep : keep row = true) :
    (db.keeping keep).messages_of row.id = db.messages_of row.id := by
  refine messages_of_filter.trans (List.filter_eq_self.mpr fun message hmessage => ?_)
  rw [messages_of_eq hs, List.mem_filter, decide_eq_true_eq] at hmessage
  rw [List.all_eq_true]
  intro other hother
  rw [Bool.or_eq_true, decide_eq_true_eq]
  refine or_iff_not_imp_left.mpr fun hsame => ?_
  rw [not_not, hmessage.2] at hsame
  rw [row_eq_of_id hs hrow hother hsame]
  exact hkeep

theorem Database.Sound.keeping (hs : db.Sound) (keep : ConversationRow → Bool) :
    (db.keeping keep).Sound := by
  refine hs.sublist List.filter_sublist List.filter_sublist rfl fun message hmessage => ?_
  obtain ⟨hold, hall⟩ := List.mem_filter.mp hmessage
  obtain ⟨row, hrow, hid⟩ := List.mem_map.mp (hs.placed message hold)
  have hkept := List.all_eq_true.mp hall row hrow
  rw [Bool.or_eq_true, decide_eq_true_eq] at hkept
  exact List.mem_map.mpr ⟨row, List.mem_filter.mpr
    ⟨hrow, hkept.resolve_left (fun hne => hne hid)⟩, hid⟩

/-- Conversations are removed from both stores. -/
theorem Mirrors.keeping (hs : db.Sound) (hm : Mirrors db store)
    (hgone : ∀ row ∈ db.rows, gone row.id = !keep row) :
    Mirrors (db.keeping keep) (store.pop gone) := by
  have hkept : ∀ row ∈ db.rows, keep row = true → (!gone row.id) = true := fun row hrow hkeep => by
    rw [hgone row hrow, hkeep]
    rfl
  refine ⟨?_, ?_, ?_, ?_, ?_⟩
  · rw [InMemoryStore.pop, hm.items, List.filter_map]
    have hsame : db.rows.filter ((!gone ·.1) ∘ fun row => (row.id, db.conversation row)) =
        db.rows.filter keep :=
      List.filter_congr fun row hrow => by
        rw [Function.comp, hgone row hrow, Bool.not_not]
    rw [hsame]
    refine List.map_congr_left fun row hrow => ?_
    obtain ⟨hold, hkeep⟩ := List.mem_filter.mp hrow
    rw [Database.conversation, Database.conversation, messages_of_keeping hs hold hkeep]
  all_goals intro row hrow
  · obtain ⟨hold, hkeep⟩ := List.mem_filter.mp hrow
    refine (Dictionary.lookup_filter (!gone ·) store.owners row.id).trans ?_
    rw [if_pos (hkept row hold hkeep)]
    exact hm.owners row hold
  · obtain ⟨hold, hkeep⟩ := List.mem_filter.mp hrow
    refine (Dictionary.lookup_filter (!gone ·) store.versions row.id).trans ?_
    rw [if_pos (hkept row hold hkeep)]
    exact hm.versions row hold
  · obtain ⟨hold, hkeep⟩ := List.mem_filter.mp hrow
    refine (Dictionary.lookup_filter (!gone ·) store.leases row.id).trans ?_
    rw [if_pos (hkept row hold hkeep)]
    exact hm.leases row hold
  · have hlookup := Dictionary.lookup_filter (!gone ·) store.leases row
    rw [InMemoryStore.pop, hlookup] at hrow
    split at hrow
    · rename_i hstays
      obtain ⟨found, hfound, rfl⟩ := List.mem_map.mp (hm.known _ hrow)
      rw [hgone found hfound, Bool.not_not] at hstays
      exact List.mem_map.mpr ⟨found, List.mem_filter.mpr ⟨hfound, hstays⟩, rfl⟩
    · cases hrow

/-- The identifiers of conversations with a property are those of the rows with it. -/
theorem identifiers_eq (hm : Mirrors db store) {p : Conversation → Bool}
    {q : ConversationRow → Bool} (hp : ∀ row ∈ db.rows, p (db.conversation row) = q row) :
    store.identifiers p = (db.rows.filter q).map (·.id) := by
  rw [InMemoryStore.identifiers, hm.items, List.filter_map, List.map_map]
  congr 1
  exact List.filter_congr hp

theorem alike_removal (hs : db.Sound) (hm : Mirrors db store) {p : Conversation → Bool}
    {q : ConversationRow → Bool} (hp : ∀ row ∈ db.rows, p (db.conversation row) = q row) :
    (store.identifiers p).length = db.rows.countP q ∧
      Mirrors (db.keeping fun row => !q row) (store.pop (· ∈ store.identifiers p)) := by
  rw [identifiers_eq hm hp]
  refine ⟨by rw [List.length_map, List.countP_eq_length_filter], hm.keeping hs fun row hrow => ?_⟩
  rw [Bool.not_not]
  by_cases hq : q row = true
  · rw [hq, decide_eq_true_eq]
    exact List.mem_map_of_mem (List.mem_filter.mpr ⟨hrow, hq⟩)
  · rw [Bool.eq_false_of_not_eq_true hq, decide_eq_false_iff_not]
    intro hmem
    obtain ⟨other, hother, hid⟩ := List.mem_map.mp hmem
    obtain ⟨hold, hq'⟩ := List.mem_filter.mp hother
    exact hq (row_eq_of_id hs hrow hold hid ▸ hq')

end Removal

section Changes

variable {g : ConversationRow → ConversationRow}

/-- A conversation is changed by itself in both stores. -/
theorem alike_update (hs : db.Sound) (hm : Mirrors db store) (hrow : row ∈ db.rows)
    (hg : ∀ r, (g r).id = r.id ∧ (g r).created_by = r.created_by ∧
      (g r).graph_version = r.graph_version ∧ (g r).active_request_id = r.active_request_id ∧
        (g r).lease_expires_at = r.lease_expires_at)
    (hname : Proper (g row).name) :
    (db.update row.id g).Sound ∧
      Mirrors (db.update row.id g) (store.put row.id (db.conversation (g row))) := by
  constructor
  · refine hs.map fun r hr => ?_
    split
    · rename_i hid
      obtain ⟨hid', -, -, hactive, hexpires⟩ := hg r
      rw [hactive, hexpires]
      exact ⟨hid', row_eq_of_id hs hrow hr hid ▸ hname, hs.leases r hr⟩
    · exact ⟨rfl, hs.names r hr, hs.leases r hr⟩
  · have hput := @Mirrors.put db (db.update row.id g) store row
      (fun r => if r.id = row.id then g r else r) hs hm hrow rfl
      (fun r _ => by
        split
        · obtain ⟨hid, howner, hversion, hactive, hexpires⟩ := hg r
          refine ⟨hid, howner, hversion, ?_⟩
          rw [ConversationRow.lease, ConversationRow.lease, hactive, hexpires]
        · exact ⟨rfl, rfl, rfl, rfl⟩)
      (fun r _ hne => by
        rw [if_neg hne]
        rfl)
    rw [if_pos rfl] at hput
    exact hput

/-- The leases of conversations are changed in both stores. -/
theorem alike_leases (hs : db.Sound) (hm : Mirrors db store)
    {leases : Dictionary String (String × Nat)}
    (hg : ∀ r, (g r).summary = r.summary ∧ (g r).created_by = r.created_by ∧
      (g r).graph_version = r.graph_version ∧ (g r).name = r.name)
    (hpair : ∀ r ∈ db.rows, (g r).active_request_id.isSome = (g r).lease_expires_at.isSome)
    (hleases : ∀ r ∈ db.rows, leases.lookup r.id = (g r).lease)
    (hknown : ∀ id, (leases.lookup id).isSome → id ∈ db.rows.map (·.id)) :
    { db with rows := db.rows.map g }.Sound ∧
      Mirrors { db with rows := db.rows.map g } { store with leases } := by
  have hid (r : ConversationRow) : (g r).id = r.id := congrArg (·.id) (hg r).1
  have hids : (db.rows.map g).map (·.id) = db.rows.map (·.id) := by
    rw [List.map_map]
    exact List.map_congr_left fun r _ => hid r
  refine ⟨hs.map fun r hr => ⟨hid r, (hg r).2.2.2 ▸ hs.names r hr, hpair r hr⟩, ?_⟩
  refine ⟨?_, ?_, ?_, ?_, fun id hsome => hids ▸ hknown id hsome⟩
  · rw [List.map_map]
    refine hm.items.trans (List.map_congr_left fun r _ => ?_)
    have hshown : Database.conversation { db with rows := db.rows.map g } (g r) =
        db.conversation r := by
      have hsummary := (hg r).1
      unfold ConversationRow.summary at hsummary
      injection hsummary with h₁ h₂ h₃ h₄ h₅ h₆
      unfold Database.conversation ConversationRow.summary
      rw [h₁, h₂, h₄, h₅, h₆]
      dsimp only
      rw [h₃]
      rfl
    rw [Function.comp, hid, hshown]
  · refine List.forall_mem_map.mpr fun r hr => ?_
    rw [hid, (hg r).2.1]
    exact hm.owners r hr
  · refine List.forall_mem_map.mpr fun r hr => ?_
    rw [hid, (hg r).2.2.1]
    exact hm.versions r hr
  · refine List.forall_mem_map.mpr fun r hr => ?_
    rw [hid]
    exact hleases r hr

end Changes

end Mirrors

end lagraph.conversations
