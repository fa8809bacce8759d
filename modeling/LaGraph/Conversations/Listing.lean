import LaGraph.Conversations.Records
import LaGraph.Foundation.Base64
import LaGraph.Foundation.Calendar
import LaGraph.Foundation.Guarantees
import LaGraph.Foundation.Json.Ascii
import LaGraph.Foundation.Paging
import Mathlib.Data.Prod.Lex

open foundation foundation.json foundation.Stateful

namespace lagraph.conversations

/-- What the stores take from the library: the text of bytes that are not plain ASCII, in the
encoding `json.loads` detects, and the moment of other ISO texts than `isoformat` gives in
UTC, those without a zone being refused. -/
structure CursorLibrary where
  decode : List Nat → Option (List Char)
  fromisoformat : List Char → Option Nat

def CursorLibrary.moment (library : CursorLibrary) (timestamp : List Char) : Option Nat :=
  (calendar.parse timestamp).or (library.fromisoformat timestamp)

/-- The text of a JSON string without lone surrogates. -/
def text_of : Value → Option String
  | .str ns => if ns.all (fun n => n.isValidChar) then some (String.ofList (ns.map Char.ofNat)) else none
  | _ => none

/-- `_encode_cursor`; the stores differ in the blanks of the dump. -/
def encode_cursor (spacing : Spacing) (updated_at : Nat) (identifier : String) : String :=
  String.ofList (base64.encode
    ((dumps spacing (.arr [.text (String.ofList (calendar.isoformat updated_at)),
      .text identifier])).map Char.toNat))

/-- The two parts of a cursor's value in the SQL store. -/
def list_parts : Value → Option (Value × Value)
  | .arr [timestamp, identifier] => some (timestamp, identifier)
  | _ => none

/-- `timestamp, identifier = value` of the other store: a text of two characters and an object
of two keys have two parts as well. -/
def unpack : Value → Option (Value × Value)
  | .arr [timestamp, identifier] => some (timestamp, identifier)
  | .str [first, second] => some (.str [first], .str [second])
  | .obj fields =>
    match (fields.map (·.1)).eraseDups with
    | [first, second] => some (.str first, .str second)
    | _ => none
  | _ => none

variable (library : CursorLibrary)

/-- The position of a cursor; `none` where decoding raises. -/
def decode_position (parts : Value → Option (Value × Value)) (cursor : String) :
    Option (Nat × String) := do
  let bytes ← base64.decode (cursor.toList ++ base64.padding cursor.toList)
  let value ← (decodeBytes library.decode bytes).bind loads
  let (timestamp, identifier) ← parts value
  let timestamp ← text_of timestamp
  let identifier ← text_of identifier
  let updated_at ← library.moment timestamp.toList
  if identifier = "" then none else some (updated_at, identifier)

/-- `_decode_cursor`. -/
def decode_cursor (parts : Value → Option (Value × Value)) (cursor : String) :
    Except StoreError (Nat × String) :=
  match decode_position library parts cursor with
  | some position => .ok position
  | none => .error invalid_cursor

/-- `_decode_cursor(cursor) if cursor else None`. -/
def boundary_of (parts : Value → Option (Value × Value)) (cursor : Option String) :
    Except StoreError (Option (Nat × String)) :=
  match cursor with
  | none => .ok none
  | some cursor => if cursor = "" then .ok none else some <$> decode_cursor library parts cursor

/-- Which conversations a listing is asked for. -/
structure ListFilter where
  project_id : String
  created_by : String
  active : Bool

/-- A page of the rows that were found, one more than fit where there are more. -/
def listing_page {α : Type} (summary : α → ConversationSummary) (cursor : α → String)
    (limit : Nat) (found : List α) : ConversationList :=
  let page := found.take limit
  { items := page.map summary
    next_cursor := if limit < found.length then page.getLast?.map cursor else none }

section SQLAlchemy

variable {κ : Type} [LinearOrder κ] (collate : String → κ)

/-- `row.name or "New conversation"`. -/
def ConversationRow.summary (row : ConversationRow) : ConversationSummary where
  id := row.id
  project_id := row.project_id
  name := match row.name with
    | some name => if name = "" then NEW_CONVERSATION else name
    | none => NEW_CONVERSATION
  created_at := row.created_at
  updated_at := row.updated_at
  archived_at := row.archived_at

def ConversationRow.matched (row : ConversationRow) (filter : ListFilter) : Bool :=
  row.project_id = filter.project_id && row.created_by = filter.created_by &&
    row.archived_at.isNone = filter.active

/-- The condition of a boundary, under the collation of the database. -/
def ConversationRow.below (row : ConversationRow) (boundary : Nat × String) : Bool :=
  row.updated_at < boundary.1 || row.updated_at = boundary.1 && collate row.id < collate boundary.2

/-- `ORDER BY updated_at DESC, id DESC`. -/
def ConversationRow.listed_before (a b : ConversationRow) : Prop :=
  b.updated_at < a.updated_at ∨ b.updated_at = a.updated_at ∧ collate b.id ≤ collate a.id

instance : DecidableRel (ConversationRow.listed_before collate) := by
  intro a b
  unfold ConversationRow.listed_before
  infer_instance

def ConversationRow.cursor (row : ConversationRow) : String :=
  encode_cursor compact row.updated_at row.id

/-- The select of `list_conversations`. -/
def Database.listed (db : Database) (filter : ListFilter) (boundary : Option (Nat × String))
    (limit : Nat) : List ConversationRow :=
  ((db.rows.filter fun row => row.matched filter && boundary.all (row.below collate)).insertionSort
    (ConversationRow.listed_before collate)).take limit

/-- `SQLAlchemyConversationStore.list_conversations`. -/
def Database.list_conversations (db : Database) (filter : ListFilter) (limit : Nat)
    (cursor : Option String) : Except StoreError ConversationList := do
  let boundary ← boundary_of library list_parts cursor
  .ok (listing_page ConversationRow.summary ConversationRow.cursor limit
    (db.listed collate filter boundary (limit + 1)))

end SQLAlchemy

section InMemory

/-- The conversations of the store by their ids, in the order of their creation, and their
owners. -/
structure InMemoryConversationStore where
  items : List (String × Conversation)
  owners : List (String × String)

def InMemoryConversationStore.matched (store : InMemoryConversationStore) (identifier : String)
    (item : Conversation) (filter : ListFilter) : Bool :=
  item.project_id = filter.project_id && store.owners.lookup identifier = some filter.created_by &&
    item.archived_at.isNone = filter.active

/-- `(item.updated_at, item.id) < boundary`. -/
def Conversation.below (item : Conversation) (boundary : Nat × String) : Bool :=
  item.updated_at < boundary.1 || item.updated_at = boundary.1 && item.id < boundary.2

/-- The order of `sort(key=lambda item: (item.updated_at, item.id), reverse=True)`. -/
def Conversation.listed_before (a b : Conversation) : Prop :=
  b.updated_at < a.updated_at ∨ b.updated_at = a.updated_at ∧ b.id ≤ a.id

instance : DecidableRel Conversation.listed_before := by
  intro a b
  unfold Conversation.listed_before
  infer_instance

def Conversation.cursor (item : Conversation) : String :=
  encode_cursor spaced item.updated_at item.id

/-- The rows of `list_conversations`, sorted. -/
def InMemoryConversationStore.listed (store : InMemoryConversationStore) (filter : ListFilter)
    (boundary : Option (Nat × String)) : List Conversation :=
  ((store.items.filter fun entry =>
    store.matched entry.1 entry.2 filter && boundary.all entry.2.below).map (·.2)).insertionSort
      Conversation.listed_before

/-- `InMemoryConversationStore.list_conversations`. -/
def InMemoryConversationStore.list_conversations (store : InMemoryConversationStore)
    (filter : ListFilter) (limit : Nat) (cursor : Option String) :
    Except StoreError ConversationList := do
  let boundary ← boundary_of library unpack cursor
  .ok (listing_page Conversation.summary Conversation.cursor limit
    ((store.listed filter boundary).take (limit + 1)))

end InMemory

section Cursors

variable {library} {spacing : Spacing} {parts : Value → Option (Value × Value)}
  {updated_at : Nat} {identifier : String}

/-- The moments that a `datetime` can hold. -/
def MOMENTS : Nat := calendar.LAST_DAY * calendar.DAY

theorem text_of_text (s : String) : text_of (.text s) = some s := by
  have hvalid : (codes s).all (fun n => n.isValidChar) = true := by
    rw [codes, List.all_map, List.all_eq_true]
    exact fun c _ => decide_eq_true c.valid
  have htext : (codes s).map Char.ofNat = s.toList := by
    rw [codes, List.map_map]
    exact List.map_id'' (fun c => Char.ofNat_toNat c) s.toList
  change (if (codes s).all (fun n => n.isValidChar) = true then
    some (String.ofList ((codes s).map Char.ofNat)) else none) = some s
  rw [if_pos hvalid, htext, String.ofList_toList]

/-- Decoding a cursor undoes encoding it. -/
theorem decode_encode (hparts : ∀ a b, parts (.arr [a, b]) = some (a, b))
    (hmoment : updated_at < MOMENTS) (hidentifier : identifier ≠ "") :
    decode_cursor library parts (encode_cursor spacing updated_at identifier) =
      .ok (updated_at, identifier) := by
  have hplain : (Value.arr [.text (String.ofList (calendar.isoformat updated_at)),
      .text identifier]).Plain := ⟨plain_text, plain_text, trivial⟩
  have hprintable := @printable_dumps spacing _ hplain
  have hparse : calendar.parse (calendar.isoformat updated_at) = some updated_at :=
    calendar.parse_isoformat hmoment
  rw [decode_cursor, decode_position, encode_cursor, String.toList_ofList,
    base64.decode_encode _ hprintable.bytes]
  simp only [Option.bind_eq_bind, Option.bind_some, decodeBytes_printable hprintable,
    loads_dumps hplain, hparts, text_of_text, CursorLibrary.moment, String.toList_ofList, hparse,
    Option.some_or, if_neg hidentifier]

theorem encode_cursor_ne : encode_cursor spacing updated_at identifier ≠ "" := by
  intro h
  have hlist := congrArg String.toList h
  rw [encode_cursor, String.toList_ofList] at hlist
  have hlength := (base64.length_encode ((dumps spacing (.arr [.text (String.ofList
    (calendar.isoformat updated_at)), .text identifier])).map Char.toNat)).1
  rw [hlist, dumps] at hlength
  exact Nat.not_succ_le_zero _ hlength

theorem boundary_of_encode (hparts : ∀ a b, parts (.arr [a, b]) = some (a, b))
    (hmoment : updated_at < MOMENTS) (hidentifier : identifier ≠ "") :
    boundary_of library parts (some (encode_cursor spacing updated_at identifier)) =
      .ok (some (updated_at, identifier)) := by
  rw [boundary_of, if_neg encode_cursor_ne, decode_encode hparts hmoment hidentifier]
  rfl

end Cursors

section Pages

/-- The size of a page; the route asks for at least one. -/
abbrev PageSize := { limit : Nat // 0 < limit }

/-- A listing as one that is followed from page to page. -/
def fetch_list (list : Nat → Option String → Except StoreError ConversationList)
    (limit : PageSize) (cursor : Option String) :
    ExceptT StoreError (StateM Unit) (Page String ConversationSummary) := do
  let found ← liftM (list limit cursor)
  pure ⟨found.items, found.next_cursor⟩

/-- With pages of any sizes, the cursors of a listing lead from its start through these
conversations, and then there is none. -/
def Visits (list : Nat → Option String → Except StoreError ConversationList)
    (summaries : List ConversationSummary) : Prop :=
  ∀ limits : Nat → PageSize,
    follow (fetch_list list) limits (fun _ => id) (summaries.length + 1) 0 none () = some summaries

variable {α ν : Type} [LinearOrder ν] {key : α → ν} {summary : α → ConversationSummary}
  {cursor : α → String} {rows : List α}

/-- The cursor behind the first rows. -/
def cursor_behind (cursor : α → String) (rows : List α) (offset : Nat) : String :=
  (rows[offset - 1]?.map cursor).getD ""

theorem listing_page_slice {limit offset : Nat} (hlimit : 0 < limit) :
    (⟨(listing_page summary cursor limit ((rows.drop offset).take (limit + 1))).items,
      (listing_page summary cursor limit ((rows.drop offset).take (limit + 1))).next_cursor⟩ :
        Page String ConversationSummary) =
      slice (cursor_behind cursor rows) (rows.map summary) offset limit := by
  have hitems : ((rows.drop offset).take (limit + 1)).take limit = (rows.drop offset).take limit := by
    rw [List.take_take, Nat.min_eq_left (Nat.le_succ limit)]
  have hmore : limit < ((rows.drop offset).take (limit + 1)).length ↔
      offset + limit < (rows.map summary).length := by
    rw [List.length_take, List.length_drop, List.length_map]
    omega
  rw [slice, listing_page]
  dsimp only
  rw [hitems, ← List.map_drop, ← List.map_take]
  by_cases h : offset + limit < (rows.map summary).length
  · rw [if_pos h, if_pos (hmore.mpr h)]
    rw [List.length_map] at h
    have hlast : ((rows.drop offset).take limit).getLast? = rows[offset + limit - 1]? := by
      rw [List.getLast?_eq_getElem?, List.length_take, List.length_drop, List.getElem?_take,
        List.getElem?_drop]
      rw [if_pos (by omega)]
      congr 1
      omega
    have hsome : rows[offset + limit - 1]? = some rows[offset + limit - 1] :=
      List.getElem?_eq_getElem (by omega)
    rw [hlast, cursor_behind, hsome]
    rfl
  · rw [if_neg h, if_neg (mt hmore.mp h)]

/-- A listing that answers without a cursor from the start, and with the cursor of a row from
behind that row, visits all rows. -/
theorem visits_of_pages (cursor : α → String)
    {list : Nat → Option String → Except StoreError ConversationList}
    (hstart : ∀ limit, list limit none =
      .ok (listing_page summary cursor limit (rows.take (limit + 1))))
    (hnext : ∀ limit n row, rows[n]? = some row → list limit (some (cursor row)) =
      .ok (listing_page summary cursor limit ((rows.drop (n + 1)).take (limit + 1)))) :
    Visits list (rows.map summary) := by
  intro limits
  have hfetch (limit : PageSize) (offset : Nat) (cursor' : Option String)
      (hlist : list limit cursor' = .ok (listing_page summary cursor limit
        ((rows.drop offset).take (limit + 1)))) :
      (fetch_list list limit cursor').run.run () =
        (.ok (slice (cursor_behind cursor rows) (rows.map summary) offset limit), ()) := by
    rw [fetch_list, run_bind, run_lift, hlist, ← listing_page_slice limit.2]
    rfl
  have hpages : Pages (fetch_list list) (cursor_behind cursor rows) (rows.map summary)
      fun _ => True := by
    intro limit offset s _ hpos hlt
    rw [List.length_map] at hlt
    have hrow : rows[offset - 1]? = some rows[offset - 1] := List.getElem?_eq_getElem (by omega)
    refine ⟨limit, (), limit.2, trivial, hfetch limit offset _ ?_⟩
    have hlist := hnext limit (offset - 1) _ hrow
    rw [Nat.sub_add_cancel hpos] at hlist
    rw [cursor_behind, hrow]
    exact hlist
  exact hpages.follow_all (fun _ _ _ => trivial) (limits 0).2 trivial
    (hfetch (limits 0) 0 none (hstart (limits 0)))

/-- Selecting below the key of a row, out of what a filter selects. -/
theorem select_below {matched : α → Bool} {before : α → Bool} {items : List α} {row : α} {n : Nat}
    {order : α → α → Prop} [DecidableRel order] (horder : ∀ a b, order a b ↔ Descending key a b)
    (hkeys : ((items.filter matched).map key).Nodup)
    (hrow : ((items.filter matched).insertionSort order)[n]? = some row)
    (hbefore : ∀ a, before a = true ↔ key a < key row) :
    (items.filter fun a => matched a && before a).insertionSort order =
      ((items.filter matched).insertionSort order).drop (n + 1) := by
  obtain rfl : order = Descending key := funext fun a => funext fun b => propext (horder a b)
  have hsplit : (items.filter fun a => matched a && before a) =
      (items.filter matched).filter fun a => key a < key row := by
    rw [List.filter_filter]
    refine List.filter_congr fun a _ => ?_
    rw [Bool.and_comm, Bool.eq_iff_iff, Bool.and_eq_true, Bool.and_eq_true, hbefore,
      decide_eq_true_eq]
  have hsort := @sort_below α ν _ key (items.filter matched) row n hkeys
  rw [hsplit]
  convert hsort ?_
  convert hrow

end Pages

/-- Rows as the table keeps them: their primary keys differ and are no empty texts, and their
times are `datetime`s. -/
structure Database.Listable (db : Database) : Prop where
  ids : (db.rows.map (·.id)).Nodup
  named : ∀ row ∈ db.rows, row.id ≠ ""
  dated : ∀ row ∈ db.rows, row.updated_at < MOMENTS

/-- Items as the store keeps them, under their own ids. -/
structure InMemoryConversationStore.Listable (store : InMemoryConversationStore) : Prop where
  ids : (store.items.map (·.1)).Nodup
  keyed : ∀ entry ∈ store.items, entry.2.id = entry.1
  named : ∀ entry ∈ store.items, entry.1 ≠ ""
  dated : ∀ entry ∈ store.items, entry.2.updated_at < MOMENTS

section Visits

variable {library} {κ : Type} [LinearOrder κ] {collate : String → κ} {db : Database}
  {store : InMemoryConversationStore} {filter : ListFilter}

/-- What a listing is ordered by. -/
def ConversationRow.position (collate : String → κ) (row : ConversationRow) : Nat ×ₗ κ :=
  toLex (row.updated_at, collate row.id)

theorem ConversationRow.listed_before_iff (a b : ConversationRow) :
    ConversationRow.listed_before collate a b ↔
      Descending (ConversationRow.position collate) a b := by
  rw [Descending, ConversationRow.position, ConversationRow.position, Prod.Lex.toLex_le_toLex]
  rfl

/-- The rows of a listing, all of them and in their order. -/
def Database.listing (collate : String → κ) (db : Database) (filter : ListFilter) :
    List ConversationRow :=
  (db.rows.filter (·.matched filter)).insertionSort (ConversationRow.listed_before collate)

omit [LinearOrder κ] in
theorem Database.Listable.positions (hcollate : Function.Injective collate) (hdb : db.Listable) :
    ((db.rows.filter (·.matched filter)).map (ConversationRow.position collate)).Nodup := by
  have hids : ((db.rows.filter (·.matched filter)).map (·.id)).Nodup :=
    hdb.ids.sublist (List.filter_sublist.map _)
  refine List.pairwise_map.mpr ((List.pairwise_map.mp hids).imp fun hne heq => hne ?_)
  exact hcollate (congrArg (fun p => (ofLex p).2) heq)

theorem Database.list_conversations_visits (hcollate : Function.Injective collate)
    (hdb : db.Listable) :
    Visits (db.list_conversations library collate filter)
      ((db.listing collate filter).map ConversationRow.summary) := by
  refine visits_of_pages ConversationRow.cursor (fun limit => ?_) fun limit n row hrow => ?_
  · have hlisted : db.listed collate filter none (limit + 1) =
        (db.listing collate filter).take (limit + 1) := by
      simp only [Database.listed, Database.listing, Option.all_none, Bool.and_true]
    rw [← hlisted]
    rfl
  · have hmem : row ∈ db.rows := List.mem_of_mem_filter
      ((List.mem_insertionSort _).mp (List.mem_of_getElem? hrow))
    have hbefore (a : ConversationRow) :
        (some (row.updated_at, row.id)).all (a.below collate) = true ↔
          a.position collate < row.position collate := by
      rw [Option.all_some, ConversationRow.below, ConversationRow.position,
        ConversationRow.position, Prod.Lex.toLex_lt_toLex, Bool.or_eq_true, Bool.and_eq_true,
        decide_eq_true_eq, decide_eq_true_eq, decide_eq_true_eq]
    rw [Database.list_conversations, ConversationRow.cursor,
      boundary_of_encode (fun _ _ => rfl) (hdb.dated row hmem) (hdb.named row hmem),
      Database.listing, ← select_below ConversationRow.listed_before_iff
        (hdb.positions hcollate) hrow hbefore]
    rfl

def Conversation.position (item : Conversation) : Nat ×ₗ String :=
  toLex (item.updated_at, item.id)

theorem Conversation.listed_before_iff (a b : Conversation) :
    Conversation.listed_before a b ↔ Descending Conversation.position a b := by
  rw [Descending, Conversation.position, Conversation.position, Prod.Lex.toLex_le_toLex]
  rfl

/-- The items that a filter selects, whose keys are their ids. -/
def InMemoryConversationStore.listing (store : InMemoryConversationStore) (filter : ListFilter) :
    List Conversation :=
  ((store.items.map (·.2)).filter fun item => store.matched item.id item filter).insertionSort
    Conversation.listed_before

theorem InMemoryConversationStore.Listable.listed (hstore : store.Listable)
    (boundary : Option (Nat × String)) :
    store.listed filter boundary =
      ((store.items.map (·.2)).filter fun item => store.matched item.id item filter &&
        boundary.all item.below).insertionSort Conversation.listed_before := by
  rw [InMemoryConversationStore.listed, List.filter_map]
  congr 2
  refine List.filter_congr fun entry hentry => ?_
  rw [Function.comp, hstore.keyed entry hentry]

theorem InMemoryConversationStore.Listable.positions (hstore : store.Listable) :
    (((store.items.map (·.2)).filter fun item => store.matched item.id item filter).map
      Conversation.position).Nodup := by
  have hids : ((store.items.map (·.2)).map (·.id)).Nodup := by
    rw [List.map_map]
    have hkeys : store.items.map ((·.id) ∘ (·.2)) = store.items.map (·.1) :=
      List.map_congr_left hstore.keyed
    rw [hkeys]
    exact hstore.ids
  have hmatched := hids.sublist
    ((List.filter_sublist (p := fun item => store.matched item.id item filter)).map _)
  refine List.pairwise_map.mpr ((List.pairwise_map.mp hmatched).imp fun hne heq => hne ?_)
  exact congrArg (fun p => (ofLex p).2) heq

theorem InMemoryConversationStore.list_conversations_visits (hstore : store.Listable) :
    Visits (store.list_conversations library filter)
      ((store.listing filter).map Conversation.summary) := by
  refine visits_of_pages Conversation.cursor (fun limit => ?_) fun limit n item hitem => ?_
  · have hlisted : store.listed filter none = store.listing filter := by
      rw [hstore.listed, InMemoryConversationStore.listing]
      simp only [Option.all_none, Bool.and_true]
    rw [← hlisted]
    rfl
  · obtain ⟨entry, hentry, rfl⟩ := List.mem_map.mp (List.mem_of_mem_filter
      ((List.mem_insertionSort _).mp (List.mem_of_getElem? hitem)))
    have hnamed : entry.2.id ≠ "" := by
      rw [hstore.keyed entry hentry]
      exact hstore.named entry hentry
    have hbefore (a : Conversation) :
        (some (entry.2.updated_at, entry.2.id)).all a.below = true ↔
          a.position < entry.2.position := by
      rw [Option.all_some, Conversation.below, Conversation.position,
        Conversation.position, Prod.Lex.toLex_lt_toLex, Bool.or_eq_true, Bool.and_eq_true,
        decide_eq_true_eq, decide_eq_true_eq, decide_eq_true_eq]
    rw [InMemoryConversationStore.list_conversations, Conversation.cursor,
      boundary_of_encode (fun _ _ => rfl) (hstore.dated entry hentry) hnamed,
      InMemoryConversationStore.listing, ← select_below Conversation.listed_before_iff
        hstore.positions hitem hbefore, ← hstore.listed]
    rfl

/-- A listing without repetitions of what is selected, by descending keys. -/
structure Lists {α ν : Type} [LinearOrder ν] (key : α → ν) (selected listed : List α) : Prop where
  perm : listed.Perm selected
  descends : listed.Pairwise fun a b => key b < key a

theorem lists_of_sort {α ν : Type} [LinearOrder ν] {key : α → ν} {order : α → α → Prop}
    [DecidableRel order] (horder : ∀ a b, order a b ↔ Descending key a b) {selected : List α}
    (hkeys : (selected.map key).Nodup) : Lists key selected (selected.insertionSort order) := by
  obtain rfl : order = Descending key := funext fun a => funext fun b => propext (horder a b)
  refine ⟨List.perm_insertionSort _ _, ?_⟩
  convert insertionSort_descends hkeys

end Visits

/-- A conversation of the user `u` in the project `p`. -/
def listed_row (id : String) (updated_at : Nat) : ConversationRow where
  id := id
  project_id := "p"
  graph_version := none
  created_by := "u"
  name := none
  created_at := 0
  updated_at := updated_at
  archived_at := none
  active_request_id := none
  lease_expires_at := none

/-- Two conversations of one time, and a later one. -/
def tied_rows : Database where
  rows := [listed_row "a" 1000000, listed_row "b" 1000000, listed_row "c" 2000000]
  messages := []
  next_row_id := 1

theorem tied_rows_listable : tied_rows.Listable := by
  have hdated : ∀ row ∈ tied_rows.rows, row.updated_at < MOMENTS := by
    intro row hrow
    have hle : row.updated_at ≤ 2000000 := by
      simp only [tied_rows, listed_row, List.mem_cons, List.not_mem_nil, or_false] at hrow
      obtain rfl | rfl | rfl := hrow <;> decide
    exact Nat.lt_of_le_of_lt hle (by decide)
  exact ⟨by decide, by decide, hdated⟩

theorem empty_store_listable : (⟨[], []⟩ : InMemoryConversationStore).Listable :=
  ⟨List.nodup_nil, fun _ h => absurd h List.not_mem_nil, fun _ h => absurd h List.not_mem_nil,
    fun _ h => absurd h List.not_mem_nil⟩

end lagraph.conversations
