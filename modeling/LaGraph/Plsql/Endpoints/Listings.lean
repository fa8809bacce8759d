import LaGraph.Foundation.Guarantees
import LaGraph.Foundation.Paging
import LaGraph.Plsql.Endpoints

open foundation foundation.Stateful foundation.json

namespace lagraph.plsql

section

variable {σ : Type} {sha256 : List Char → List (Fin 16)} {decode : List Nat → Option (List Char)}
  {query other : PageQuery} {scope : String} {offset : Nat} {cursor : String}

section Length

theorem escapeCode_hexDigit (digit : Fin 16) :
    (escapeCode (hexDigit digit.val).toNat).length = 1 := by
  revert digit
  decide

/-- The digest stands for itself in the cursor. -/
theorem length_scope (hlength : ∀ text, (sha256 text).length = 64) :
    (dumps compact (.text (pagination_scope sha256 query))).length = 66 := by
  have hbody (digits : List (Fin 16)) :
      ((digits.map fun digit => (hexDigit digit.val).toNat).flatMap escapeCode).length =
        digits.length := by
    induction digits with
    | nil => rfl
    | cons digit digits ih =>
      rw [List.map_cons, List.flatMap_cons, List.length_append, ih, escapeCode_hexDigit,
        List.length_cons, Nat.add_comm]
  have hcodes : codes (pagination_scope sha256 query) =
      (sha256 query.text).map fun digit => (hexDigit digit.val).toNat := by
    rw [codes, pagination_scope, String.toList_ofList, List.map_map]
    rfl
  rw [Value.text, dumps, dumpsStr, hcodes, List.length_append, List.length_cons, hbody,
    hlength query.text]
  rfl

theorem length_cursor_text :
    (cursor_text scope offset).length =
      26 + (dumps compact (.text scope)).length + (Nat.toDigits 10 offset).length := by
  have hv : (dumpsStr (codes "v")).length = 3 := by decide
  have hscope : (dumpsStr (codes "scope")).length = 7 := by decide
  have hoffset : (dumpsStr (codes "offset")).length = 8 := by decide
  have hone : (dumps compact (.int 1)).length = 1 := by decide
  have hdigits : (dumps compact (.int offset)).length = (Nat.toDigits 10 offset).length := by
    rw [dumps]
    rfl
  have hcomma : (comma compact).length = 1 := rfl
  have hcolon : (colon compact).length = 1 := rfl
  rw [cursor_text, cursor_value, dumps, dumpsFields, dumpsFields, dumpsFields]
  simp only [List.length_cons, List.length_append, List.length_nil, hv, hscope, hoffset, hone,
    hdigits, hcomma, hcolon]
  omega

theorem length_encode_page_cursor :
    (cursor_text scope offset).length ≤ (encode_page_cursor scope offset).toList.length ∧
      (encode_page_cursor scope offset).toList.length ≤ 2 * (cursor_text scope offset).length := by
  have hbytes := base64.length_encode ((cursor_text scope offset).map Char.toNat)
  rw [List.length_map] at hbytes
  rw [encode_page_cursor, String.toList_ofList]
  exact hbytes

/-- The lengths that the routes accept. -/
def Accepted (cursor : String) : Prop :=
  1 ≤ cursor.toList.length ∧ cursor.toList.length ≤ 1024

/-- A cursor inside a list is short enough for the routes. -/
theorem accepted_encode_page_cursor (hlength : ∀ text, (sha256 text).length = 64)
    (h : offset < LIST_BOUND) :
    Accepted (encode_page_cursor (pagination_scope sha256 query) offset) := by
  have hscope := @length_scope sha256 query hlength
  have htext := @length_cursor_text (pagination_scope sha256 query) offset
  have hdigits := length_toDigits_le h
  have hencoded := @length_encode_page_cursor (pagination_scope sha256 query) offset
  unfold Accepted
  omega

/-- A cursor that the routes accept holds no longer number than they can read. -/
theorem short_of_accepted (h : Accepted (encode_page_cursor scope offset)) : Short offset := by
  have htext := @length_cursor_text scope offset
  have hencoded := @length_encode_page_cursor scope offset
  unfold Accepted at h
  unfold Short MAX_STR_DIGITS
  rw [Int.natAbs_natCast]
  omega

end Length

section Requests

variable {analysis : AnalysisGraphClient σ} {s s' : σ}

theorem check_cursor_none :
    (check_cursor none : Served σ Unit).run.run s = (.ok (), s) := rfl

theorem check_cursor_ok (h : (check_cursor (some cursor) : Served σ Unit).run.run s = (.ok (), s')) :
    Accepted cursor ∧ s = s' := by
  unfold check_cursor at h
  split_ifs at h with haccepted
  · simp only [Option.all_some, Bool.and_eq_true, decide_eq_true_eq] at haccepted
    exact ⟨haccepted, congrArg Prod.snd h⟩
  · cases h

theorem check_cursor_accepted (h : Accepted cursor) :
    (check_cursor (some cursor) : Served σ Unit).run.run s = (.ok (), s) := by
  have hall : (some cursor).all (fun cursor =>
      1 ≤ cursor.toList.length && cursor.toList.length ≤ 1024) = true := by
    simp only [Option.all_some, Bool.and_eq_true, decide_eq_true_eq]
    exact h
  unfold check_cursor
  rw [if_pos hall]
  rfl

end Requests

end

/-- What the clients page through. -/
inductive Listing
  | paths (from_id to_id : String)
  | impact (object_id : String) (filter : ImpactFilter)

abbrev ListedItem := PlsqlPathRecord ⊕ PlsqlImpactItemRecord

/-- The effective query of a listing. -/
def Listing.query (settings : Settings) : Listing → PageQuery
  | .paths from_id to_id => .paths from_id to_id settings.plsql_max_hops
  | .impact object_id filter => filter.query settings object_id

variable {σ : Type} (sha256 : List Char → List (Fin 16))
  (decode : List Nat → Option (List Char)) (settings : Settings)
  (analysis : AnalysisGraphClient σ)

def Listing.scope (listing : Listing) : String :=
  pagination_scope sha256 (listing.query settings)

def PlsqlPathResult.page (result : PlsqlPathResult) : Page String ListedItem where
  items := result.items.map .inl
  next := result.next_cursor

def PlsqlImpactResult.page (result : PlsqlImpactResult) : Page String ListedItem where
  items := result.items.map .inr
  next := result.next_cursor

/-- One page of a listing by its route. -/
def Listing.serve (listing : Listing) (choice : Moment × PageLimit) (cursor : Option String) :
    Served σ (Page String ListedItem) := do
  match listing with
  | .paths from_id to_id =>
    let result ← find_paths_route sha256 decode settings analysis from_id to_id choice.2 cursor
    pure result.page
  | .impact object_id filter =>
    let result ← get_impact_route sha256 decode settings analysis choice.1 object_id filter
      choice.2 cursor
    pure result.page

section Runs

variable {sha256 decode settings analysis} {α : Type} {m : ExceptT Raised (StateM σ) α} {a : α}
  {s s' : σ} {cursor : Option String} {scope object_id from_id to_id : String} {offset : Nat}
  {record : PlsqlObjectRecord} {moment : Moment} {limit : PageLimit} {filter : ImpactFilter}

theorem served_ok_iff : (served m).run.run s = (.ok a, s') ↔ m.run.run s = (.ok a, s') := by
  rw [served, ExceptT.run_mk, StateT.run_bind]
  cases m.run.run s with
  | mk found s₁ =>
    cases found with
    | error e =>
      constructor
      · intro h
        cases h
      · intro h
        cases h
    | ok b =>
      constructor
      · intro h
        cases h
        rfl
      · intro h
        cases h
        rfl

theorem require_known_object_ok_iff :
    (require_known_object analysis object_id).run.run s = (.ok record, s') ↔
      (analysis.get_object object_id).run.run s = (.ok (some record), s') := by
  unfold require_known_object
  rw [run_bind_ok_iff]
  constructor
  · rintro ⟨found, s₁, hget, hrest⟩
    rw [served_ok_iff] at hget
    cases found with
    | none => cases hrest
    | some found =>
      cases hrest
      exact hget
  · intro hget
    exact ⟨some record, s', served_ok_iff.mpr hget, rfl⟩

theorem decoded_ok_iff :
    (decoded decode cursor scope : Served σ Nat).run.run s = (.ok offset, s') ↔
      decode_page_cursor decode cursor scope = .ok offset ∧ s = s' := by
  unfold decoded
  cases decode_page_cursor decode cursor scope with
  | error e =>
    constructor
    · intro h
      cases h
    · rintro ⟨h, -⟩
      cases h
  | ok found =>
    constructor
    · intro h
      cases h
      exact ⟨rfl, rfl⟩
    · rintro ⟨h, rfl⟩
      cases h
      rfl

theorem check_cursor_ok_iff {checked : Unit} :
    (check_cursor cursor : Served σ Unit).run.run s = (.ok checked, s') ↔
      (∀ c, cursor = some c → Accepted c) ∧ s = s' := by
  cases cursor with
  | none =>
    constructor
    · intro h
      cases h
      exact ⟨(fun c hc => by cases hc), rfl⟩
    · intro h
      rw [← h.2]
      exact check_cursor_none
  | some cursor =>
    constructor
    · intro h
      obtain ⟨haccepted, hstate⟩ := check_cursor_ok h
      refine ⟨fun c hc => ?_, hstate⟩
      rw [← Option.some.inj hc]
      exact haccepted
    · intro h
      rw [← h.2]
      exact check_cursor_accepted (h.1 cursor rfl)

/-- A page of paths is answered where its parts are. -/
theorem find_paths_route_ok_iff {result : PlsqlPathResult} :
    (find_paths_route sha256 decode settings analysis from_id to_id limit cursor).run.run s =
        (.ok result, s') ↔
      (∀ c, cursor = some c → Accepted c) ∧
        ∃ source s₁ target s₂ offset page,
          (analysis.get_object from_id).run.run s = (.ok (some source), s₁) ∧
          (analysis.get_object to_id).run.run s₁ = (.ok (some target), s₂) ∧
          decode_page_cursor decode cursor ((Listing.paths from_id to_id).scope sha256 settings) =
            .ok offset ∧
          (analysis.find_paths from_id to_id settings.plsql_max_hops
            (effective_page_limit settings limit) offset).run.run s₂ = (.ok page, s') ∧
          result =
            { items := page.items, truncated := page.truncated, count := page.total,
              next_cursor := next_cursor ((Listing.paths from_id to_id).scope sha256 settings)
                offset page.items.length page.truncated } := by
  simp only [find_paths_route, run_bind_ok_iff, require_known_object_ok_iff, decoded_ok_iff,
    served_ok_iff, check_cursor_ok_iff, run_pure]
  constructor
  · rintro ⟨_, _, ⟨hcursor, rfl⟩, source, s₁, hsource, target, s₂, htarget, offset, _,
      ⟨hoffset, rfl⟩, page, _, hpage, hresult⟩
    cases hresult
    exact ⟨hcursor, source, s₁, target, s₂, offset, page, hsource, htarget, hoffset, hpage, rfl⟩
  · rintro ⟨hcursor, source, s₁, target, s₂, offset, page, hsource, htarget, hoffset, hpage, rfl⟩
    exact ⟨(), s, ⟨hcursor, rfl⟩, source, s₁, hsource, target, s₂, htarget, offset, s₂,
      ⟨hoffset, rfl⟩, page, s', hpage, rfl⟩

/-- A page of impacts is answered where its parts are. -/
theorem get_impact_route_ok_iff {result : PlsqlImpactResult} :
    (get_impact_route sha256 decode settings analysis moment object_id filter limit
        cursor).run.run s = (.ok result, s') ↔
      (∀ c, cursor = some c → Accepted c) ∧
        ∃ record s₁ offset page,
          (analysis.get_object object_id).run.run s = (.ok (some record), s₁) ∧
          decode_page_cursor decode cursor ((Listing.impact object_id filter).scope sha256 settings) =
            .ok offset ∧
          (analysis.impact_of moment object_id (filter.max_hops settings)
            (effective_page_limit settings limit) filter.direction filter.relationships
            offset).run.run s₁ = (.ok page, s') ∧
          result =
            { object := record, items := page.items, truncated := page.truncated,
              count := page.total, summary := page.summary,
              next_cursor := next_cursor ((Listing.impact object_id filter).scope sha256 settings)
                offset page.items.length page.truncated } := by
  simp only [get_impact_route, run_bind_ok_iff, require_known_object_ok_iff, decoded_ok_iff,
    served_ok_iff, check_cursor_ok_iff, run_pure]
  constructor
  · rintro ⟨_, _, ⟨hcursor, rfl⟩, record, s₁, hrecord, offset, _, ⟨hoffset, rfl⟩, page, _, hpage,
      hresult⟩
    cases hresult
    exact ⟨hcursor, record, s₁, offset, page, hrecord, hoffset, hpage, rfl⟩
  · rintro ⟨hcursor, record, s₁, offset, page, hrecord, hoffset, hpage, rfl⟩
    exact ⟨(), s, ⟨hcursor, rfl⟩, record, s₁, hrecord, offset, s₁, ⟨hoffset, rfl⟩, page, s',
      hpage, rfl⟩

end Runs

section Pages

variable {sha256 decode settings analysis} {α : Type} {items : List ListedItem} {I : σ → Prop}
  {listing : Listing} {offset size : Nat}

/-- From the states of `I` every cursor that can be read is answered by the page of `items`
at its offset, of at least one item. -/
def Lists (sha256 : List Char → List (Fin 16)) (decode : List Nat → Option (List Char))
    (settings : Settings) (analysis : AnalysisGraphClient σ) (listing : Listing)
    (items : List ListedItem) (I : σ → Prop) : Prop :=
  ∀ s choice cursor offset, I s → (∀ c, cursor = some c → Accepted c) →
    decode_page_cursor decode cursor (listing.scope sha256 settings) = .ok offset →
    ∃ size s', 0 < size ∧ I s' ∧
      (listing.serve sha256 decode settings analysis choice cursor).run.run s =
        (.ok (slice (encode_page_cursor (listing.scope sha256 settings)) items offset size), s')

/-- The cursors inside the list are such cursors. -/
theorem Lists.pages (hlength : ∀ text, (sha256 text).length = 64)
    (h : Lists sha256 decode settings analysis listing items I)
    (hbound : items.length < LIST_BOUND) :
    Pages (listing.serve sha256 decode settings analysis)
      (encode_page_cursor (listing.scope sha256 settings)) items I := by
  intro choice offset s hstate _ hoffset
  have hlist : offset < LIST_BOUND := by omega
  refine h s choice _ offset hstate (fun c hc => ?_) ?_
  · rw [← Option.some.inj hc]
    exact accepted_encode_page_cursor hlength hlist
  · rw [decode_encode (short_of_lt hlist), if_pos rfl]

/-- A page with the cursor of the next one is a slice of the whole list. -/
theorem slice_of_page (wrap : α → ListedItem) (scope : String) (records : List α)
    (offset size : Nat) :
    ({ items := ((records.drop offset).take size).map wrap,
       next := next_cursor scope offset ((records.drop offset).take size).length
        (offset + size < records.length) } : Page String ListedItem) =
      slice (encode_page_cursor scope) (records.map wrap) offset size := by
  unfold slice next_cursor
  rw [← List.map_drop, ← List.map_take, List.length_map]
  by_cases hmore : offset + size < records.length
  · have hshown : ((records.drop offset).take size).length = size := by
      rw [List.length_take, List.length_drop]
      omega
    simp only [hmore, decide_true, if_true, hshown]
  · simp only [hmore, decide_false, Bool.false_eq_true, if_false]

end Pages

end lagraph.plsql
