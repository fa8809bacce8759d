import LaGraph.Foundation.Json.Ascii
import LaGraph.Plsql.Impact

open foundation foundation.json

namespace lagraph.plsql

/-- The effective query of a listing: what its pages have in common. -/
inductive PageQuery
  | paths (from_id to_id : String) (max_hops : Nat)
  | impact (object_id : String) (max_hops : Nat) (direction : ImpactDirection)
      (relationships : Option (List PlsqlRelationship))
  deriving DecidableEq, Repr

def ImpactDirection.name : ImpactDirection → String
  | .upstream => "upstream"
  | .downstream => "downstream"

/-- The kind and the values of a query, by their keys. -/
def PageQuery.payload : PageQuery → Value
  | .paths from_id to_id max_hops =>
    .obj [(codes "from_id", .text from_id), (codes "kind", .text "paths"),
      (codes "max_hops", .int max_hops), (codes "to_id", .text to_id)]
  | .impact object_id max_hops direction relationships =>
    .obj [(codes "direction", .text direction.name), (codes "kind", .text "impact"),
      (codes "max_hops", .int max_hops), (codes "object_id", .text object_id),
      (codes "relationships", match relationships with
        | none => .null
        | some relationships => .arr (relationships.map fun relationship =>
          .text relationship.name))]

/-- The text of a query that is hashed. -/
def PageQuery.text (query : PageQuery) : List Char :=
  dumps compact query.payload

inductive PageError
  | InvalidRequest (message : String)
  /-- The request is refused before its route runs. -/
  | RequestValidation
  | raised (error : Raised)

-- `sha256` gives the hexadecimal digits of the library's digest of a text, `decode` the
-- text of bytes that are not plain ASCII in the encoding the library detects.
variable (sha256 : List Char → List (Fin 16)) (decode : List Nat → Option (List Char))

/-- `_pagination_scope`. -/
def pagination_scope (query : PageQuery) : String :=
  String.ofList ((sha256 query.text).map fun digit : Fin 16 => hexDigit digit.val)

/-- The value inside a cursor. -/
def cursor_value (scope : String) (offset : Nat) : Value :=
  .obj [(codes "v", .int 1), (codes "scope", .text scope), (codes "offset", .int offset)]

/-- The text inside a cursor. -/
def cursor_text (scope : String) (offset : Nat) : List Char :=
  dumps compact (cursor_value scope offset)

/-- `_encode_page_cursor`. -/
def encode_page_cursor (scope : String) (offset : Nat) : String :=
  String.ofList (base64.encode ((cursor_text scope offset).map Char.toNat))

/-- Bytes as text: ASCII without a zero stands for itself. -/
def decode_text (bytes : List Nat) : Option (List Char) :=
  if bytes.all (fun b => 0 < b && b < 128) then some (bytes.map Char.ofNat) else decode bytes

/-- The offset of a cursor of this scope. -/
def cursor_offset (scope : String) (value : Value) : Option Nat :=
  match value.get "v", value.get "scope", value.get "offset" with
  | some (.int 1), some (.str found), some (.int (.ofNat offset)) =>
    if found = codes scope then some offset else none
  | _, _, _ => none

/-- `_decode_page_cursor`. -/
def decode_page_cursor (cursor : Option String) (scope : String) : Except PageError Nat :=
  match cursor with
  | none => .ok 0
  | some cursor =>
    match ((base64.decodeStrict (cursor.toList ++ base64.padding cursor.toList)).bind
      (decode_text decode)).bind fun text => (loads text).bind (cursor_offset scope) with
    | some offset => .ok offset
    | none => .error (.InvalidRequest "Invalid pagination cursor")

section RoundTrip

variable {sha256 decode} {query other : PageQuery} {scope : String} {offset : Nat}

/-- The longest list of the language has fewer elements. -/
def LIST_BOUND : Nat := 2 ^ 63

theorem length_toDigits_le {n : Nat} (h : n < LIST_BOUND) : (Nat.toDigits 10 n).length ≤ 63 := by
  refine (Nat.length_toDigits_le_iff (by omega) (by omega)).mpr (lt_of_lt_of_le h ?_)
  exact Nat.pow_le_pow_left (by omega) 63

theorem short_of_lt {n : Nat} (h : n < LIST_BOUND) : Short n := by
  have hlen := length_toDigits_le h
  unfold Short MAX_STR_DIGITS
  rw [Int.natAbs_natCast]
  omega

theorem plain_cursor (h : Short offset) : (cursor_value scope offset).Plain :=
  ⟨plain_key, short_of_lt (n := 1) (by decide), plain_key, plain_text, plain_key, h, trivial⟩

theorem cursor_offset_value {found : String} :
    cursor_offset scope (cursor_value found offset) = if found = scope then some offset else none := by
  have hv : (cursor_value found offset).get "v" = some (.int 1) := rfl
  have hscope : (cursor_value found offset).get "scope" = some (.text found) := rfl
  have hoffset : (cursor_value found offset).get "offset" = some (.int offset) := rfl
  rw [cursor_offset, hv, hscope, hoffset]
  change (if codes found = codes scope then some offset else none) = _
  have hcodes : codes found = codes scope ↔ found = scope := ⟨codes_injective, congrArg codes⟩
  simp only [hcodes]

/-- The bytes of an encoded text are read as the text. -/
theorem decode_text_printable {s : List Char} (h : Printable s) :
    decode_text decode (s.map Char.toNat) = some s :=
  decodeBytes_printable h

/-- A cursor is read back by the queries of its scope and by no others. -/
theorem decode_encode {found : String} (h : Short offset) :
    decode_page_cursor decode (some (encode_page_cursor found offset)) scope =
      if found = scope then .ok offset
      else .error (.InvalidRequest "Invalid pagination cursor") := by
  have hplain := @plain_cursor found offset h
  have hprintable : Printable (cursor_text found offset) := printable_dumps hplain
  have hbytes : ∀ b ∈ (cursor_text found offset).map Char.toNat, b < 256 := hprintable.bytes
  have hload : loads (cursor_text found offset) = some (cursor_value found offset) :=
    loads_dumps hplain
  unfold decode_page_cursor encode_page_cursor
  simp only [String.toList_ofList, base64.decodeStrict_encode _ hbytes, Option.bind_some,
    decode_text_printable hprintable, hload, cursor_offset_value]
  split_ifs
  · rfl
  · rfl

/-- The hop bounds of the settings are below this one. -/
def PageQuery.Bounded : PageQuery → Prop
  | .paths _ _ max_hops => max_hops < LIST_BOUND
  | .impact _ max_hops _ _ => max_hops < LIST_BOUND

theorem plain_payload (h : query.Bounded) : query.payload.Plain := by
  cases query with
  | paths from_id to_id max_hops =>
    exact ⟨plain_key, plain_text, plain_key, plain_text, plain_key, short_of_lt h, plain_key,
      plain_text, trivial⟩
  | impact object_id max_hops direction relationships =>
    refine ⟨plain_key, plain_text, plain_key, plain_text, plain_key, short_of_lt h, plain_key,
      plain_text, plain_key, ?_, trivial⟩
    cases relationships with
    | none => trivial
    | some relationships =>
      change PlainItems (relationships.map fun relationship => .text relationship.name)
      clear h
      induction relationships with
      | nil => trivial
      | cons relationship rest ih => exact ⟨plain_text, ih⟩

theorem text_value_injective {a b : String} (h : Value.text a = Value.text b) : a = b :=
  codes_injective (Value.str.inj h)

theorem relationships_injective {rs ss : List PlsqlRelationship}
    (h : (rs.map fun r => Value.text r.name) = ss.map fun s => Value.text s.name) : rs = ss := by
  refine List.map_injective_iff.mpr (fun r s hrs => ?_) h
  exact PlsqlRelationship.name_injective (text_value_injective hrs)

theorem ImpactDirection.name_injective {a b : ImpactDirection} (h : a.name = b.name) : a = b := by
  cases a <;> cases b <;> first | rfl | exact absurd h (by decide)

/-- The payload determines the query. -/
theorem payload_injective (h : query.payload = other.payload) : query = other := by
  cases query with
  | paths from_id to_id max_hops =>
    cases other with
    | paths from_id' to_id' max_hops' =>
      simp only [PageQuery.payload, Value.obj.injEq, List.cons.injEq, Prod.mk.injEq, Value.int.injEq,
        true_and, and_true, Int.natCast_inj] at h
      obtain ⟨hfrom, hhops, hto⟩ := h
      rw [text_value_injective hfrom, hhops, text_value_injective hto]
    | impact object_id max_hops' direction relationships =>
      have hlen := congrArg List.length (Value.obj.inj h)
      cases hlen
  | impact object_id max_hops direction relationships =>
    cases other with
    | paths from_id' to_id' max_hops' =>
      have hlen := congrArg List.length (Value.obj.inj h)
      cases hlen
    | impact object_id' max_hops' direction' relationships' =>
      simp only [PageQuery.payload, Value.obj.injEq, List.cons.injEq, Prod.mk.injEq, Value.int.injEq,
        true_and, and_true, Int.natCast_inj] at h
      obtain ⟨hdirection, hhops, hobject, hrelationships⟩ := h
      have hsame : relationships = relationships' := by
        cases relationships with
        | none =>
          cases relationships' with
          | none => rfl
          | some _ => cases hrelationships
        | some rs =>
          cases relationships' with
          | none => cases hrelationships
          | some ss => rw [relationships_injective (Value.arr.inj hrelationships)]
      rw [ImpactDirection.name_injective (text_value_injective hdirection), hhops,
        text_value_injective hobject, hsame]

/-- The text that is hashed determines the query. -/
theorem query_text_injective (h : query.Bounded) (h' : other.Bounded)
    (heq : query.text = other.text) : query = other :=
  payload_injective (dumps_injective (plain_payload h) (plain_payload h') heq)

theorem hexDigit_injective {a b : Fin 16} (h : hexDigit a.val = hexDigit b.val) : a = b := by
  revert a b
  decide

theorem pagination_scope_injective
    (hhash : sha256 query.text = sha256 other.text → query.text = other.text) (h : query.Bounded)
    (h' : other.Bounded) (heq : pagination_scope sha256 query = pagination_scope sha256 other) :
    query = other := by
  have hdigits : (sha256 query.text).map (fun digit : Fin 16 => hexDigit digit.val) =
      (sha256 other.text).map fun digit : Fin 16 => hexDigit digit.val :=
    String.ofList_injective heq
  have hsame : sha256 query.text = sha256 other.text :=
    List.map_injective_iff.mpr (fun _ _ hab => hexDigit_injective hab) hdigits
  exact query_text_injective h h' (hhash hsame)

end RoundTrip

end lagraph.plsql
