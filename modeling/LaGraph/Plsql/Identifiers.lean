import LaGraph.Foundation.Base64
import LaGraph.Plsql.Catalog
import LaGraph.Foundation.Text

open foundation

namespace lagraph.plsql

/-- The UTF-8 bytes of a string. -/
def utf8 (s : String) : List Nat :=
  s.toByteArray.data.toList.map UInt8.toNat

def b64e (value : String) : String :=
  String.ofList (base64.encode (utf8 value))

/-- Decoding pads to a multiple of four and then reads the bytes as UTF-8;
`none` where either step raises. -/
def b64d (value : String) : Option String :=
  let padding := List.replicate ((4 - value.toList.length % 4) % 4) '='
  match base64.decode (value.toList ++ padding) with
  | some bytes => String.fromUTF8? ⟨(bytes.map UInt8.ofNat).toArray⟩
  | none => none

def object_id (project_id qualified_name : String) : String :=
  "plsql://" ++ project_id ++ "/o/" ++ b64e qualified_name

/-- `none` when the identifier is foreign. -/
def qualified_name_from_object_id (object_id : String) : Option String :=
  match text.afterLast "/o/".toList object_id.toList with
  | some encoded => b64d (String.ofList encoded)
  | none => none

/-- The unit separator between the parts of an edge identifier. -/
def unit_separator : String := "\x1f"

def edge_id (project_id relationship source_qualified_name target_qualified_name : String) :
    String :=
  "edge://" ++ project_id ++ "/e/" ++
    b64e (unit_separator.intercalate [relationship, source_qualified_name, target_qualified_name])

def schema_of (qualified_name : String) : String :=
  String.ofList (qualified_name.toList.takeWhile (· ≠ '.'))

/-- Package owner for member routines (`SCHEMA.PACKAGE.MEMBER`). -/
def owner_of (qualified_name : String) : Option String :=
  match text.segments '.' qualified_name with
  | _ :: owner :: _ :: _ => some owner
  | _ => none

def KIND_LABEL_PRIORITY : List ObjectKind :=
  [.Procedure, .Function, .Package, .Trigger, .Table, .View, .Sequence, .Index, .Type,
   .AnonymousBlock, .Synonym]

def kind_from_labels (labels : List String) : Option ObjectKind :=
  KIND_LABEL_PRIORITY.find? fun kind => labels.contains kind.label

/-- A `viaTable` property as object id, kind, name and qualified name; `none` on
anything malformed. -/
def via_table_reference (raw : PropertyValue) (project_id : String) :
    Option (String × ObjectKind × String × String) :=
  match raw with
  | .str reference =>
    if text.startsWith reference "plsql://" then
      match text.segments '/' (text.dropPrefix reference "plsql://") with
      | [_, schema, kind_token, name] =>
        match KIND_TOKENS.lookup kind_token with
        | some kind =>
          if schema = "" ∨ name = "" then none
          else
            let qualified_name := schema ++ "." ++ name
            some (object_id project_id qualified_name, kind, name, qualified_name)
        | none => none
      | _ => none
    else none
  | _ => none

def str_or_none : PropertyValue → Option String
  | .null => none
  | .bool true => some "True"
  | .bool false => some "False"
  | .int value => some (toString value)
  | .str value => some value

def int_or_none : PropertyValue → Option Int
  | .null => none
  | .bool _ => none
  | .int value => some value
  | .str value => text.parseInt value

theorem utf8_injective {a b : String} (h : utf8 a = utf8 b) : a = b := by
  have hbytes : a.toByteArray.data.toList = b.toByteArray.data.toList :=
    List.map_injective_iff.mpr (fun _ _ hab => UInt8.toNat.inj hab) h
  exact String.toByteArray_inj.mp (ByteArray.ext (Array.toList_inj.mp hbytes))

theorem utf8_lt {s : String} {b : Nat} (hb : b ∈ utf8 s) : b < 256 := by
  obtain ⟨byte, -, rfl⟩ := List.mem_map.mp hb
  exact byte.toNat_lt

theorem b64e_injective {a b : String} (h : b64e a = b64e b) : a = b :=
  utf8_injective (base64.encode_injective (fun _ => utf8_lt) (fun _ => utf8_lt)
    (String.ofList_injective h))

theorem object_id_injective {project_id a b : String}
    (h : object_id project_id a = object_id project_id b) : a = b := by
  unfold object_id at h
  exact b64e_injective (String.append_right_inj _ |>.mp h)

theorem b64d_b64e (name : String) : b64d (b64e name) = some name := by
  have hlist : (b64e name).toList = base64.encode (utf8 name) := String.toList_ofList
  have hpadding : List.replicate ((4 - (b64e name).toList.length % 4) % 4) '=' =
      base64.padding (base64.encode (utf8 name)) := by rw [hlist, base64.padding]
  have hbytes : (utf8 name).map UInt8.ofNat = name.toByteArray.data.toList := by
    rw [utf8, List.map_map]
    exact List.map_id'' (fun byte => UInt8.ofNat_toNat) _
  simp only [b64d, hpadding]
  rw [hlist, base64.decode_encode _ fun b => utf8_lt]
  simp only [hbytes, Array.toArray_toList]
  change String.fromUTF8? name.toByteArray = some name
  unfold String.fromUTF8?
  rw [dif_pos name.isValidUTF8]
  rfl

theorem slash_not_mem_b64e (name : String) : '/' ∉ (b64e name).toList := by
  rw [b64e, String.toList_ofList]
  intro h
  have hslash : '/' ∉ base64.alphabet := by decide
  exact hslash (base64.mem_encode h)

/-- The encoded part stands after the last marker, whatever the project is called. -/
theorem encoded_after_marker {marker : Char} (hmarker : marker ≠ '/') (before name : String) :
    text.afterLast ['/', marker, '/']
        (before ++ String.ofList ['/', marker, '/'] ++ b64e name).toList =
      some (b64e name).toList := by
  rw [String.toList_append, String.toList_append, String.toList_ofList, List.append_assoc]
  exact text.afterLast_marker hmarker _ (slash_not_mem_b64e name)

/-- An identifier names the object it was made for. -/
theorem qualified_name_of_object_id (project_id name : String) :
    qualified_name_from_object_id (object_id project_id name) = some name := by
  have hlast : text.afterLast "/o/".toList (object_id project_id name).toList =
      some (b64e name).toList :=
    encoded_after_marker (by decide) ("plsql://" ++ project_id) name
  rw [qualified_name_from_object_id, hlast]
  simp only [String.ofList_toList, b64d_b64e]

end lagraph.plsql
