import LaGraph.Foundation.Json.Accepted
import LaGraph.Foundation.Json.Compact
import LaGraph.Knowledge.Operations
import LaGraph.Knowledge.Sources

open foundation
open foundation.json (Written textSize fieldsSize listSize)

namespace lagraph.knowledge

/-- What stands at the path of the manifest. -/
inductive ManifestFile
  | absent
  | irregular
  | regular (encoded : ByteArray)

/-- `data.get("schemaVersion") == 1`; the numbers with a fraction or an exponent that are one are
given. -/
def has_schema_version (is_one : List Char → Bool) (data : json.Value) : Bool :=
  match data.get "schemaVersion" with
  | some (.int value) => value = 1
  | some (.bool value) => value
  | some (.float text) => is_one text
  | _ => false

/-- `manifest`. -/
def read_manifest (is_one : List Char → Bool) : ManifestFile → Option json.Value
  | .regular encoded =>
    if encoded.size > 1024 * 1024 then none
    else
      match (String.fromUTF8? encoded).bind fun text => json.loads text.toList with
      | some (.obj fields) =>
        if has_schema_version is_one (.obj fields) then some (.obj fields) else none
      | _ => none
  | _ => none

/-- The file that `_write_manifest` leaves. -/
def manifest_file (value : Manifest) : ManifestFile :=
  .regular value.encode.toByteArray

section Values

/-- A dictionary with these keys. -/
def record (fields : List (String × json.Value)) : json.Value :=
  .obj (fields.map fun field => (json.codes field.1, field.2))

def optional_value (s : Option String) : json.Value :=
  s.elim .null .text

def KnowledgeChangeSet.value (changes : KnowledgeChangeSet) : json.Value :=
  let paths (group : List String) : json.Value := .arr (group.map .text)
  record
    [("added", paths changes.added), ("changed", paths changes.changed),
     ("unchanged", paths changes.unchanged), ("removed", paths changes.removed)]

def DocumentEntry.value (document : DocumentEntry) : json.Value :=
  record
    [("relativePath", .text document.relativePath), ("sha256", .text document.sha256),
     ("sizeBytes", .int document.sizeBytes), ("modifiedAt", .text document.modifiedAt),
     ("mediaType", .text document.mediaType), ("profile", .text document.profile)]

def LastIngestion.value (last : LastIngestion) : json.Value :=
  record
    [("ingestionId", .text last.ingestionId), ("status", .text last.status.name),
     ("startedAt", .text last.startedAt), ("completedAt", optional_value last.completedAt),
     ("errorCode", optional_value last.errorCode)]

/-- The manifest as the dictionary that is written. -/
def Manifest.fields (value : Manifest) : List (String × json.Value) :=
  [("schemaVersion", .int 1), ("sourceVersion", optional_value value.sourceVersion),
    ("activeGraphVersion", optional_value value.activeGraphVersion),
    ("previousGraphVersion", optional_value value.previousGraphVersion),
    ("graphifyVersion", .text value.graphifyVersion)] ++
  ((value.processingFingerprint.map fun fingerprint =>
      ("processingFingerprint", json.Value.text fingerprint)).toList ++
  [("generatedAt", optional_value value.generatedAt),
    ("documents", .arr (value.documents.map DocumentEntry.value)),
    ("changes", value.changes.value), ("lastIngestion", value.lastIngestion.value)])

def Manifest.value (value : Manifest) : json.Value :=
  record value.fields

end Values

section Texts

theorem written_record {fields : List (String × json.Value)} {texts : List (String × String)}
    (h : List.Forall₂ json.WrittenField fields texts) :
    Written (record fields) (json.object texts).toList :=
  json.written_object h

theorem written_changes (changes : KnowledgeChangeSet) :
    Written changes.value changes.encode.toList := by
  have hpaths (group : List String) :
      Written (.arr (group.map .text)) (json.array (group.map json.str)).toList := by
    apply json.written_array
    rw [List.forall₂_map_left_iff, List.forall₂_map_right_iff, List.forall₂_same]
    exact fun path _ => json.written_str path
  exact written_record (.cons ⟨rfl, hpaths _⟩ (.cons ⟨rfl, hpaths _⟩ (.cons ⟨rfl, hpaths _⟩
    (.cons ⟨rfl, hpaths _⟩ .nil))))

theorem written_document (document : DocumentEntry) :
    Written document.value document.encode.toList :=
  written_record (.cons ⟨rfl, json.written_str _⟩ (.cons ⟨rfl, json.written_str _⟩
    (.cons ⟨rfl, json.written_nat _⟩ (.cons ⟨rfl, json.written_str _⟩
      (.cons ⟨rfl, json.written_str _⟩ (.cons ⟨rfl, json.written_str _⟩ .nil))))))

theorem written_last_ingestion (last : LastIngestion) :
    Written last.value last.encode.toList :=
  written_record (.cons ⟨rfl, json.written_str _⟩ (.cons ⟨rfl, json.written_str _⟩
    (.cons ⟨rfl, json.written_str _⟩ (.cons ⟨rfl, json.written_optional _⟩
      (.cons ⟨rfl, json.written_optional _⟩ .nil)))))

/-- The stored text is a text of the manifest. -/
theorem written_manifest (value : Manifest) : Written value.value value.encode.toList := by
  have hdocuments : Written (.arr (value.documents.map DocumentEntry.value))
      (json.array (value.documents.map DocumentEntry.encode)).toList := by
    apply json.written_array
    rw [List.forall₂_map_left_iff, List.forall₂_map_right_iff, List.forall₂_same]
    exact fun document _ => written_document document
  have hone : Written (.int 1) "1".toList := json.written_nat 1
  have hlast := written_last_ingestion value.lastIngestion
  have hfirst : List.Forall₂ json.WrittenField
      [("schemaVersion", .int 1), ("sourceVersion", optional_value value.sourceVersion),
        ("activeGraphVersion", optional_value value.activeGraphVersion),
        ("previousGraphVersion", optional_value value.previousGraphVersion),
        ("graphifyVersion", .text value.graphifyVersion)]
      [("schemaVersion", "1"), ("sourceVersion", json.optional value.sourceVersion),
        ("activeGraphVersion", json.optional value.activeGraphVersion),
        ("previousGraphVersion", json.optional value.previousGraphVersion),
        ("graphifyVersion", json.str value.graphifyVersion)] :=
    .cons ⟨rfl, hone⟩ (.cons ⟨rfl, json.written_optional _⟩ (.cons ⟨rfl, json.written_optional _⟩
      (.cons ⟨rfl, json.written_optional _⟩ (.cons ⟨rfl, json.written_str _⟩ .nil))))
  have hrest : List.Forall₂ json.WrittenField
      [("generatedAt", optional_value value.generatedAt),
        ("documents", .arr (value.documents.map DocumentEntry.value)),
        ("changes", value.changes.value), ("lastIngestion", value.lastIngestion.value)]
      [("generatedAt", json.optional value.generatedAt),
        ("documents", json.array (value.documents.map DocumentEntry.encode)),
        ("changes", value.changes.encode), ("lastIngestion", value.lastIngestion.encode)] :=
    .cons ⟨rfl, json.written_optional _⟩ (.cons ⟨rfl, hdocuments⟩
      (.cons ⟨rfl, written_changes _⟩ (.cons ⟨rfl, hlast⟩ .nil)))
  have hfingerprint : List.Forall₂ json.WrittenField
      (value.processingFingerprint.map fun fingerprint =>
        ("processingFingerprint", json.Value.text fingerprint)).toList
      (value.processingFingerprint.map fun fingerprint =>
        ("processingFingerprint", json.str fingerprint)).toList := by
    cases value.processingFingerprint with
    | none => exact .nil
    | some fingerprint => exact .cons ⟨rfl, json.written_str _⟩ .nil
  have hfields := List.rel_append hfirst (List.rel_append hfingerprint hrest)
  rw [Manifest.encode, List.append_assoc]
  exact written_record hfields

/-- The sizes of the documents can be read. -/
theorem readable_record {fields : List (String × json.Value)}
    (h : ∀ field ∈ fields, field.2.Readable) : (record fields).Readable := by
  have hall (fields : List (String × json.Value)) (h : ∀ field ∈ fields, field.2.Readable) :
      json.ReadableFields (fields.map fun field => (json.codes field.1, field.2)) := by
    induction fields with
    | nil => trivial
    | cons field fields ih =>
      exact ⟨h field List.mem_cons_self, ih fun field hfield => h field (List.mem_cons_of_mem _ hfield)⟩
  exact hall fields h

theorem readable_items {vs : List json.Value} (h : ∀ v ∈ vs, v.Readable) :
    (json.Value.arr vs).Readable := by
  have hall (vs : List json.Value) (h : ∀ v ∈ vs, v.Readable) : json.ReadableItems vs := by
    induction vs with
    | nil => trivial
    | cons v vs ih => exact ⟨h v List.mem_cons_self, ih fun v hv => h v (List.mem_cons_of_mem _ hv)⟩
  exact hall vs h

theorem readable_optional (s : Option String) : (optional_value s).Readable := by
  cases s <;> trivial

theorem readable_changes (changes : KnowledgeChangeSet) : changes.value.Readable := by
  have hpaths (group : List String) : (json.Value.arr (group.map .text)).Readable := by
    apply readable_items
    intro v hv
    obtain ⟨path, -, rfl⟩ := List.mem_map.mp hv
    trivial
  apply readable_record
  simp only [List.forall_mem_cons]
  exact ⟨hpaths _, hpaths _, hpaths _, hpaths _, fun field hfield => absurd hfield List.not_mem_nil⟩

theorem readable_document {document : DocumentEntry} (h : json.Short document.sizeBytes) :
    document.value.Readable := by
  apply readable_record
  simp only [List.forall_mem_cons]
  exact ⟨trivial, trivial, h, trivial, trivial, trivial,
    fun field hfield => absurd hfield List.not_mem_nil⟩

theorem readable_last_ingestion (last : LastIngestion) : last.value.Readable := by
  apply readable_record
  simp only [List.forall_mem_cons]
  exact ⟨trivial, trivial, trivial, readable_optional _, readable_optional _,
    fun field hfield => absurd hfield List.not_mem_nil⟩

theorem short_of_lt {n : Nat} (h : n < 10 ^ json.MAX_STR_DIGITS) : json.Short n := by
  rw [json.Short, Int.natAbs_natCast, Nat.length_toDigits_le_iff (by decide) (by decide)]
  exact h

theorem readable_manifest {value : Manifest}
    (h : ∀ document ∈ value.documents, json.Short document.sizeBytes) : value.value.Readable := by
  have hdocuments : (json.Value.arr (value.documents.map DocumentEntry.value)).Readable := by
    apply readable_items
    intro v hv
    obtain ⟨document, hdocument, rfl⟩ := List.mem_map.mp hv
    exact readable_document (h document hdocument)
  have hone : json.Short 1 := short_of_lt (Nat.one_lt_pow (by decide) (by decide))
  apply readable_record
  unfold Manifest.fields
  simp only [List.forall_mem_append, List.forall_mem_cons]
  refine ⟨⟨hone, readable_optional _, readable_optional _, readable_optional _, trivial,
    fun field hfield => absurd hfield List.not_mem_nil⟩, fun field hfield => ?_,
    readable_optional _, hdocuments, readable_changes _, readable_last_ingestion _,
    fun field hfield => absurd hfield List.not_mem_nil⟩
  obtain ⟨fingerprint, -, rfl⟩ := Option.map_eq_some_iff.mp (Option.mem_toList.mp hfield)
  trivial

/-- The value of a key is that of the last field with it. -/
theorem record_get {fields : List (String × json.Value)} {key : String} :
    (record fields).get key = (fields.reverse.find? (·.1 = key)).map (·.2) := by
  have hcodes (name : String) : json.codes name = json.codes key ↔ name = key :=
    ⟨json.codes_injective, congrArg json.codes⟩
  rw [record, json.Value.get, ← List.map_reverse, List.find?_map, Option.map_map]
  simp only [Function.comp_def, hcodes]

/-- A manifest is a dictionary of the first schema. -/
theorem has_schema_version_value (is_one : List Char → Bool) (value : Manifest) :
    has_schema_version is_one value.value = true := by
  have hget : value.value.get "schemaVersion" = some (.int 1) := by
    rw [Manifest.value, record_get, Manifest.fields]
    cases value.processingFingerprint with
    | none => simp
    | some fingerprint => simp
  rw [has_schema_version, hget]
  rfl

/-- What is read of a stored manifest is the manifest, unless the file is too large. -/
theorem read_manifest_file (is_one : List Char → Bool) {value : Manifest}
    (h : ∀ document ∈ value.documents, json.Short document.sizeBytes) :
    read_manifest is_one (manifest_file value) =
      if 1024 * 1024 < value.encode.utf8ByteSize then none else some value.value := by
  have hdecode : String.fromUTF8? value.encode.toByteArray = some value.encode := by
    unfold String.fromUTF8?
    rw [dif_pos value.encode.isValidUTF8]
    rfl
  have hloads := json.loads_written (written_manifest value) (readable_manifest h) json.blanks_nil
    json.blanks_nil
  rw [List.nil_append, List.append_nil] at hloads
  have hschema := has_schema_version_value is_one value
  rw [manifest_file, read_manifest, hdecode, Option.bind_some, hloads, String.size_toByteArray]
  split_ifs with hlarge
  · rfl
  · rw [Manifest.value, record] at hschema ⊢
    simp only [hschema, if_true]

end Texts

section Sizes

def optional_size (s : Option String) : Nat :=
  s.elim 4 textSize

def paths_size (group : List String) : Nat :=
  listSize (group.map textSize)

def KnowledgeChangeSet.size (changes : KnowledgeChangeSet) : Nat :=
  fieldsSize
    [("added", paths_size changes.added), ("changed", paths_size changes.changed),
     ("unchanged", paths_size changes.unchanged), ("removed", paths_size changes.removed)]

def DocumentEntry.size (document : DocumentEntry) : Nat :=
  fieldsSize
    [("relativePath", textSize document.relativePath), ("sha256", textSize document.sha256),
     ("sizeBytes", (Nat.toDigits 10 document.sizeBytes).length),
     ("modifiedAt", textSize document.modifiedAt), ("mediaType", textSize document.mediaType),
     ("profile", textSize document.profile)]

def LastIngestion.size (last : LastIngestion) : Nat :=
  fieldsSize
    [("ingestionId", textSize last.ingestionId), ("status", textSize last.status.name),
     ("startedAt", textSize last.startedAt), ("completedAt", optional_size last.completedAt),
     ("errorCode", optional_size last.errorCode)]

/-- The bytes of a manifest, from the texts and sizes it holds. -/
def Manifest.size (value : Manifest) : Nat :=
  fieldsSize
    ([("schemaVersion", 1), ("sourceVersion", optional_size value.sourceVersion),
      ("activeGraphVersion", optional_size value.activeGraphVersion),
      ("previousGraphVersion", optional_size value.previousGraphVersion),
      ("graphifyVersion", textSize value.graphifyVersion)] ++
     (value.processingFingerprint.map fun fingerprint =>
        ("processingFingerprint", textSize fingerprint)).toList ++
     [("generatedAt", optional_size value.generatedAt),
      ("documents", listSize (value.documents.map DocumentEntry.size)),
      ("changes", value.changes.size), ("lastIngestion", value.lastIngestion.size)])

theorem utf8ByteSize_optional (s : Option String) :
    (json.optional s).utf8ByteSize = optional_size s := by
  cases s with
  | none => rfl
  | some s => exact json.utf8ByteSize_str s

theorem utf8ByteSize_nat (n : Nat) : (toString n).utf8ByteSize = (Nat.toDigits 10 n).length := by
  have hlength (ds : List Char) (h : ∀ c ∈ ds, c.isDigit = true) : String.utf8Len ds = ds.length := by
    induction ds with
    | nil => rfl
    | cons c ds ih =>
      have hdigit : c.utf8Size = 1 := by
        have hbounds := (Char.isDigit_iff_toNat.mp (h c List.mem_cons_self)).2
        have hnine : '9'.toNat = 57 := rfl
        exact Char.utf8Size_eq_one_iff.mpr (UInt32.le_iff_toNat_le.mpr (by
          change c.toNat ≤ 127
          omega))
      rw [String.utf8Len_cons, ih fun d hd => h d (List.mem_cons_of_mem _ hd), hdigit,
        List.length_cons]
  have htext : toString n = String.ofList (Nat.toDigits 10 n) := Nat.repr_eq_ofList_toDigits
  rw [htext, String.utf8ByteSize_ofList, hlength _ fun c hc => json.isDigit_toDigits hc]

theorem utf8ByteSize_paths (group : List String) :
    (json.array (group.map json.str)).utf8ByteSize = paths_size group := by
  rw [json.utf8ByteSize_array, paths_size, List.map_map]
  congr 1
  exact List.map_congr_left fun path _ => json.utf8ByteSize_str path

theorem utf8ByteSize_document (document : DocumentEntry) :
    document.encode.utf8ByteSize = document.size := by
  rw [DocumentEntry.encode, json.utf8ByteSize_object]
  simp only [List.map_cons, List.map_nil, json.utf8ByteSize_str, utf8ByteSize_nat]
  rfl

theorem utf8ByteSize_changes (changes : KnowledgeChangeSet) :
    changes.encode.utf8ByteSize = changes.size := by
  rw [KnowledgeChangeSet.encode, json.utf8ByteSize_object]
  simp only [List.map_cons, List.map_nil, utf8ByteSize_paths]
  rfl

theorem utf8ByteSize_last_ingestion (last : LastIngestion) :
    last.encode.utf8ByteSize = last.size := by
  rw [LastIngestion.encode, json.utf8ByteSize_object]
  simp only [List.map_cons, List.map_nil, json.utf8ByteSize_str, utf8ByteSize_optional]
  rfl

/-- The stored text has the size of the manifest. -/
theorem utf8ByteSize_manifest (value : Manifest) : value.encode.utf8ByteSize = value.size := by
  have hone : "1".utf8ByteSize = 1 := rfl
  rw [Manifest.encode, json.utf8ByteSize_object, Manifest.size]
  simp only [List.map_cons, List.map_nil, List.map_append, hone, utf8ByteSize_optional,
    json.utf8ByteSize_str, json.utf8ByteSize_array, List.map_map, Function.comp_def,
    utf8ByteSize_document, utf8ByteSize_changes, utf8ByteSize_last_ingestion]
  cases value.processingFingerprint with
  | none => rfl
  | some fingerprint => 
    simp only [Option.map_some, Option.toList_some, List.map_cons, List.map_nil, json.utf8ByteSize_str]

/-- What is read of a stored manifest, by the size of the manifest. -/
theorem read_manifest_of_size (is_one : List Char → Bool) {value : Manifest}
    (h : ∀ document ∈ value.documents, json.Short document.sizeBytes) :
    read_manifest is_one (manifest_file value) = some value.value ↔
      value.size ≤ 1024 * 1024 := by
  rw [read_manifest_file is_one h, utf8ByteSize_manifest]
  split_ifs with hlarge
  · exact ⟨fun heq => (by cases heq), fun hsize => absurd hsize (Nat.not_le.mpr hlarge)⟩
  · exact ⟨fun _ => Nat.not_lt.mp hlarge, fun _ => rfl⟩

end Sizes

section Snapshots

/-- The limits of the sources that the settings give. -/
structure SourceLimits where
  knowledge_max_document_count : Nat
  knowledge_max_document_size_bytes : Nat
  knowledge_max_total_source_bytes : Nat
  count_ge : 1 ≤ knowledge_max_document_count
  count_le : knowledge_max_document_count ≤ 10000
  size_ge : 1024 ≤ knowledge_max_document_size_bytes
  size_le : knowledge_max_document_size_bytes ≤ 100 * 1024 * 1024
  total_ge : 1024 ≤ knowledge_max_total_source_bytes
  total_le : knowledge_max_total_source_bytes ≤ 1024 * 1024 * 1024

/-- `SHA256_PATTERN`. -/
def is_sha256 (text : String) : Bool :=
  text.length = 64 ∧ text.toList.all fun c => c.isDigit || 'a' ≤ c && c ≤ 'f'

/-- The snapshots that discovery gives within the limits. -/
structure SourceLimits.Admits (limits : SourceLimits) (snapshot : KnowledgeSnapshot) : Prop where
  count : snapshot.documents.length ≤ limits.knowledge_max_document_count
  bytes : ∀ item ∈ snapshot.documents, 0 < item.bytes ∧
    item.bytes ≤ limits.knowledge_max_document_size_bytes
  total : (snapshot.documents.map (·.bytes)).sum ≤ limits.knowledge_max_total_source_bytes
  paths : ∀ item ∈ snapshot.documents, sources.is_safe_relative_path item.relative_path = true
  distinct : (snapshot.documents.map (·.relative_path)).Nodup
  digests : ∀ item ∈ snapshot.documents, is_sha256 item.sha256 = true

variable {limits : SourceLimits} {snapshot : KnowledgeSnapshot} {old : Option Manifest}

theorem short_of_admits (h : limits.Admits snapshot) (settings : Settings) (ingestion_id : String)
    (status : IngestionStatus) (started : String) (completed error active_version : Option String) :
    ∀ document ∈ (manifest_of settings snapshot ingestion_id status started completed error old
      active_version).documents, json.Short document.sizeBytes := by
  intro document hdocument
  obtain ⟨item, hitem, rfl⟩ := List.mem_map.mp hdocument
  apply short_of_lt
  have hbytes := (h.bytes item hitem).2
  have hlimit := limits.size_le
  have hpow : 10 ^ 9 ≤ 10 ^ json.MAX_STR_DIGITS := Nat.pow_le_pow_right (by decide) (by decide)
  exact (by omega : item.bytes < 10 ^ 9).trans_le hpow

/-- A manifest of admitted documents is read back exactly when it has no more than a mebibyte. -/
theorem read_manifest_iff (is_one : List Char → Bool) (settings : Settings)
    (ingestion_id : String) (status : IngestionStatus) (started : String)
    (completed error active_version : Option String) (h : limits.Admits snapshot) :
    read_manifest is_one (manifest_file (manifest_of settings snapshot ingestion_id status started
        completed error old active_version)) =
      some (manifest_of settings snapshot ingestion_id status started completed error old
        active_version).value ↔
      (manifest_of settings snapshot ingestion_id status started completed error old
        active_version).size ≤ 1024 * 1024 :=
  read_manifest_of_size is_one (short_of_admits h settings ingestion_id status started completed
    error active_version)

def DIGEST : String :=
  String.ofList (List.replicate 64 'a')

/-- A small document whose name is its number. -/
def numbered_document (n : Nat) : KnowledgeDocument where
  relative_path := toString n ++ ".md"
  sha256 := DIGEST
  bytes := 1
  modified_at := "2026-01-01T00:00:00+00:00"
  media_type := "text/markdown"

def numbered_snapshot (n : Nat) : KnowledgeSnapshot where
  source_version := DIGEST
  documents := (List.range n).map numbered_document

theorem limits_count : 1 ≤ 10000 ∧ 10000 ≤ 10000 := by decide

theorem limits_size : 1024 ≤ 2 * 1024 * 1024 ∧ 2 * 1024 * 1024 ≤ 100 * 1024 * 1024 := by decide

theorem limits_total : 1024 ≤ 32 * 1024 * 1024 ∧ 32 * 1024 * 1024 ≤ 1024 * 1024 * 1024 := by decide

/-- The settings of the largest number of documents. -/
def LIMITS : SourceLimits where
  knowledge_max_document_count := 10000
  knowledge_max_document_size_bytes := 2 * 1024 * 1024
  knowledge_max_total_source_bytes := 32 * 1024 * 1024
  count_ge := limits_count.1
  count_le := limits_count.2
  size_ge := limits_size.1
  size_le := limits_size.2
  total_ge := limits_total.1
  total_le := limits_total.2

theorem numbered_path (n : Nat) :
    (numbered_document n).relative_path.toList = Nat.toDigits 10 n ++ ['.', 'm', 'd'] := by
  have htext : (toString n).toList = Nat.toDigits 10 n := Nat.toList_repr
  change (toString n ++ ".md").toList = _
  rw [String.toList_append, htext]
  rfl

theorem is_safe_numbered (n : Nat) :
    sources.is_safe_relative_path (numbered_document n).relative_path = true := by
  have hpath := numbered_path n
  have hdigit (c : Char) (hc : c ∈ Nat.toDigits 10 n) : c.isDigit = true := json.isDigit_toDigits hc
  have hslash : '/' ∉ (numbered_document n).relative_path.toList := by
    rw [hpath, List.mem_append, not_or]
    refine ⟨fun hc => ?_, by decide⟩
    have hslash := hdigit _ hc
    cases hslash
  have hsegments : text.segments '/' (numbered_document n).relative_path =
      [(numbered_document n).relative_path] := by
    rw [text.segments, List.splitOn_eq_singleton hslash, List.map_singleton, String.ofList_toList]
  have hstart : text.startsWith (numbered_document n).relative_path "/" = false := by
    rw [Bool.eq_false_iff]
    intro hstart
    exact hslash ((List.isPrefixOf_iff_prefix.mp hstart).subset List.mem_cons_self)
  have hsafe : (numbered_document n).relative_path.toList.all sources.is_safe_character = true := by
    rw [hpath, List.all_append, Bool.and_eq_true, List.all_eq_true]
    refine ⟨fun c hc => ?_, by decide⟩
    rw [sources.is_safe_character, Char.isAlphanum, hdigit c hc]
    simp
  have hdots : ".." ∉ [(numbered_document n).relative_path] := by
    rw [List.mem_singleton]
    intro heq
    have hlast := congrArg (fun s => s.toList.getLast?) heq
    rw [hpath] at hlast
    simp at hlast
  have hempty : (numbered_document n).relative_path.toList.isEmpty = false := by
    rw [hpath]
    simp
  rw [sources.is_safe_relative_path, hsegments, hstart, hsafe, hempty]
  simpa using hdots

theorem numbered_injective {m n : Nat}
    (h : (numbered_document m).relative_path = (numbered_document n).relative_path) : m = n := by
  have hpath := congrArg String.toList h
  rw [numbered_path, numbered_path] at hpath
  have hdigits := List.append_cancel_right hpath
  rw [← @Nat.ofDigitChars_ten_toDigits m, hdigits, Nat.ofDigitChars_ten_toDigits]

theorem is_sha256_digest : is_sha256 DIGEST = true := by decide

theorem sum_ones (n : Nat) : ((List.range n).map fun _ => 1).sum = n := by
  simp

theorem admits_numbered {n : Nat} (hn : n ≤ 10000) : LIMITS.Admits (numbered_snapshot n) where
  count := by
    rw [numbered_snapshot, List.length_map, List.length_range]
    exact hn
  bytes item hitem := by
    obtain ⟨k, -, rfl⟩ := List.mem_map.mp hitem
    have hlimit : 1 ≤ LIMITS.knowledge_max_document_size_bytes := by decide
    exact ⟨Nat.one_pos, hlimit⟩
  total := by
    rw [numbered_snapshot, List.map_map]
    have hsum : ((List.range n).map ((·.bytes) ∘ numbered_document)).sum = n := sum_ones n
    rw [hsum]
    exact hn.trans (by decide)
  paths item hitem := by
    obtain ⟨k, -, rfl⟩ := List.mem_map.mp hitem
    exact is_safe_numbered k
  distinct := by
    rw [numbered_snapshot, List.map_map]
    exact List.nodup_range.map fun _ _ heq => numbered_injective heq
  digests item hitem := by
    obtain ⟨k, -, rfl⟩ := List.mem_map.mp hitem
    exact is_sha256_digest

/-- No entry of a document has fewer bytes than its keys, marks and digest. -/
theorem document_size_ge {document : DocumentEntry} (h : document.sha256 = DIGEST) :
    106 ≤ document.size := by
  have hdigest : textSize document.sha256 = 66 := by
    rw [h]
    decide
  have hkeys : textSize "relativePath" = 14 ∧ textSize "sha256" = 8 ∧ textSize "sizeBytes" = 11 ∧
      textSize "modifiedAt" = 12 := by decide
  obtain ⟨h1, h2, h3, h4⟩ := hkeys
  rw [DocumentEntry.size, fieldsSize]
  refine le_trans ?_ (json.sum_le_listSize _)
  simp only [List.map_cons, List.sum_cons, hdigest, h1, h2, h3, h4]
  omega

theorem mul_length_le_sum {entries : List DocumentEntry} (h : ∀ entry ∈ entries, 106 ≤ entry.size) :
    106 * entries.length ≤ (entries.map DocumentEntry.size).sum := by
  induction entries with
  | nil => exact le_rfl
  | cons entry entries ih =>
    have hentry := h entry List.mem_cons_self
    have hrest := ih fun entry hmem => h entry (List.mem_cons_of_mem _ hmem)
    rw [List.length_cons, List.map_cons, List.sum_cons]
    omega

theorem manifest_size_ge {value : Manifest}
    (h : ∀ document ∈ value.documents, document.sha256 = DIGEST) :
    106 * value.documents.length ≤ value.size := by
  have hsum := mul_length_le_sum fun document hdocument => document_size_ge (h document hdocument)
  have hlist := json.sum_le_listSize (value.documents.map DocumentEntry.size)
  have hfield := @json.le_fieldsSize
    ([("schemaVersion", 1), ("sourceVersion", optional_size value.sourceVersion),
      ("activeGraphVersion", optional_size value.activeGraphVersion),
      ("previousGraphVersion", optional_size value.previousGraphVersion),
      ("graphifyVersion", textSize value.graphifyVersion)] ++
     (value.processingFingerprint.map fun fingerprint =>
        ("processingFingerprint", textSize fingerprint)).toList ++
     [("generatedAt", optional_size value.generatedAt),
      ("documents", listSize (value.documents.map DocumentEntry.size)),
      ("changes", value.changes.size), ("lastIngestion", value.lastIngestion.size)])
    ("documents", listSize (value.documents.map DocumentEntry.size)) (by simp)
  rw [Manifest.size]
  omega

theorem numbered_size_ge (n : Nat) (ingestion_id started completed active_version : String) :
    106 * n ≤ (manifest_of default_settings (numbered_snapshot n) ingestion_id .completed started
      (some completed) none none (some active_version)).size := by
  have hdigests : ∀ document ∈ (manifest_of default_settings (numbered_snapshot n) ingestion_id .completed
      started (some completed) none none (some active_version)).documents,
      document.sha256 = DIGEST := by
    intro document hdocument
    obtain ⟨item, hitem, rfl⟩ := List.mem_map.mp hdocument
    obtain ⟨k, -, rfl⟩ := List.mem_map.mp hitem
    rfl
  have hsize := manifest_size_ge hdigests
  rw [manifest_of, List.length_map, numbered_snapshot, List.length_map, List.length_range] at hsize
  exact hsize

/-- Ten thousand small documents are admitted, and their manifest is not read back. -/
theorem read_manifest_too_large : ∃ (limits : SourceLimits) (settings : Settings)
    (snapshot : KnowledgeSnapshot) (ingestion_id started completed active_version : String),
    limits.Admits snapshot ∧
      read_manifest (fun _ => false) (manifest_file (manifest_of settings snapshot ingestion_id
        .completed started (some completed) none none (some active_version))) ≠
      some (manifest_of settings snapshot ingestion_id .completed started (some completed) none none
        (some active_version)).value := by
  have hshort := @short_of_admits LIMITS (numbered_snapshot 10000) none (admits_numbered le_rfl)
    default_settings "id" .completed "started" (some "completed") none (some "v1")
  have hsize := numbered_size_ge 10000 "id" "started" "completed" "v1"
  refine ⟨LIMITS, default_settings, numbered_snapshot 10000, "id", "started", "completed", "v1",
    admits_numbered le_rfl, fun hread => ?_⟩
  have hfits := (read_manifest_of_size (fun _ => false) hshort).mp hread
  omega

/-- The manifest of one document is read back. -/
theorem read_manifest_small :
    read_manifest (fun _ => false) (manifest_file (manifest_of default_settings (numbered_snapshot 1) "id"
      .completed "started" (some "completed") none none (some "v1"))) =
    some (manifest_of default_settings (numbered_snapshot 1) "id" .completed "started" (some "completed")
      none none (some "v1")).value :=
  (read_manifest_iff (fun _ => false) default_settings "id" .completed "started" (some "completed") none
    (some "v1") (admits_numbered (by omega))).mpr (by decide +kernel)

end Snapshots

end lagraph.knowledge
