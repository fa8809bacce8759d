import LaGraph.Foundation.SortedSets
import LaGraph.Knowledge.Converters

open foundation

namespace lagraph.sources

inductive SourceError
  | SourceValidationError (message : String)
  | SourceLimitError (message : String)
  /-- A document that its model does not accept. -/
  | ValidationError (field : String)
  deriving DecidableEq, Repr

/-- A regular file below the root that no symbolic link leads to: the names on the way
to it, and its content. -/
structure SourceFile where
  path : List String
  raw : Bytes
  deriving DecidableEq, Repr

structure KnowledgeDocument where
  relative_path : String
  content : String
  raw_bytes : Bytes
  sha256 : String
  bytes : Nat
  media_type : String
  profile : String
  converter : String
  deriving DecidableEq, Repr

structure KnowledgeSnapshot where
  source_version : String
  documents : List KnowledgeDocument
  total_bytes : Nat

structure FilesystemDocumentSource where
  max_documents : Nat
  max_document_bytes : Nat
  max_total_bytes : Nat
  max_extracted_document_bytes : Nat
  rules : FormatRules
  /-- The name of the profile that `profiles` select for a path. -/
  profile_of : String → String
  sha256 : Bytes → String

def relative_path (file : SourceFile) : String :=
  "/".intercalate file.path

/-- `_ignored`. -/
def ignored (rules : FormatRules) (name : String) : Bool :=
  text.startsWith name "." || text.startsWith name "#" || text.endsWith name "~" ||
    [".tmp", ".temp", ".swp", ".bak"].any (text.endsWith (rules.lower name))

/-- The characters of `SAFE_RELATIVE_PATH`. -/
def is_safe_character (c : Char) : Bool :=
  c.isAlphanum || c = '.' || c = '_' || c = '/' || c = '-'

/-- The pattern and the check of `relative_path`. -/
def is_safe_relative_path (path : String) : Bool :=
  !path.toList.isEmpty && path.toList.all is_safe_character && !text.startsWith path "/" &&
    ".." ∉ text.segments '/' path

theorem ascii_of_safe {c : Char} (h : is_safe_character c = true) : c.toNat < 128 := by
  unfold is_safe_character at h
  delta Char.isAlphanum Char.isAlpha Char.isUpper Char.isLower Char.isDigit at h
  simp only [UInt32.le_iff_toNat_le, ge_iff_le, Bool.or_eq_true, Bool.and_eq_true,
    decide_eq_true_eq] at h
  obtain (((((h | h) | h) | rfl) | rfl) | rfl) | rfl := h
  · have hle : c.val.toNat ≤ 90 := h.2
    change c.val.toNat < 128
    omega
  · have hle : c.val.toNat ≤ 122 := h.2
    change c.val.toNat < 128
    omega
  · have hle : c.val.toNat ≤ 57 := h.2
    change c.val.toNat < 128
    omega
  all_goals decide

/-- The last characters of the supported extensions. -/
def format_ends : List (Option Char) :=
  [some 'd', some 't', some 'l', some 'm', some 'f', some 'x']

/-- What a name of a supported format ends in. -/
theorem getLast_of_media_type {rules : FormatRules} {name : String}
    (hascii : ∀ c ∈ name.toList, c.toNat < 128) (h : (media_type rules name).isSome = true) :
    (rules.lower name).toList.getLast? ∈ format_ends := by
  have hkeys : rules.lower (suffix name) ∈ MEDIA_TYPES.map (·.1) := by
    by_contra hnot
    have hnone : MEDIA_TYPES.lookup (rules.lower (suffix name)) = none := by
      rw [List.lookup_eq_none_iff]
      intro item hitem
      rw [bne_iff_ne]
      exact fun hsame => hnot (hsame ▸ List.mem_map_of_mem hitem)
    rw [media_type, hnone] at h
    cases h
  have hempty : suffix name ≠ "" := by
    intro hempty
    have hnone : ∀ c ∈ "".toList, c.toNat < 128 := fun c hc => absurd hc List.not_mem_nil
    rw [hempty, rules.lower_ascii "" hnone] at hkeys
    revert hkeys
    decide +kernel
  obtain ⟨pre, hpre⟩ := suffix_spec hempty
  have hsuffix : ∀ c ∈ (suffix name).toList, c.toNat < 128 :=
    fun c hc => hascii c (hpre ▸ List.mem_append_right pre hc)
  rw [rules.lower_ascii _ hsuffix] at hkeys
  have hlast : ((suffix name).map Char.toLower).toList.getLast? =
      (rules.lower name).toList.getLast? := by
    have hne : (suffix name).toList.map Char.toLower ≠ [] := by
      rw [ne_eq, List.map_eq_nil_iff, String.toList_eq_nil_iff]
      exact hempty
    rw [rules.lower_ascii name hascii, String.toList_map, String.toList_map, hpre, List.map_append,
      List.getLast?_append_of_ne_nil _ hne]
  rw [← hlast]
  generalize (suffix name).map Char.toLower = ending at hkeys
  clear hlast
  revert ending
  decide

theorem last_of_ignored : ∀ ending ∈ [".tmp", ".temp", ".swp", ".bak"], ending.toList ≠ [] ∧
    ending.toList.getLast? ∉ format_ends := by decide

/-- A name of safe characters and a supported format is ignored only for its dot. -/
theorem not_ignored {rules : FormatRules} {name : String}
    (hsafe : ∀ c ∈ name.toList, is_safe_character c = true)
    (hdot : text.startsWith name "." = false) (h : (media_type rules name).isSome = true) :
    ignored rules name = false := by
  have hname := getLast_of_media_type (fun c hc => ascii_of_safe (hsafe c hc)) h
  have hhash : text.startsWith name "#" = false := by
    rw [Bool.eq_false_iff]
    intro hstart
    obtain ⟨rest, hrest⟩ := List.isPrefixOf_iff_prefix.mp hstart
    exact absurd (hsafe '#' (hrest ▸ List.mem_cons_self)) (by decide)
  have htilde : text.endsWith name "~" = false := by
    rw [Bool.eq_false_iff]
    intro hend
    obtain ⟨front, hfront⟩ := List.isSuffixOf_iff_suffix.mp hend
    exact absurd (hsafe '~' (hfront ▸ List.mem_append_right _ List.mem_cons_self)) (by decide)
  have hendings : [".tmp", ".temp", ".swp", ".bak"].any (text.endsWith (rules.lower name)) =
      false := by
    rw [List.any_eq_false]
    intro ending hending hend
    obtain ⟨front, hfront⟩ := List.isSuffixOf_iff_suffix.mp hend
    obtain ⟨hne, hother⟩ := last_of_ignored ending hending
    rw [← hfront, List.getLast?_append_of_ne_nil _ hne] at hname
    exact hother hname
  rw [ignored, hdot, hhash, htilde, hendings]
  rfl

variable (source : FilesystemDocumentSource)

/-- `_walk`: the files of supported formats, no name on their way ignored. -/
def walk (files : List SourceFile) : List SourceFile :=
  files.filter fun file =>
    file.path.all (!ignored source.rules ·) &&
      (media_type source.rules (file.path.getLastD "")).isSome

/-- `_read_regular_file`. -/
def read_regular_file (file : SourceFile) : Except SourceError Bytes :=
  if file.raw = [] then
    .error (.SourceValidationError "Knowledge documents must not be empty")
  else if source.max_document_bytes < file.raw.length then
    .error (.SourceLimitError "Knowledge document exceeds configured size limit")
  else .ok file.raw

/-- The validation of a document. -/
def knowledge_document (path : String) (raw : Bytes) (converted : ConvertedDocument) :
    Except SourceError KnowledgeDocument :=
  let document : KnowledgeDocument :=
    { relative_path := path
      content := converted.text
      raw_bytes := raw
      sha256 := source.sha256 raw
      bytes := raw.length
      media_type := converted.media_type
      profile := source.profile_of path
      converter := converted.adapter }
  if is_safe_relative_path path = false then .error (.ValidationError "relativePath")
  else if document.bytes = 0 then .error (.ValidationError "bytes")
  else .ok document

/-- One document more, while the total stays within its limit. -/
def discover_file (found : List KnowledgeDocument × Nat) (file : SourceFile) :
    Except SourceError (List KnowledgeDocument × Nat) := do
  let path := relative_path file
  let raw ← read_regular_file source file
  let total := found.2 + raw.length
  if source.max_total_bytes < total then
    .error (.SourceLimitError "Knowledge source bytes exceed configured total limit")
  else
    match convert_document source.rules path raw source.max_extracted_document_bytes with
    | .error _ => .error (.SourceValidationError s!"Knowledge document conversion failed: {path}")
    | .ok converted => do
      let document ← knowledge_document source path raw converted
      pure (found.1 ++ [document], total)

/-- The digest of the paths and contents of a snapshot. -/
def source_version (documents : List KnowledgeDocument) : String :=
  source.sha256 (documents.flatMap fun document =>
    document.relative_path.toUTF8.toList ++ 0 :: document.sha256.toUTF8.toList ++ [0])

def discover (files : List SourceFile) : Except SourceError KnowledgeSnapshot :=
  let candidates := walk source files
  if source.max_documents < candidates.length then
    .error (.SourceLimitError "Knowledge document count exceeds configured limit")
  else do
    let ordered := sorted.sortBy (fun a b => ¬ relative_path b < relative_path a) candidates
    let (documents, total_bytes) ← ordered.foldlM (discover_file source) ([], 0)
    pure { source_version := source_version source documents, documents, total_bytes }

end lagraph.sources
