import LaGraph.Foundation.Text

open foundation

namespace lagraph.sources

abbrev Bytes := List UInt8

/-- What the file names and texts are read with, and the converters of the formats that
are not plain text. -/
structure FormatRules where
  lower : String → String
  is_space : Char → Bool
  html_signature : String → Bool
  extract_html : String → Bytes → Except String (Option String)
  extract_pdf : Bytes → Except String (Option String)
  extract_docx : Bytes → Nat → Except String String
  /-- On ASCII texts, `lower` is the one of their characters. -/
  lower_ascii : ∀ s : String, (∀ c ∈ s.toList, c.toNat < 128) → lower s = s.map Char.toLower

structure ConvertedDocument where
  text : String
  media_type : String
  adapter : String
  deriving DecidableEq, Repr

def MEDIA_TYPES : List (String × String) :=
  [(".md", "text/markdown"), (".txt", "text/plain"), (".html", "text/html"),
    (".htm", "text/html"), (".pdf", "application/pdf"),
    (".docx", "application/vnd.openxmlformats-officedocument.wordprocessingml.document")]

/-- `suffix` of a file name: from its last dot, unless it starts or ends with it. -/
def suffix (name : String) : String :=
  match text.afterLast ['.'] name.toList with
  | some [] => ""
  | some (c :: rest) =>
    if name.length = rest.length + 2 then "" else String.ofList ('.' :: c :: rest)
  | none => ""

example : suffix "law.2003.md" = ".md" ∧ suffix ".md" = "" ∧ suffix "law." = "" := by
  decide +kernel

/-- A suffix ends the name. -/
theorem suffix_spec {name : String} (h : suffix name ≠ "") :
    ∃ pre, name.toList = pre ++ (suffix name).toList := by
  unfold suffix at h ⊢
  split at h
  · exact absurd rfl h
  · rename_i c rest hlast
    obtain ⟨pre, hpre⟩ := text.afterLast_char hlast
    split at h
    · exact absurd rfl h
    · rename_i hinside
      simp only [if_neg hinside]
      exact ⟨pre, by rw [hpre, String.toList_ofList]⟩
  · exact absurd rfl h

variable (rules : FormatRules)

/-- The media type of a file by its extension in lower case. -/
def media_type (name : String) : Option String :=
  MEDIA_TYPES.lookup (rules.lower (suffix name))

/-- `_strict_utf8`. -/
def strict_utf8 (raw : Bytes) (relative_path : String) : Except String String :=
  match String.fromUTF8? ⟨raw.toArray⟩ with
  | some value => .ok value
  | none => .error s!"Knowledge document is not valid UTF-8: {relative_path}"

/-- `_html`. -/
def html (raw : Bytes) (relative_path : String) : Except String String := do
  let value ← strict_utf8 raw relative_path
  if rules.html_signature value then
    match rules.extract_html relative_path raw with
    | .error _ => .error "HTML conversion failed"
    | .ok none => .error "HTML conversion produced no text"
    | .ok (some extracted) => .ok extracted
  else .error "HTML source has no recognized HTML signature"

def is_blank (value : String) : Bool :=
  value.toList.all rules.is_space

/-- The bytes that a PDF file starts with. -/
def pdf_signature : Bytes := [0x25, 0x50, 0x44, 0x46, 0x2d]

/-- `_pdf`. -/
def pdf (raw : Bytes) : Except String String :=
  if pdf_signature.isPrefixOf raw then
    match rules.extract_pdf raw with
    | .error message => .error message
    | .ok none => .error "PDF has no usable embedded text"
    | .ok (some value) =>
      if is_blank rules value then .error "PDF has no usable embedded text" else .ok value
  else .error "PDF source has an invalid signature"

/-- Line ends become line feeds. -/
def normalize_newlines : List Char → List Char
  | '\r' :: '\n' :: rest => '\n' :: normalize_newlines rest
  | '\r' :: rest => '\n' :: normalize_newlines rest
  | c :: rest => c :: normalize_newlines rest
  | [] => []

/-- The text of a document by its extension, with the name of the adapter. -/
def extract (extension relative_path : String) (raw : Bytes) (max_extracted_bytes : Nat) :
    Except String (String × String) :=
  if extension = ".md" ∨ extension = ".txt" then
    (strict_utf8 raw relative_path).map fun value => (value, "utf8-identity")
  else if extension = ".html" ∨ extension = ".htm" then
    (html rules raw relative_path).map fun value => (value, "haystack-html-local")
  else if extension = ".pdf" then
    (pdf rules raw).map fun value => (value, "haystack-pypdf-local")
  else
    (rules.extract_docx raw max_extracted_bytes).map fun value => (value, "haystack-docx-local")

/-- `convert_document`; the path is as discovery writes it. -/
def convert_document (relative_path : String) (raw : Bytes) (max_extracted_bytes : Nat) :
    Except String ConvertedDocument := do
  let name := text.lastSegment '/' relative_path
  match media_type rules name with
  | none => .error "Unsupported source extension"
  | some media_type =>
    let (value, adapter) ← extract rules (rules.lower (suffix name)) relative_path raw
      max_extracted_bytes
    let value := String.ofList (normalize_newlines value.toList)
    if is_blank rules value then .error "Document conversion produced no text"
    else if max_extracted_bytes < value.utf8ByteSize then
      .error "Extracted document text exceeds configured limit"
    else .ok ⟨value, media_type, adapter⟩

end lagraph.sources
