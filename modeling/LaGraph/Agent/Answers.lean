import LaGraph.Agent.Evidence
import LaGraph.Foundation.SortedSets
import LaGraph.Foundation.Text

open foundation

namespace lagraph.agent

inductive ResponseLanguage
  | en | es
  deriving DecidableEq, Repr

inductive ResponseType
  | answer | clarification | insufficient
  deriving DecidableEq, Repr

inductive Confidence
  | high | medium | low | insufficient
  deriving DecidableEq, Repr

structure Answer where
  answer : String
  response_type : ResponseType
  confidence : Confidence
  graph_version : Option String
  citations : List Citation
  graph_evidence : GraphEvidence
  warnings : List String

def INSUFFICIENT_ANSWER : String :=
  "The knowledge graph does not contain sufficient evidence to answer this question."

def INSUFFICIENT_ANSWER_ES : String :=
  "El grafo de conocimiento no contiene evidencia suficiente para responder esta pregunta."

def UNSUPPORTED_CITATIONS_WARNING : String :=
  "The model returned unsupported citation identifiers."

def UNSUPPORTED_CITATIONS_WARNING_ES : String :=
  "El modelo devolvió identificadores de citas sin respaldo."

def SOURCE_PASSAGES_MISSING_WARNING : String :=
  "Graphify identified the requested article, but no matching source passage was available; " ++
    "article contents were not inferred from graph labels."

def SOURCE_PASSAGES_MISSING_WARNING_ES : String :=
  "Graphify identificó el artículo solicitado, pero no se encontró un pasaje de la fuente; " ++
    "su contenido no se infirió a partir de etiquetas del grafo."

def SOURCE_RETRIEVAL_UNAVAILABLE_WARNING : String :=
  "Source-text retrieval was unavailable; only graph evidence could be used."

/-- `_insufficient_answer`. -/
def insufficient_answer : ResponseLanguage → String
  | .es => INSUFFICIENT_ANSWER_ES
  | .en => INSUFFICIENT_ANSWER

/-- `re.sub` of the first of several literals at each place; an empty literal matches
between the characters. The rounds are at least as many as characters. -/
def substitute (literals : List (List Char)) (replacement : List Char) :
    Nat → List Char → List Char
  | 0, text => text
  | rounds + 1, text =>
    match literals.find? (·.isPrefixOf text), text with
    | some [], [] => replacement
    | some [], c :: rest => replacement ++ c :: substitute literals replacement rounds rest
    | some literal, text =>
      replacement ++ substitute literals replacement rounds (text.drop literal.length)
    | none, [] => []
    | none, c :: rest => c :: substitute literals replacement rounds rest

/-- The characters of a `source:` identifier. -/
def is_source_character (c : Char) : Bool :=
  c.isAlphanum || c = '.' || c = '_' || c = ':' || c = '-'

/-- What follows a `source:` token with at least one character, at the start of the
text; a closing bracket belongs to it. -/
def after_source_token (text : List Char) : Option (List Char) :=
  if "source:".toList.isPrefixOf text then
    match text.drop 7 with
    | c :: rest =>
      if is_source_character c then
        match rest.dropWhile is_source_character with
        | ']' :: after => some after
        | ')' :: after => some after
        | after => some after
      else none
    | [] => none
  else none

/-- The tokens left over, with the bracket before them, become a phrase. -/
def replace_source_tokens (phrase : List Char) : Nat → List Char → List Char
  | 0, text => text
  | _ + 1, [] => []
  | rounds + 1, c :: rest =>
    match (if c = '[' ∨ c = '(' then after_source_token rest else after_source_token (c :: rest)) with
    | some after => phrase ++ replace_source_tokens phrase rounds after
    | none => c :: replace_source_tokens phrase rounds rest

/-- `_numbered_citation_answer`: the longer identifiers first. -/
def numbered_citation_answer (answer : String) (citations : List Citation)
    (language : ResponseLanguage) : String :=
  let numbered := citations.zipIdx 1
  let rendered := (sorted.sortBy (fun a b => b.1.id.length ≤ a.1.id.length) numbered).foldl
    (fun text item =>
      let id := item.1.id.toList
      substitute ['[' :: id ++ [']'], '(' :: id ++ [')'], id]
        ("[" ++ toString item.2 ++ "]").toList (text.length + 1) text)
    answer.toList
  let phrase := match language with
    | .es => "fuente de respaldo"
    | .en => "supporting source"
  String.ofList (replace_source_tokens phrase.toList rendered.length rendered)

/-- Without citations, the fixed texts are displayed as they are. -/
theorem insufficient_displayed (language : ResponseLanguage) :
    numbered_citation_answer (insufficient_answer language) [] language =
      insufficient_answer language := by
  have htokens : ∀ language phrase, replace_source_tokens phrase
      (insufficient_answer language).toList.length (insufficient_answer language).toList =
        (insufficient_answer language).toList := by
    intro language phrase
    cases language <;> rfl
  unfold numbered_citation_answer
  simp only [List.zipIdx_nil, sorted.sortBy, List.insertionSort_nil, List.foldl_nil]
  rw [htokens, String.ofList_toList]

/-- The place of a passage in its document. -/
def retrieval_location (passage : retrieval.SourcePassage) : String :=
  let location := match passage.article.filter (· ≠ "") with
    | some article => "Artículo " ++ article
    | none => "pasaje documental"
  match passage.paragraph.filter (· ≠ "") with
  | some paragraph => location ++ ", " ++ paragraph
  | none => location

/-- The citation of a passage. -/
def source_citation (passage : retrieval.SourcePassage) : Citation where
  id := passage.id
  title := passage.document ++ " — " ++ retrieval_location passage
  source := passage.document
  node_id := none
  relationship := none
  provenance := .explicit
  excerpt := some passage.text
  document := some passage.document
  article := passage.article
  paragraph := passage.paragraph
  start_line := some passage.start_line
  end_line := some passage.end_line
  page_number := passage.page_number
  section_path := if passage.section_path = [] then none else some passage.section_path

/-- What the workflow takes from Unicode, and the matches of its two patterns. -/
structure TextRules where
  lower : String → String
  upper : String → String
  strip : String → String
  strip_diacritics : String → String
  /-- The characters of the categories C, without the newline and the tabulator. -/
  is_control : Char → Bool
  /-- Each legal identifier with the text before it, and the text after the last. -/
  legal_identifiers : String → List (String × String) × String
  /-- The numbers of the articles that a text names, in order. -/
  article_numbers : String → List String

/-- Rules for plain English questions that name no legal text. -/
def plain_rules : TextRules where
  lower := (·.map Char.toLower)
  upper := (·.map Char.toUpper)
  strip := fun value => String.ofList (text.strip value.toList)
  strip_diacritics := id
  is_control := fun _ => false
  legal_identifiers := fun question => ([], question)
  article_numbers := fun _ => []

variable (rules : TextRules)

/-- The maximal runs of letters from a to z. -/
def words (text : List Char) : List String :=
  ((text.splitBy fun a b => a.isLower && b.isLower).filter fun run => run.all Char.isLower).map
    String.ofList

def SPANISH_WORDS : List String :=
  ["cual", "como", "cuando", "dice", "donde", "derechos", "establece", "explica", "ley", "los",
    "las", "para", "pension", "pensiones", "por", "que", "quien", "norma", "normas", "segun",
    "sobre", "una", "del"]

def ENGLISH_WORDS : List String :=
  ["what", "which", "how", "does", "the", "about", "explain", "according"]

def detect_response_language (question : String) : ResponseLanguage :=
  let folded := rules.lower (rules.strip_diacritics question)
  let found := words folded.toList
  let score := (SPANISH_WORDS.filter (· ∈ found)).length
  let english_score := (ENGLISH_WORDS.filter (· ∈ found)).length
  let spanish_marks := (rules.lower question).toList.any (· ∈ "¿¡ñáéíóúü".toList)
  let spanish_identifier := !(rules.legal_identifiers question).1.isEmpty
  if (2 ≤ score ∧ english_score < score) ∨
      (spanish_marks ∧ 1 ≤ score ∧ english_score ≤ score) ∨
      (spanish_identifier ∧ english_score = 0) then .es
  else .en

def normalize_retrieval_query (question : String) : String :=
  let (pieces, rest) := rules.legal_identifiers question
  String.join (pieces.map fun piece => rules.strip_diacritics piece.1 ++ piece.2) ++
    rules.strip_diacritics rest

/-- The normalized question, its legal identifiers alone, the question without accents;
each only once. -/
def retrieval_query_variants (question : String) : List String :=
  let primary := rules.strip (normalize_retrieval_query rules question)
  let identifiers := (rules.legal_identifiers question).1.map fun piece => rules.strip piece.2
  let focused := " ".intercalate identifiers.eraseDups
  let unaccented := rules.strip (rules.strip_diacritics question)
  ([primary, focused, unaccented].filter (· ≠ "")).eraseDups.take 3

inductive Role
  | user | assistant
  deriving DecidableEq, Repr

structure ConversationTurn where
  id : String
  role : Role
  content : String
  deriving DecidableEq, Repr

/-- The content of a turn as the model may see it. -/
def sanitized_content (content : String) : String :=
  rules.strip (String.ofList (content.toList.map fun c => if rules.is_control c then ' ' else c))

/-- The turns from the last one back, until the characters are used up. -/
def bounded_turns : Nat → List ConversationTurn → List ConversationTurn
  | _, [] => []
  | remaining, turn :: rest =>
    let content := sanitized_content rules turn.content
    if content = "" then bounded_turns remaining rest
    else
      let kept := String.ofList (content.toList.take remaining)
      if kept = "" then []
      else if remaining ≤ kept.length then [{ turn with content := kept }]
      else { turn with content := kept } :: bounded_turns (remaining - kept.length) rest

def sanitize_conversation_history (history : List ConversationTurn)
    (max_turns max_characters : Nat) : List ConversationTurn :=
  if max_turns = 0 ∨ max_characters = 0 then []
  else
    (bounded_turns rules max_characters
      (history.drop (history.length - max_turns * 2)).reverse).reverse

/-- The components of a POSIX path below its root. -/
def path_components (path : String) : List String :=
  (text.segments '/' path).filter fun part => part ≠ "" ∧ part ≠ "."

/-- The last component of a POSIX path. -/
def path_name (path : String) : String :=
  (path_components path).getLastD ""

example : path_name "leyes/2003/" = "2003" := by decide +kernel

end lagraph.agent
