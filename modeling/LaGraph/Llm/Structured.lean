import LaGraph.Foundation.Json.Decode
import LaGraph.Foundation.Unicode
import LaGraph.Plsql.Source

open foundation foundation.unicode
open lagraph.plsql (splitlines)

namespace lagraph.llm

/-- What `part.get` gives: a text, another value that a set can be asked for, or one it cannot. -/
inductive Entry
  | text (value : List Char)
  | hashable
  | unhashable

/-- A part of a message's content. -/
inductive Part
  | mapping (type text : Entry)
  | text (value : List Char)
  | other

/-- The content of a message as a provider gives it. -/
inductive Content
  | mapping (fields : List (List Nat × json.Value))
  | list (parts : List Part)
  | text (value : List Char)
  | other

inductive Raised
  | TypeError (message : String)
  | ValueError (message : String)
  | unhashable
  | decoder (failure : json.Failure)
  deriving DecidableEq, Repr

/-- The text of a part, where it has one. -/
def Part.content : Part → Except Raised (List Char)
  | .mapping .unhashable _ => .error .unhashable
  | .mapping (.text type) (.text value) =>
    if type = "text".toList ∨ type = "output_text".toList then .ok value else .ok []
  | .text value => .ok value
  | _ => .ok []

/-- `"".join(parts)`. -/
def join_parts : List Part → Except Raised (List Char)
  | [] => .ok []
  | part :: parts => do
    let text ← part.content
    let rest ← join_parts parts
    .ok (text ++ rest)

def lstrip (s : List Char) : List Char :=
  s.dropWhile python_space

def strip (s : List Char) : List Char :=
  (lstrip (lstrip s).reverse).reverse

def FENCE : List Char :=
  "```".toList

def JSON_LINE : List Char :=
  "json\n".toList

/-- The text within a fence. No character outside ASCII has a letter of the tag in lower case. -/
def unfence (text : List Char) : Except Raised (List Char) :=
  if FENCE.isPrefixOf text ∧ FENCE.isSuffixOf text then
    let lines := splitlines [] text
    if lines.length < 3 then .error (.ValueError "empty JSON code fence")
    else
      let text := strip (['\n'].intercalate ((lines.drop 1).dropLast.map String.toList))
      if (text.take 5).map Char.toLower = JSON_LINE then .ok (lstrip (text.drop 5)) else .ok text
  else .ok text

/-- The first object that starts at an opening brace. -/
def first_object : List Char → Except json.Failure (Option (List (List Nat × json.Value)))
  | [] => .ok none
  | character :: s =>
    if character ≠ '\x7b' then first_object s
    else
      match json.raw_decode (character :: s) with
      | .ok (.obj fields, _) => .ok (some fields)
      | .error .value_error => .error .value_error
      | _ => first_object s

def parse_object (text : List Char) : Except Raised (List (List Nat × json.Value)) :=
  match json.decode text with
  | .ok (.obj fields) => .ok fields
  | .ok _ => .error (.TypeError "structured model response must be an object")
  | .error .value_error => .error (.decoder .value_error)
  | .error .decode_error =>
    match first_object text with
    | .ok (some fields) => .ok fields
    | .ok none => .error (.decoder .decode_error)
    | .error failure => .error (.decoder failure)

def text_object (text : List Char) : Except Raised (List (List Nat × json.Value)) := do
  let text ← unfence (strip text)
  parse_object text

def json_object : Content → Except Raised (List (List Nat × json.Value))
  | .mapping fields => .ok fields
  | .list parts => do
    let text ← join_parts parts
    text_object text
  | .text text => text_object text
  | .other => .error (.TypeError "model content is not JSON text")

section Presentations

/-- The ways a model presents a text: bare between blanks, in a fence, or within prose. -/
inductive Presentation
  | bare (before after : List Char)
  | fence (leading tag before after : List Char)
  | prose (before after : List Char)

def Presentation.text (body : List Char) : Presentation → List Char
  | .bare before after => before ++ (body ++ after)
  | .fence leading tag before after =>
    FENCE ++ (leading ++ (tag ++ (before ++ (body ++ (after ++ FENCE)))))
  | .prose before after => before ++ (body ++ after)

/-- A presentation that a model may choose for an object. -/
def Presentation.Admitted (fields : List (List Nat × json.Value)) (body : List Char) :
    Presentation → Prop
  | .bare before after => json.Blanks before ∧ json.Blanks after
  | .fence leading tag before after =>
    json.Blanks leading ∧ (tag = [] ∨ tag = "json".toList) ∧ json.Blanks before ∧ json.Blanks after
  | .prose before after =>
    (∀ c ∈ before, c ≠ '\x7b' ∧ c ≠ '\x7d' ∧ c ≠ '\x60') ∧
      ∀ v, json.decode (before ++ (body ++ after)) = .ok v → v = .obj fields

/-- A part that has a text. -/
inductive IsText : Part → List Char → Prop
  | text (s : List Char) : IsText (.text s) s
  | mapping {type : List Char} (s : List Char)
      (h : type = "text".toList ∨ type = "output_text".toList) :
      IsText (.mapping (.text type) (.text s)) s

/-- The content is the text, or parts that make it up. -/
inductive Carries : Content → List Char → Prop
  | text (s : List Char) : Carries (.text s) s
  | parts {parts : List Part} {texts : List (List Char)} (h : List.Forall₂ IsText parts texts) :
      Carries (.list parts) texts.flatten

def LineBreak (c : Char) : Prop :=
  c = '\n' ∨ c = '\r'

/-- The line boundaries that may stand raw in a JSON string. -/
def SEPARATORS : List Char :=
  ['\u0085', '\u2028', '\u2029']

/-- The lines of a fence are apart from those of the object, and no line ends within a string.
Prose makes the text no other value, nor the start of one that cannot be converted. -/
def Presentation.Recovered (fields : List (List Nat × json.Value)) (body : List Char) :
    Presentation → Prop
  | .bare _ _ => True
  | .fence leading _ before after =>
    (∃ c ∈ leading ++ before, LineBreak c) ∧ (∃ c ∈ after, LineBreak c) ∧
      ∀ c ∈ body, c ∉ SEPARATORS
  | .prose before after =>
    json.decode (strip (before ++ (body ++ after))) ≠ .error .value_error ∧
      ∀ v, json.decode (strip (before ++ (body ++ after))) = .ok v → v = .obj fields

end Presentations

end lagraph.llm
