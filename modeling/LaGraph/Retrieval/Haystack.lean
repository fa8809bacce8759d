import LaGraph.Retrieval.Index
import Mathlib.Data.Rat.Defs
import Mathlib.Algebra.Order.Ring.Unbundled.Rat

open foundation

namespace lagraph.retrieval

/-- A document of the in-memory store, as far as its retrievers read it. -/
structure Document where
  id : String
  content : String
  score : Option Rat
  parent_id : Option String
  children_ids : List String
  level : Nat
  block_size : Nat

/-- The documents that the two retrievers return: their identifiers and scores. -/
structure Haystack where
  bm25 : List Document → String → Nat → List (String × Option Rat)
  auto_merge : List Document → Rat → List Document → List (String × Option Rat)

/-- What the query is folded and taken apart with. -/
structure QueryRules where
  fold : String → String
  lower : String → String
  words : String → List String
  is_decimal : String → Bool

structure HaystackSourceRetriever where
  index : SourceIndex
  graph_version : String
  full_text : FullText
  haystack : Haystack
  rules : QueryRules

def QUESTION_STOP_WORDS : List String :=
  ["a", "al", "asigna", "asignar", "como", "cuando", "de", "del", "el", "en", "la", "las", "ley",
    "lo", "los", "que", "persona", "se", "segun", "su", "una", "un", "y"]

/-- `_retrieval_query`. -/
def retrieval_query (rules : QueryRules) (query : String) : String :=
  let folded := rules.lower (rules.fold query)
  let terms := (rules.words folded).filter fun token =>
    token ∉ QUESTION_STOP_WORDS && !rules.is_decimal token
  let is_death := fun (token : String) => token.startsWith "fallec"
  let terms :=
    if terms.any is_death then
      terms.filter (!is_death ·) ++ ["muerte", "sobrevivientes", "beneficiarios"]
    else terms
  let compact := " ".intercalate terms.eraseDups
  if compact = "" then folded else compact

/-- `write_documents`, which fails on a repeated identifier. -/
def write_documents (documents : List Document) : Except Failure (List Document) :=
  if (documents.map (·.id)).Nodup then .ok documents else .error .duplicate_document_error

/-- The last passage under an identifier. -/
def under (passages : List SourcePassage) (id : String) : Option SourcePassage :=
  passages.reverse.find? (·.id = id)

/-- Each identifier once, at its first place with its last passage. -/
def deduplicated (passages : List SourcePassage) : List SourcePassage :=
  ((passages.map (·.id)).eraseDups).filterMap (under passages)

/-- The greatest of some scores. -/
def best : List Rat → Option Rat
  | [] => none
  | score :: scores => some (scores.foldl max score)

/-- Scored passages first, by falling score and then by falling identifier. -/
def ranks_before (a b : SourcePassage) : Bool :=
  if a.score.isSome ≠ b.score.isSome then a.score.isSome
  else if a.score.getD 0 ≠ b.score.getD 0 then b.score.getD 0 < a.score.getD 0
  else ¬ a.id < b.id

variable (retriever : HaystackSourceRetriever)

/-- A leaf as the first store holds it. -/
def stored_leaf (item : SourcePassage) : Document where
  id := item.id
  content := item.text ++ "\n" ++ retriever.rules.fold item.text
  score := none
  parent_id := item.parent_id
  children_ids := item.children_ids
  level := item.level
  block_size := item.token_count

def stored_parent (item : SourcePassage) : Document where
  id := item.id
  content := item.text
  score := none
  parent_id := item.parent_id
  children_ids := item.children_ids
  level := item.level
  block_size := item.token_count

def scored_leaf (item : SourcePassage) : Document where
  id := item.id
  content := item.text
  score := item.score
  parent_id := item.parent_id
  children_ids := []
  level := item.level
  block_size := item.token_count

/-- The best score of the selected leaves of a parent. -/
def child_score (hierarchical : List SourcePassage) (parent_id : String) : Option Rat :=
  best ((hierarchical.filter (·.parent_id = some parent_id)).filterMap (·.score))

/-- What the auto-merger makes of the leaves with one threshold. -/
def merge_group (parents hierarchical : List SourcePassage) (threshold : Rat) :
    Except Failure (List SourcePassage) := do
  let group := hierarchical.filter fun item =>
    item.auto_merge_threshold = threshold &&
      item.parent_id.any fun id => (under parents id).isSome
  let store ← write_documents
    ((parents.filter fun parent => group.any (·.parent_id = some parent.id)).map stored_parent)
  let documents := retriever.haystack.auto_merge store threshold (group.map scored_leaf)
  pure (documents.filterMap fun document =>
    match under parents document.1 with
    | some parent => some { parent with score := child_score hierarchical document.1 }
    | none => under hierarchical document.1)

/-- The passages that BM25 selects, under its scores. -/
def selected (passages : List SourcePassage) (documents : List (String × Option Rat)) :
    List SourcePassage :=
  documents.filterMap fun document =>
    (under passages document.1).map fun item => { item with score := document.2 }

def retrieve (query : String) (scope : RetrievalScope) (top_k : Nat) :
    Except Failure (List SourcePassage) := do
  let lexical_query := retrieval_query retriever.rules query
  let passages := search retriever.full_text retriever.index lexical_query retriever.graph_version
    scope.documents scope.articles 100
  if passages = [] then pure []
  else do
    let store ← write_documents (passages.map (stored_leaf retriever))
    let selected := selected passages (retriever.haystack.bm25 store lexical_query top_k)
    let standalone := selected.filter (·.standalone)
    let hierarchical := selected.filter fun item => !item.standalone && item.parent_id.isSome
    if hierarchical = [] then pure (standalone.take top_k)
    else do
      let parent_ids := sorted.ofList
        (hierarchical.filterMap fun item => item.parent_id.filter (· ≠ ""))
      let parents := parents retriever.index retriever.graph_version parent_ids
      let unresolved := hierarchical.filter fun item =>
        !item.parent_id.any fun id => (under parents id).isSome
      let thresholds := sorted.ofList (hierarchical.map (·.auto_merge_threshold))
      let merged ← thresholds.mapM (merge_group retriever parents hierarchical)
      let combined := standalone ++ unresolved ++ merged.flatten
      pure ((sorted.sortBy ranks_before (deduplicated combined)).take top_k)

end lagraph.retrieval
