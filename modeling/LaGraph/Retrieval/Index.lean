import LaGraph.Foundation.Tables
import LaGraph.Retrieval.Chunking

open foundation

namespace lagraph.retrieval

instance : Keyed SourcePassage (String × String) := ⟨fun passage => (passage.id, passage.graph_version)⟩

/-- A row of the full-text table. -/
structure FtsRow where
  text : String
  document : String
  article : String
  passage_id : String
  graph_version : String
  deriving DecidableEq, Repr

/-- The two tables of the index. -/
structure SourceIndex where
  source_passages : Table SourcePassage
  source_passages_fts : List FtsRow

def SourceIndex.empty : SourceIndex := ⟨.empty, []⟩

structure IndexableDocument where
  relative_path : String
  content : String
  sha256 : String
  media_type : String

structure ProfileRule where
  glob : String
  profile : String × DocumentProfile

/-- The rules of the operator, each with the profile it names. -/
structure DocumentProfiles where
  default_profile : String × DocumentProfile
  rules : List ProfileRule

/-- The full-text engine: the tokens of a query, and the rank of a row under a match
expression, less being better; `none` is no match. -/
structure FullText where
  tokens : String → List String
  bm25 : List FtsRow → List String → FtsRow → Option Rat

inductive Failure
  | value_error (message : String)
  | integrity_error
  | duplicate_document_error
  deriving DecidableEq, Repr

variable (patterns : Patterns) (encoding : Encoding) (full_text : FullText)

/-- The profile of the first rule whose glob matches. -/
def DocumentProfiles.select (profiles : DocumentProfiles) (relative_path : String) :
    String × DocumentProfile :=
  ((profiles.rules.find? fun rule => patterns.glob relative_path rule.glob).map (·.profile)).getD
    profiles.default_profile

/-- The passage of a chunk. -/
def passage (graph_version fingerprint : String) (document : IndexableDocument)
    (profile : String × DocumentProfile) (chunk : Chunk) : SourcePassage where
  id := chunk.id
  document := document.relative_path
  article := chunk.article
  paragraph := chunk.paragraph
  text := chunk.text
  start_line := chunk.start_line
  end_line := chunk.end_line
  checksum := document.sha256
  graph_version := graph_version
  score := none
  media_type := document.media_type
  profile := profile.1
  processing_fingerprint := some fingerprint
  level := chunk.level
  parent_id := chunk.parent_id
  children_ids := chunk.children_ids
  token_count := chunk.token_count
  start_char := chunk.start_char
  end_char := chunk.end_char
  page_number := chunk.page_number
  section_path := chunk.section_path
  standalone := chunk.standalone
  auto_merge_threshold := profile.2.auto_merge_threshold

def document_passages (profiles : DocumentProfiles) (graph_version fingerprint : String)
    (document : IndexableDocument) : Except Failure (List SourcePassage) :=
  let profile := profiles.select patterns document.relative_path
  match build_chunks patterns encoding document.content document.relative_path document.sha256
      profile.2 with
  | .error message => .error (.value_error message)
  | .ok chunks => .ok (chunks.map (passage graph_version fingerprint document profile))

/-- `INSERT`, which fails on a taken primary key. -/
def insert_passage (rows : Table SourcePassage) (item : SourcePassage) :
    Except Failure (Table SourcePassage) :=
  match rows.get (item.id, item.graph_version) with
  | some _ => .error .integrity_error
  | none => .ok (rows.insert item)

/-- A passage without children. -/
def SourcePassage.is_leaf (item : SourcePassage) : Bool :=
  item.children_ids.isEmpty

def fts_row (item : SourcePassage) : FtsRow where
  text := item.text
  document := item.document
  article := item.article.getD ""
  passage_id := item.id
  graph_version := item.graph_version

/-- `rebuild_version`: the rows of a version are replaced in one transaction. -/
def rebuild_version (index : SourceIndex) (graph_version : String)
    (documents : List IndexableDocument) (profiles : DocumentProfiles) (fingerprint : String) :
    Except Failure SourceIndex := do
  let passages ← documents.mapM
    (document_passages patterns encoding profiles graph_version fingerprint)
  let passages := passages.flatten
  let kept := index.source_passages.delete (·.graph_version = graph_version)
  let rows ← passages.foldlM insert_passage kept
  pure
    { source_passages := rows
      source_passages_fts :=
        index.source_passages_fts.filter (·.graph_version ≠ graph_version) ++
          (passages.filter SourcePassage.is_leaf).map fts_row }

/-- The condition on the leaves of a version, in documents and, if any, in articles. -/
def in_scope (graph_version : String) (documents articles : List String)
    (item : SourcePassage) : Bool :=
  item.graph_version = graph_version && (item.document ∈ documents && (item.is_leaf &&
    (articles.isEmpty || item.article.any (· ∈ articles))))

/-- Ordered by document, then by place. -/
def precedes (a b : SourcePassage) : Bool :=
  a.document < b.document || (a.document = b.document && a.start_char ≤ b.start_char)

def scoped_passages (index : SourceIndex) (graph_version : String)
    (documents articles : List String) (limit : Nat) : List SourcePassage :=
  if documents = [] then []
  else
    (sorted.sortBy precedes (index.source_passages.rows.filter
      (in_scope graph_version documents articles))).take limit

/-- The passage of a row of the full-text table, with its rank, when it matches. -/
def matched (index : SourceIndex) (tokens : List String) (row : FtsRow) :
    Option (Rat × SourcePassage) :=
  match full_text.bm25 index.source_passages_fts tokens row,
      index.source_passages.get (row.passage_id, row.graph_version) with
  | some rank, some item => some (rank, { item with score := some (-rank) })
  | _, _ => none

def search (index : SourceIndex) (query graph_version : String) (documents articles : List String)
    (limit : Nat) : List SourcePassage :=
  let tokens := full_text.tokens query
  if tokens = [] then scoped_passages index graph_version documents articles limit
  else if documents = [] then []
  else
    let found := (index.source_passages_fts.filterMap
      (matched full_text index (tokens.take 32))).filter fun item =>
        in_scope graph_version documents articles item.2
    ((sorted.sortBy (fun a b => a.1 ≤ b.1) found).map (·.2)).take limit

/-- The rows of a version under some identifiers that have children. -/
def parents (index : SourceIndex) (graph_version : String) (parent_ids : List String) :
    List SourcePassage :=
  index.source_passages.rows.filter fun item =>
    item.graph_version = graph_version && (item.id ∈ parent_ids && !item.is_leaf)

end lagraph.retrieval
