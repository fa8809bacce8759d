import LaGraph.Foundation.SortedSets
import Mathlib.Data.String.Basic
import Mathlib.Data.List.Basic

open foundation

namespace lagraph.retrieval

/-- A passage of a document in the source index. -/
structure SourcePassage where
  id : String
  document : String
  article : Option String
  paragraph : Option String
  text : String
  start_line : Nat
  end_line : Nat
  checksum : String
  graph_version : String
  score : Option Rat
  media_type : String
  profile : String
  processing_fingerprint : Option String
  level : Nat
  parent_id : Option String
  children_ids : List String
  token_count : Nat
  start_char : Nat
  end_char : Nat
  page_number : Option Nat
  section_path : List String
  standalone : Bool
  auto_merge_threshold : Rat
  deriving DecidableEq, Repr

/-- The documents and articles that retrieval is restricted to. -/
structure RetrievalScope where
  documents : List String
  articles : List String
  deriving DecidableEq, Repr

inductive Boundary
  | page | markdown_heading | legal_article
  deriving DecidableEq, Repr

/-- The validated sizes of a profile. -/
structure DocumentProfile where
  hard_boundaries : List Boundary
  leaf_tokens : Nat
  parent_tokens : Nat
  overlap_tokens : Nat
  auto_merge_threshold : Rat
  leaf_lt_parent : leaf_tokens < parent_tokens
  overlap_lt_leaf : overlap_tokens < leaf_tokens

/-- Where a block that is too long may be cut, in the order of preference. -/
inductive Separator
  | paragraphs | sentences | lines | words
  deriving DecidableEq, Repr

/-- The matches of the patterns in a text or a line of it. -/
structure Patterns where
  is_space : Char → Bool
  /-- The depth and the title of a Markdown heading. -/
  heading : List Char → Option (Nat × String)
  /-- The number of the article that a line names, in upper case. -/
  article : List Char → Option String
  marker : List Char → Option String
  /-- Where each match of a separator ends. -/
  separator_ends : Separator → List Char → List Nat
  /-- A path matches a glob. -/
  glob : String → String → Bool

/-- The tokenizer and the digest that chunks are cut and named by. -/
structure Encoding where
  encode : List Char → List Nat
  decode_with_offsets : List Nat → List Char × List Nat
  sha256 : String → String

structure StructuralBlock where
  start : Nat
  stop : Nat
  page_number : Option Nat
  section_path : List String
  article : Option String
  deriving DecidableEq, Repr

structure Chunk where
  id : String
  text : String
  level : Nat
  parent_id : Option String
  children_ids : List String
  token_count : Nat
  start_char : Nat
  end_char : Nat
  start_line : Nat
  end_line : Nat
  page_number : Option Nat
  section_path : List String
  article : Option String
  paragraph : Option String
  standalone : Bool
  deriving DecidableEq, Repr

/-- `text[start:stop]`. -/
def slice (value : List Char) (start stop : Nat) : List Char :=
  (value.take stop).drop start

def is_line_break (c : Char) : Bool :=
  c ∈ ['\n', '\r', '\x0b', '\x0c', '\x1c', '\x1d', '\x1e', '\x85', '\u2028', '\u2029']

/-- `splitlines(keepends=True)`; the line read so far comes reversed. -/
def split_lines : List Char → List Char → List (List Char)
  | [], [] => []
  | [], line => [line.reverse]
  | '\r' :: '\n' :: rest, line => ('\n' :: '\r' :: line).reverse :: split_lines rest []
  | c :: rest, line =>
    if is_line_break c then (c :: line).reverse :: split_lines rest []
    else split_lines rest (c :: line)

/-- What starts a block in the text. -/
inductive Event
  | page
  | heading (depth : Nat) (title : String)
  | article (number : String)
  deriving DecidableEq, Repr

variable (patterns : Patterns) (encoding : Encoding)

/-- The page breaks, each behind its form feed. -/
def page_events (value : List Char) : List (Nat × Event) :=
  (value.zipIdx 1).filterMap fun item => if item.1 = '\x0c' then some (item.2, .page) else none

/-- The headings and articles at the start of their lines. -/
def line_events (boundaries : List Boundary) : Nat → List (List Char) → List (Nat × Event)
  | _, [] => []
  | position, line :: rest =>
    let value := (line.reverse.dropWhile (· ∈ ['\n', '\r', '\x0c'])).reverse
    let headings := if .markdown_heading ∈ boundaries then
        (patterns.heading value).toList.map fun found => (position, Event.heading found.1 found.2)
      else []
    let articles := if .legal_article ∈ boundaries then
        (patterns.article value).toList.map fun number => (position, Event.article number)
      else []
    headings ++ articles ++ line_events boundaries (position + line.length) rest

def is_blank (value : List Char) : Bool :=
  value.all patterns.is_space

/-- The loop over the events of a text. -/
structure BlockState where
  page : Nat
  headings : List String
  article : Option String
  start : Nat
  blocks : List StructuralBlock

/-- `flush`: the text up to a position becomes a block, unless it is blank. -/
def BlockState.flush (value : List Char) (boundaries : List Boundary) (state : BlockState)
    (stop : Nat) : BlockState :=
  { state with
    start := stop
    blocks :=
      if state.start < stop ∧ ¬ is_blank patterns (slice value state.start stop) then
        state.blocks ++
          [{ start := state.start
             stop
             page_number := if .page ∈ boundaries then some state.page else none
             section_path := state.headings
             article := state.article }]
      else state.blocks }

def BlockState.apply (state : BlockState) : Event → BlockState
  | .page => { state with page := state.page + 1, article := none }
  | .heading depth title => { state with headings := state.headings.take (depth - 1) ++ [title] }
  | .article number => { state with article := some number }

/-- `_structural_blocks`. -/
def structural_blocks (value : List Char) (profile : DocumentProfile) : List StructuralBlock :=
  let boundaries := profile.hard_boundaries
  let events := (if .page ∈ boundaries then page_events value else []) ++
    line_events patterns boundaries 0 (split_lines value [])
  let positions := sorted.ofList (events.map (·.1))
  let state := positions.foldl
    (fun state position =>
      ((events.filter (·.1 = position)).map (·.2)).foldl BlockState.apply
        (state.flush patterns value boundaries position))
    ⟨1, [], none, 0, []⟩
  (state.flush patterns value boundaries value.length).blocks

/-- `_split_preserving`: the pieces of a range between the ends of a separator. -/
def split_preserving (value : List Char) (range : Nat × Nat) (separator : Separator) :
    List (Nat × Nat) :=
  let ends := patterns.separator_ends separator (slice value range.1 range.2)
  let points := range.1 :: ends.map (range.1 + ·) ++ [range.2]
  (points.zip points.tail).filter fun piece => piece.1 < piece.2

def tokens_in (value : List Char) (range : Nat × Nat) : Nat :=
  (encoding.encode (slice value range.1 range.2)).length

/-- `_pack_ranges`: neighbouring pieces as long as they stay within the limit. -/
def pack_ranges (value : List Char) (limit : Nat) :
    Option (Nat × Nat) → List (Nat × Nat) → List (Nat × Nat)
  | current, [] => current.toList
  | none, piece :: rest => pack_ranges value limit (some piece) rest
  | some current, piece :: rest =>
    if limit < tokens_in encoding value (current.1, piece.2) then
      current :: pack_ranges value limit (some piece) rest
    else pack_ranges value limit (some (current.1, piece.2)) rest

/-- The windows from a token on, a step apart, until one reaches the last token. -/
def windows_from (value : List Char) (offsets : List Nat) (total limit step base : Nat) :
    Nat → Nat → List (Nat × Nat)
  | 0, _ => []
  | rounds + 1, token_start =>
    if total ≤ token_start then []
    else
      let token_end := min (token_start + limit) total
      let window := (base + offsets.getD token_start 0, base + offsets.getD token_end value.length)
      if token_end = total then [window]
      else window :: windows_from value offsets total limit step base rounds (token_start + step)

/-- `_token_windows`. -/
def token_windows (value : List Char) (limit overlap base : Nat) :
    Except String (List (Nat × Nat)) :=
  let tokens := encoding.encode value
  if tokens = [] then .ok []
  else
    let (decoded, offsets) := encoding.decode_with_offsets tokens
    if decoded ≠ value then
      .error "Tokenizer offset decoding did not preserve source text"
    else
      .ok (windows_from value offsets tokens.length limit (limit - overlap) base tokens.length 0)

/-- `_bounded_ranges`. -/
def bounded_ranges (value : List Char) (limit : Nat) : Except String (List (Nat × Nat)) := do
  let ranges := [.paragraphs, .sentences, .lines, .words].foldl
    (fun ranges separator => ranges.flatMap fun range =>
      if tokens_in encoding value range ≤ limit then [range]
      else pack_ranges encoding value limit none (split_preserving patterns value range separator))
    [(0, value.length)]
  let output ← ranges.mapM fun range =>
    if tokens_in encoding value range ≤ limit then .ok [range]
    else token_windows encoding (slice value range.1 range.2) limit 0 range.1
  pure (output.flatten.filter fun range => !is_blank patterns (slice value range.1 range.2))

/-- `_identity`. -/
def identity (document checksum : String) (start stop : Nat) (kind : String) : String :=
  let sep := "\x00"
  String.ofList ((encoding.sha256 (document ++ sep ++ checksum ++ sep ++ toString start ++ sep ++
    toString stop ++ sep ++ kind)).toList.take 24)

/-- `_chunk`; without an identifier of its own, one from its place in the document. -/
def chunk (value : List Char) (document checksum : String) (block : StructuralBlock)
    (start stop level : Nat) (parent_id : Option String) (children_ids : List String)
    (standalone : Bool) (forced_id : Option String) : Chunk where
  id := forced_id.getD
    ("source:" ++ identity encoding document checksum start stop ("leaf-" ++ toString level))
  text := String.ofList (slice value start stop)
  level := level
  parent_id := parent_id
  children_ids := children_ids
  token_count := tokens_in encoding value (start, stop)
  start_char := start
  end_char := stop
  start_line := (value.take start).count '\n' + 1
  end_line := (value.take (max start (stop - 1))).count '\n' + 1
  page_number := block.page_number
  section_path := block.section_path
  article := block.article
  paragraph := patterns.marker (slice value start stop)
  standalone := standalone

/-- A parent with its leaves, for a range of a block. -/
def family (value : List Char) (document checksum : String) (profile : DocumentProfile)
    (block : StructuralBlock) (range : Nat × Nat) : Except String (List Chunk) := do
  let start := block.start + range.1
  let stop := block.start + range.2
  let leaf_ranges ← token_windows encoding (slice value start stop) profile.leaf_tokens
    profile.overlap_tokens 0
  let parent_id := "source:" ++ identity encoding document checksum start stop "parent"
  let leaves := leaf_ranges.map fun leaf =>
    chunk patterns encoding value document checksum block (start + leaf.1) (start + leaf.2) 1
      (some parent_id) [] false none
  let parent := chunk patterns encoding value document checksum block start stop 0 none
    (leaves.map (·.id)) false (some parent_id)
  pure (parent :: leaves)

/-- The chunks of a block: itself when it is short, else families over its ranges. -/
def block_chunks (value : List Char) (document checksum : String) (profile : DocumentProfile)
    (block : StructuralBlock) : Except String (List Chunk) :=
  let block_text := slice value block.start block.stop
  if is_blank patterns block_text then .ok []
  else if (encoding.encode block_text).length ≤ profile.leaf_tokens then
    .ok [chunk patterns encoding value document checksum block block.start block.stop 0 none []
      true none]
  else do
    let ranges ← bounded_ranges patterns encoding block_text profile.parent_tokens
    let families ← ranges.mapM (family patterns encoding value document checksum profile block)
    pure families.flatten

def build_chunks (content document checksum : String) (profile : DocumentProfile) :
    Except String (List Chunk) := do
  let value := content.toList
  let chunks ← (structural_blocks patterns value profile).mapM
    (block_chunks patterns encoding value document checksum profile)
  pure chunks.flatten

end lagraph.retrieval
