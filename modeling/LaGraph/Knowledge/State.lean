import LaGraph.Foundation.Json
import LaGraph.Foundation.Locked
import LaGraph.Foundation.Text
import Mathlib.Logic.Function.Basic

open foundation

namespace lagraph.knowledge.state

/-- Text with a least and a greatest number of characters. -/
structure Limited (least most : Nat) where
  text : String
  least_le : least ≤ text.length
  le_most : text.length ≤ most
  deriving DecidableEq, Repr

/-- A date and time in microseconds, with its distance from UTC where it has one. -/
structure Moment where
  wall_clock : Int
  utc_offset : Option Int
  deriving DecidableEq, Repr

/-- `==` of two `datetime`: aware ones are equal when they are the same instant. -/
def Moment.same (a b : Moment) : Bool :=
  match a.utc_offset, b.utc_offset with
  | none, none => a.wall_clock = b.wall_clock
  | some x, some y => a.wall_clock - x = b.wall_clock - y
  | _, _ => false

structure GraphifyFormat where
  artifact_type : String
  artifact_type_eq : artifact_type = "graph.json"
  producer_version : String
  producer_version_pos : 1 ≤ producer_version.length
  format_version : Option String
  deriving DecidableEq, Repr

/-- `SAFE_RELATIVE_PATH`, relative and without a way up. -/
def safe_relative_path (path : String) : Bool :=
  path ≠ "" && (path.toList.all fun c => c.isAlphanum || c ∈ ['.', '_', '/', '-']) &&
    path.toList.head? ≠ some '/' && ".." ∉ text.segments '/' path

def is_sha256 (digest : String) : Bool :=
  digest.length = 64 && digest.toList.all fun c => c.isDigit || ('a' ≤ c && c ≤ 'f')

structure ArtifactDescriptor where
  relative_path : String
  sha256 : String
  bytes : Nat
  safe : safe_relative_path relative_path = true
  digest : is_sha256 sha256 = true
  bytes_pos : 0 < bytes
  deriving DecidableEq, Repr

structure BuildCounts where
  nodes : Nat
  edges : Nat
  sources : Nat
  deriving DecidableEq, Repr

/-- A manifest, schema version 1.0, of status `validated`. -/
structure GraphBuildManifest where
  project_id : Limited 1 128
  graph_version : Limited 1 128
  source_version : Limited 1 256
  created_at : Moment
  graphify_format : GraphifyFormat
  artifact : ArtifactDescriptor
  counts : BuildCounts
  warnings : List String
  warnings_le : warnings.length ≤ 100
  deriving DecidableEq, Repr

/-- The pointer to the active graph, schema version 1.0. -/
structure ActivePointer where
  project_id : Limited 1 128
  graph_version : Limited 1 128
  previous_graph_version : Option (Limited 1 128)
  generation : Nat
  generation_pos : 1 ≤ generation
  activated_at : Moment
  activated_by : Limited 1 256
  reason : Option (Limited 0 1000)
  deriving DecidableEq, Repr

/-- `==` of two manifests. -/
def GraphBuildManifest.same (a b : GraphBuildManifest) : Bool :=
  a.project_id = b.project_id && a.graph_version = b.graph_version &&
    a.source_version = b.source_version && a.created_at.same b.created_at &&
    a.graphify_format = b.graphify_format && a.artifact = b.artifact && a.counts = b.counts &&
    a.warnings = b.warnings

section Encoding

-- The text of a date and time.
variable (isoformat : Moment → String)

/-- The stored text: compact, keys in order. -/
def GraphBuildManifest.encode (value : GraphBuildManifest) : String :=
  json.object
    [("artifact", json.object
       [("bytes", toString value.artifact.bytes),
        ("relativePath", json.str value.artifact.relative_path),
        ("sha256", json.str value.artifact.sha256)]),
     ("counts", json.object
       [("edges", toString value.counts.edges), ("nodes", toString value.counts.nodes),
        ("sources", toString value.counts.sources)]),
     ("createdAt", json.str (isoformat value.created_at)),
     ("graphVersion", json.str value.graph_version.text),
     ("graphifyFormat", json.object
       [("artifactType", json.str value.graphify_format.artifact_type),
        ("formatVersion", json.optional value.graphify_format.format_version),
        ("producerVersion", json.str value.graphify_format.producer_version)]),
     ("projectId", json.str value.project_id.text), ("schemaVersion", json.str "1.0"),
     ("sourceVersion", json.str value.source_version.text), ("status", json.str "validated"),
     ("warnings", json.array (value.warnings.map json.str))]

def ActivePointer.encode (value : ActivePointer) : String :=
  json.object
    [("activatedAt", json.str (isoformat value.activated_at)),
     ("activatedBy", json.str value.activated_by.text),
     ("generation", toString value.generation),
     ("graphVersion", json.str value.graph_version.text),
     ("previousGraphVersion", json.optional (value.previous_graph_version.map (·.text))),
     ("projectId", json.str value.project_id.text),
     ("reason", json.optional (value.reason.map (·.text))), ("schemaVersion", json.str "1.0")]

end Encoding

inductive StateError
  | ImmutableManifestError (message : String)
  | GenerationConflictError (message : String)
  | ValueError (message : String)
  | FileNotFoundError
  /-- Whatever else the operating system refuses. -/
  | OSError
  deriving DecidableEq, Repr

/-- The part of the file system that the repository reads and writes. Paths are the
names from the top; a manifest is kept under its directory. -/
structure Files where
  directories : List (List String)
  manifests : List String → Option GraphBuildManifest
  active : Option ActivePointer

/-- `manifest.json` in a directory. -/
def manifest_path (directory : List String) : List String :=
  directory ++ ["manifest.json"]

/-- The directory that names lead to, if every directory on the way is there. -/
def Files.walk (files : Files) (base : List String) : List String → Option (List String)
  | [] => some base
  | name :: names =>
    if name = ".." then files.walk base.dropLast names
    else if base ++ [name] ∈ files.directories then files.walk (base ++ [name]) names
    else none

/-- Where names lead once every directory on the way is there. -/
def resolve (base : List String) : List String → List String
  | [] => base
  | name :: names =>
    if name = ".." then resolve base.dropLast names else resolve (base ++ [name]) names

section Repository

-- The project's directory.
variable (root : List String)

def active_path : List String :=
  root ++ ["active.json"]

def lock_path : List String :=
  root ++ [".state.lock"]

/-- `versions / graph_version`: where the path starts and the names in it. -/
def version_path (graph_version : String) : List String × List String :=
  let names := (text.segments '/' graph_version).filter fun name => name ≠ "" ∧ name ≠ "."
  if text.startsWith graph_version "/" then ([], names) else (root, "versions" :: names)

/-- A file that is no directory. -/
def Files.is_file (files : Files) (path : List String) : Bool :=
  (path = active_path root && files.active.isSome) || path = lock_path root ||
    (path.getLast? = some "manifest.json" && (files.manifests path.dropLast).isSome)

/-- The directory of a version's manifest. -/
def Files.version_directory (files : Files) (graph_version : String) : Option (List String) :=
  files.walk (version_path root graph_version).1 (version_path root graph_version).2

/-- Where a version's manifest is kept. -/
def version_location (graph_version : String) : List String :=
  resolve (version_path root graph_version).1 (version_path root graph_version).2

/-- `target.exists()`. -/
def Files.target_exists (files : Files) (graph_version : String) : Bool :=
  match files.version_directory root graph_version with
  | some directory =>
    (files.manifests directory).isSome || manifest_path directory ∈ files.directories
  | none => false

/-- `_read_regular` reads no more than a mebibyte. -/
def readable (stored : String) : Bool :=
  stored.utf8ByteSize ≤ 1024 * 1024

def has_null (path : String) : Bool :=
  path.toList.any fun c => c.toNat = 0

variable (isoformat : Moment → String)

/-- `load_manifest`. -/
def Files.load_manifest (files : Files) (graph_version : String) :
    Except StateError GraphBuildManifest :=
  if has_null graph_version then .error (.ValueError "embedded null byte")
  else
    match files.version_directory root graph_version with
    | none => .error .FileNotFoundError
    | some directory =>
      match files.manifests directory with
      | some value =>
        if readable (value.encode isoformat) then .ok value
        else .error (.ValueError "Knowledge state file is invalid")
      | none =>
        if manifest_path directory ∈ files.directories then
          .error (.ValueError "Knowledge state file is invalid")
        else .error .FileNotFoundError

/-- `load_active`. -/
def Files.load_active (files : Files) : Except StateError (Option ActivePointer) :=
  if active_path root ∈ files.directories then
    .error (.ValueError "Knowledge state file is invalid")
  else
    match files.active with
    | none => .ok none
    | some pointer =>
      if readable (pointer.encode isoformat) then .ok (some pointer)
      else .error (.ValueError "Knowledge state file is invalid")

/-- `mkdir(parents=True, exist_ok=True)`, one directory after the other. -/
def make_directories (base : List String) :
    List String → Program Files StateError (List String)
  | [] => pure base
  | name :: names =>
    if name = ".." then make_directories base.dropLast names
    else do
      let occupied ← Program.observe fun files : Files => files.is_file root (base ++ [name])
      Program.raiseIf (occupied = true) .OSError
      Program.change fun files =>
        { files with directories := (base ++ [name]) :: files.directories }
      make_directories (base ++ [name]) names

/-- `_atomic_write` of a manifest. The temporary file is nobody else's; the rename
is what others see. -/
def write_manifest (value : GraphBuildManifest) : Program Files StateError Unit := do
  let graph_version := value.graph_version.text
  Program.raiseIf (has_null graph_version = true) (.ValueError "embedded null byte")
  let directory ← make_directories root (version_path root graph_version).1
    (version_path root graph_version).2
  let blocked ← Program.observe fun files : Files =>
    files.directories.contains (manifest_path directory)
  Program.raiseIf (blocked = true) .OSError
  Program.change fun files =>
    { files with manifests := Function.update files.manifests directory (some value) }

/-- The path of a version's manifest, as it is spelled. -/
def target (graph_version : String) : List String :=
  manifest_path ((version_path root graph_version).1 ++ (version_path root graph_version).2)

/-- `save_manifest` while the lock is held. -/
def save_manifest (value : GraphBuildManifest) :
    Program Files StateError (Option (List String)) := do
  let graph_version := value.graph_version.text
  let present ← Program.observe fun files : Files => files.target_exists root graph_version
  if present then
    let loaded ← Program.observe fun files : Files =>
      files.load_manifest root isoformat graph_version
    let current ← Program.ofExcept loaded
    Program.raiseIf (¬ current.same value = true)
      (.ImmutableManifestError "Published graph manifest cannot be changed")
    pure (some (target root graph_version))
  else
    write_manifest root value
    pure (some (target root graph_version))

/-- `compare_and_set_active` while the lock is held. -/
def compare_and_set_active (pointer : ActivePointer) (expected_generation : Int) :
    Program Files StateError (Option (List String)) := do
  let loaded ← Program.observe fun files : Files => files.load_active root isoformat
  let current ← Program.ofExcept loaded
  let generation := current.elim 0 fun active => (active.generation : Int)
  Program.raiseIf (generation ≠ expected_generation)
    (.GenerationConflictError "Active graph generation changed")
  Program.raiseIf ((pointer.generation : Int) ≠ expected_generation + 1)
    (.GenerationConflictError "Next active graph generation must increment by one")
  let loaded ← Program.observe fun files : Files =>
    files.load_manifest root isoformat pointer.graph_version.text
  let manifest ← Program.ofExcept loaded
  Program.raiseIf (manifest.project_id ≠ pointer.project_id)
    (.ValueError "Active pointer project does not match manifest")
  let blocked ← Program.observe fun files : Files => files.directories.contains (active_path root)
  Program.raiseIf (blocked = true) .OSError
  Program.change fun files => { files with active := some pointer }
  pure none

/-- A writer's call. -/
inductive Call
  | save_manifest (value : GraphBuildManifest)
  | compare_and_set_active (pointer : ActivePointer) (expected_generation : Int)

def Call.body : Call → Program Files StateError (Option (List String))
  | .save_manifest value => state.save_manifest root isoformat value
  | .compare_and_set_active pointer expected_generation =>
    state.compare_and_set_active root isoformat pointer expected_generation

end Repository

/-- The repository and the calls of its writers. -/
abbrev Repository : Type :=
  Guarded Files StateError (Option (List String)) Call

/-- What a writer's call does next; the operating system's own failures are
`OSError`. -/
def Repository.step (root : List String) (isoformat : Moment → String) (s : Repository)
    (e : LockEvent Call) : Option Repository :=
  Guarded.step (Call.body root isoformat) .OSError s e

end lagraph.knowledge.state
