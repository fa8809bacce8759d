import LaGraph.Knowledge.Manifest

namespace lagraph.knowledge

/-- A `graph.json` as validation sees it. `nodes` and `edges` are the lengths of
the lists of that name; `none` where the value is not a list. -/
inductive GraphFile
  | missing
  | symlink
  | malformed
  | not_object
  | object (nodes edges : Option Nat)
  deriving DecidableEq, Repr

/-- What an ingestion or a rollback can raise. -/
inductive Failure
  | RuntimeError (message : String)
  | OSError
  | FileExistsError
  | FileNotFoundError
  | JSONDecodeError
  deriving DecidableEq, Repr

/-- `_validate_graph`. -/
def validate_graph : GraphFile → Except Failure (Nat × Nat)
  | .missing => .error (.RuntimeError "graph_artifact_missing")
  | .symlink => .error (.RuntimeError "graph_artifact_missing")
  | .malformed => .error .JSONDecodeError
  | .not_object => .error (.RuntimeError "graph_artifact_invalid")
  | .object (some nodes) (some edges) =>
    if nodes = 0 then .error (.RuntimeError "graph_artifact_invalid") else .ok (nodes, edges)
  | .object _ _ => .error (.RuntimeError "graph_artifact_invalid")

/-- What a graph version was built from. -/
structure Origin where
  source_version : String
  graphify_version : String
  processing_fingerprint : String
  deriving DecidableEq, Repr

/-- A directory of `versions/`. Its origin is recorded for reasoning only. -/
structure GraphVersion where
  name : String
  graph : GraphFile
  origin : Origin
  deriving DecidableEq, Repr

/-- The entry `active` of the graph directory; a link has the parts of its
target path. -/
inductive ActiveEntry
  | absent
  | link (parts : List String)
  | occupied
  deriving DecidableEq, Repr

/-- The rows of the source index for one graph version. The source version they
were built from is recorded for reasoning only. -/
structure IndexedVersion where
  graph_version : String
  processing_fingerprint : String
  passages : Nat
  source_version : String
  deriving DecidableEq, Repr

/-- The knowledge directories. -/
structure World where
  versions : List GraphVersion
  active : ActiveEntry
  stored_manifest : Option Manifest
  index : List IndexedVersion
  staging : List String
  failed : List String

/-- A fresh installation. -/
def World.empty : World where
  versions := []
  active := .absent
  stored_manifest := none
  index := []
  staging := []
  failed := []

/-- The stored manifest, unless it exceeds one mebibyte. -/
def manifest (w : World) : Option Manifest :=
  w.stored_manifest.filter fun value => value.encode.utf8ByteSize ≤ 1024 * 1024

def version_named (w : World) (name : String) : Option GraphVersion :=
  w.versions.find? (·.name = name)

/-- `[A-Za-z0-9][A-Za-z0-9._-]{0,127}`. -/
def valid_version_name (name : String) : Bool :=
  match name.toList with
  | [] => false
  | c :: rest => c.isAlphanum && rest.length ≤ 127 &&
      rest.all fun c => c.isAlphanum || c = '.' || c = '_' || c = '-'

/-- `_active_target`: the parts of the link when it leads to a valid version. -/
def active_target (w : World) : Option (List String) :=
  match w.active with
  | .link ["versions", name] =>
    if valid_version_name name then
      match version_named w name with
      | some version =>
        match validate_graph version.graph with
        | .ok _ => some ["versions", name]
        | .error _ => none
      | none => none
    else none
  | _ => none

def has_valid_active_graph (w : World) : Bool :=
  (active_target w).isSome

/-- `SourceIndex.has_version`. -/
def has_version (w : World) (graph_version processing_fingerprint : String) : Bool :=
  w.index.any fun rows => rows.graph_version = graph_version &&
    rows.processing_fingerprint = processing_fingerprint && 0 < rows.passages

/-- `SourceIndex.rebuild_version`: one transaction replaces the version's rows. -/
def rebuild_version (w : World) (rows : IndexedVersion) : World :=
  { w with index := rows :: w.index.filter (·.graph_version ≠ rows.graph_version) }

/-- The names that pruning removes, newest first: all but the first `keep` in
descending order. -/
def pruned_names (names : List String) (keep : Nat) : List String :=
  (foundation.sorted.ofList names).reverse.drop keep

theorem valid_version_name_ne_empty {name : String} (h : valid_version_name name = true) :
    name ≠ "" := by
  rintro rfl
  cases h

theorem stored_of_manifest {w : World} {value : Manifest} (h : manifest w = some value) :
    w.stored_manifest = some value :=
  (Option.filter_eq_some_iff.mp h).1

theorem active_target_some {w : World} {parts : List String} (h : active_target w = some parts) :
    ∃ version, parts = ["versions", version] ∧ w.active = .link ["versions", version] ∧
      valid_version_name version = true ∧ ∃ entry counts, version_named w version = some entry ∧
        validate_graph entry.graph = .ok counts := by
  unfold active_target at h
  split at h
  · rename_i version hactive
    split at h
    · rename_i hname
      split at h
      · rename_i entry hentry
        split at h
        · rename_i counts hvalid
          cases h
          exact ⟨version, rfl, hactive, hname, entry, counts, hentry, hvalid⟩
        · cases h
      · cases h
    · cases h
  · cases h

theorem active_target_of_valid {w : World} {version : String} {entry : GraphVersion}
    {counts : Nat × Nat} (hactive : w.active = .link ["versions", version])
    (hname : valid_version_name version = true) (hentry : version_named w version = some entry)
    (hvalid : validate_graph entry.graph = .ok counts) :
    active_target w = some ["versions", version] := by
  unfold active_target
  simp [hactive, hname, hentry, hvalid]

end lagraph.knowledge
