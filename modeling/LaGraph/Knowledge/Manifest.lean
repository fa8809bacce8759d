import LaGraph.Foundation.Json
import LaGraph.Foundation.SortedSets

open foundation

namespace lagraph.knowledge

/-- The settings an ingestion reads. -/
structure Settings where
  graphify_package_version : String
  knowledge_processing_fingerprint : String
  /-- The name of the profile `document_profiles` selects for a path. -/
  profile_of : String → String
  knowledge_graph_versions_to_keep : Nat
  keep_ge : 2 ≤ knowledge_graph_versions_to_keep
  keep_le : knowledge_graph_versions_to_keep ≤ 20

/-- A source document as the manifest describes it. -/
structure KnowledgeDocument where
  relative_path : String
  sha256 : String
  bytes : Nat
  modified_at : String
  media_type : String
  deriving DecidableEq, Repr

structure KnowledgeSnapshot where
  source_version : String
  documents : List KnowledgeDocument
  deriving DecidableEq, Repr

/-- Classified paths. Each group is sorted without repetitions, and no path is in
two of them. -/
structure KnowledgeChangeSet where
  added : List String
  changed : List String
  unchanged : List String
  removed : List String
  sorted_unique : ∀ group ∈ [added, changed, unchanged, removed], group.Pairwise (· < ·)
  disjoint : [added, changed, unchanged, removed].Pairwise List.Disjoint

/-- `KnowledgeChangeSet()`. -/
def KnowledgeChangeSet.empty : KnowledgeChangeSet where
  added := []
  changed := []
  unchanged := []
  removed := []
  sorted_unique := by simp
  disjoint := by simp

structure DocumentEntry where
  relativePath : String
  sha256 : String
  sizeBytes : Nat
  modifiedAt : String
  mediaType : String
  profile : String
  deriving DecidableEq, Repr

inductive IngestionStatus
  | running | completed | failed
  deriving DecidableEq, Repr

def IngestionStatus.name : IngestionStatus → String
  | .running => "running"
  | .completed => "completed"
  | .failed => "failed"

structure LastIngestion where
  ingestionId : String
  status : IngestionStatus
  startedAt : String
  completedAt : Option String
  errorCode : Option String
  deriving DecidableEq, Repr

/-- The ingestion manifest, schema version 1. `processingFingerprint` is `none`
where the key is absent. -/
structure Manifest where
  sourceVersion : Option String
  activeGraphVersion : Option String
  previousGraphVersion : Option String
  graphifyVersion : String
  processingFingerprint : Option String
  generatedAt : Option String
  documents : List DocumentEntry
  changes : KnowledgeChangeSet
  lastIngestion : LastIngestion

def KnowledgeChangeSet.encode (changes : KnowledgeChangeSet) : String :=
  let paths (group : List String) := json.array (group.map json.str)
  json.object
    [("added", paths changes.added), ("changed", paths changes.changed),
     ("unchanged", paths changes.unchanged), ("removed", paths changes.removed)]

def DocumentEntry.encode (document : DocumentEntry) : String :=
  json.object
    [("relativePath", json.str document.relativePath), ("sha256", json.str document.sha256),
     ("sizeBytes", toString document.sizeBytes), ("modifiedAt", json.str document.modifiedAt),
     ("mediaType", json.str document.mediaType), ("profile", json.str document.profile)]

def LastIngestion.encode (last : LastIngestion) : String :=
  json.object
    [("ingestionId", json.str last.ingestionId), ("status", json.str last.status.name),
     ("startedAt", json.str last.startedAt), ("completedAt", json.optional last.completedAt),
     ("errorCode", json.optional last.errorCode)]

/-- The stored text, compact and without escapes of non-ASCII characters. -/
def Manifest.encode (value : Manifest) : String :=
  json.object
    ([("schemaVersion", "1"), ("sourceVersion", json.optional value.sourceVersion),
      ("activeGraphVersion", json.optional value.activeGraphVersion),
      ("previousGraphVersion", json.optional value.previousGraphVersion),
      ("graphifyVersion", json.str value.graphifyVersion)] ++
     (value.processingFingerprint.map fun fingerprint =>
        ("processingFingerprint", json.str fingerprint)).toList ++
     [("generatedAt", json.optional value.generatedAt),
      ("documents", json.array (value.documents.map DocumentEntry.encode)),
      ("changes", value.changes.encode), ("lastIngestion", value.lastIngestion.encode)])

/-- `{path: sha256}`; a later entry replaces an earlier one. -/
def lookup_sha (entries : List (String × String)) (path : String) : Option String :=
  entries.reverse.lookup path

/-- `_change_set`. -/
def change_set (snapshot : KnowledgeSnapshot) (old : Option Manifest) : KnowledgeChangeSet :=
  let previous := (old.elim [] (·.documents)).map fun item => (item.relativePath, item.sha256)
  let current := snapshot.documents.map fun item => (item.relative_path, item.sha256)
  let previous_paths := previous.map (·.1)
  let current_paths := current.map (·.1)
  let shared := current_paths.filter (· ∈ previous_paths)
  { added := sorted.ofList (current_paths.filter (· ∉ previous_paths)),
    changed := sorted.ofList
      (shared.filter fun path => lookup_sha current path ≠ lookup_sha previous path),
    unchanged := sorted.ofList
      (shared.filter fun path => lookup_sha current path = lookup_sha previous path),
    removed := sorted.ofList (previous_paths.filter (· ∉ current_paths)),
    sorted_unique := by
      simp only [List.forall_mem_cons, List.not_mem_nil, false_implies, implies_true, and_true]
      exact ⟨sorted.ofList_increasing _, sorted.ofList_increasing _, sorted.ofList_increasing _,
        sorted.ofList_increasing _⟩,
    disjoint := by
      simp only [List.pairwise_cons, List.mem_cons, List.not_mem_nil, or_false, forall_eq_or_imp,
        forall_eq, List.Disjoint, sorted.mem_ofList, List.mem_filter, decide_eq_true_eq]
      grind }

/-- `value or fallback`: an empty string counts as absent. -/
def python_or (value fallback : Option String) : Option String :=
  match value with
  | some text => if text = "" then fallback else some text
  | none => fallback

/-- `_manifest`. -/
def manifest_of (settings : Settings) (snapshot : KnowledgeSnapshot) (ingestion_id : String)
    (status : IngestionStatus) (started : String) (completed error : Option String)
    (old : Option Manifest) (active_version : Option String) : Manifest :=
  let previous := old.bind (·.activeGraphVersion)
  let given := python_or active_version none
  { sourceVersion := some snapshot.source_version,
    activeGraphVersion := python_or active_version previous,
    previousGraphVersion :=
      if given.isSome then previous else old.bind (·.previousGraphVersion),
    graphifyVersion := settings.graphify_package_version,
    processingFingerprint := some settings.knowledge_processing_fingerprint,
    generatedAt := if given.isSome ∧ completed.isSome then completed
      else old.bind (·.generatedAt),
    documents := snapshot.documents.map fun item =>
      { relativePath := item.relative_path, sha256 := item.sha256, sizeBytes := item.bytes,
        modifiedAt := item.modified_at, mediaType := item.media_type,
        profile := settings.profile_of item.relative_path },
    changes := change_set snapshot old,
    lastIngestion :=
      { ingestionId := ingestion_id, status, startedAt := started, completedAt := completed,
        errorCode := error } }

/-- Why the sources could not be loaded, by the class of the exception. -/
inductive SourceFailure
  | limit | invalid | other
  deriving DecidableEq, Repr

def SourceFailure.code : SourceFailure → String
  | .limit => "source_limit_exceeded"
  | .invalid => "source_invalid"
  | .other => "source_discovery_failed"

/-- `_source_failure_manifest`: a copy of the old manifest, or a fresh one, with
a new last ingestion. -/
def source_failure_manifest (settings : Settings) (ingestion_id started completed : String)
    (failure : SourceFailure) (old : Option Manifest) : Manifest :=
  let value := old.getD
    { sourceVersion := none, activeGraphVersion := none, previousGraphVersion := none,
      graphifyVersion := settings.graphify_package_version, processingFingerprint := none,
      generatedAt := none, documents := [], changes := .empty,
      lastIngestion := ⟨ingestion_id, .failed, started, some completed, some failure.code⟩ }
  { value with
    lastIngestion := ⟨ingestion_id, .failed, started, some completed, some failure.code⟩ }

theorem python_or_none {value : Option String} {text : String}
    (h : python_or value none = some text) : value = some text := by
  cases value with
  | none => cases h
  | some given =>
    rw [python_or] at h
    split at h
    · cases h
    · exact h

theorem python_or_some {text : String} (htext : text ≠ "") (fallback : Option String) :
    python_or (some text) fallback = some text :=
  if_neg htext

theorem source_failure_manifest_active {settings : Settings} {id started completed : String}
    {failure : SourceFailure} (old : Option Manifest) :
    (source_failure_manifest settings id started completed failure old).activeGraphVersion =
      old.bind (·.activeGraphVersion) := by
  cases old <;> rfl

end lagraph.knowledge
