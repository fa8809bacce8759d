import LaGraph.Foundation.Faulty
import LaGraph.Knowledge.Store

open foundation foundation.Faulty

namespace lagraph.knowledge

/-- The phases of a progress report. -/
inductive Phase
  | validating | converting | buildingGraph | indexing
  deriving DecidableEq, Repr

/-- The places that write the manifest. -/
inductive ManifestWrite
  | source_failure | reconcile_failure | unchanged | running | completed | failed | rolled_back
  deriving DecidableEq, Repr

/-- The fallible steps of an ingestion or a rollback. A step that follows an
effect, such as a directory sync, fails with the effect done. -/
inductive Stage
  | progress (phase : Phase)
  | open_index
  | reconcile_index
  | replace_manifest (write : ManifestWrite)
  | fsync_manifest (write : ManifestWrite)
  | make_staging
  | copy_sources
  | run_graphify
  | make_publish
  | build_index
  | seal_publish
  | move_version
  | fsync_versions
  | make_link
  | replace_active
  | fsync_active
  | unlink_temporary
  | restore_active
  | fsync_restored
  | list_versions
  | remove_files (version : String)
  | remove_directory (version : String)
  | remove_staging
  | move_failed
  deriving DecidableEq, Repr

abbrev Action := Faulty Stage Failure World

/-- `_write_manifest`. -/
def write_manifest (write : ManifestWrite) (value : Manifest) : Action Unit := do
  step (.replace_manifest write) .OSError
  change fun w => { w with stored_manifest := some value }
  step (.fsync_manifest write) .OSError

/-- Pointing `active` at a version through a temporary link. -/
def replace_link (version_dir : String) : Action Unit :=
  always
    (do
      step .make_link .OSError
      step .replace_active .OSError
      change fun w => { w with active := .link ["versions", version_dir] }
      step .fsync_active .OSError)
    (step .unlink_temporary .OSError)

/-- `_activate`. -/
def activate (version_dir : String) : Action Unit := do
  let w ← read
  match version_named w version_dir with
  | none => raise .FileNotFoundError
  | some version => do
    let _ ← ofExcept (validate_graph version.graph)
    raiseIf (w.active = .occupied) (.RuntimeError "active_graph_path_invalid")
    replace_link version_dir

/-- `_restore_active`. -/
def restore_active (target : Option (List String)) : Action Unit := do
  step .restore_active .OSError
  change fun w => { w with active := target.elim .absent .link }
  step .fsync_restored .OSError

/-- Activates a version and stores the manifest that names it; when the manifest
cannot be written, the former link is restored. -/
def activate_and_record (write : ManifestWrite) (version_dir : String) (value : Manifest) :
    Action Unit := do
  let w ← read
  let prior_target := active_target w
  activate version_dir
  recover (write_manifest write value) (fun error => do
    restore_active prior_target
    raise error)

/-- `shutil.rmtree` of one version. -/
def remove_version (name : String) : Action Unit := do
  step (.remove_files name) .OSError
  change fun w => { w with versions := w.versions.map fun version =>
    if version.name = name then { version with graph := .missing } else version }
  step (.remove_directory name) .OSError
  change fun w => { w with versions := w.versions.filter (·.name ≠ name) }

/-- `_prune_versions`. -/
def prune_versions (keep : Nat) : Action Unit := do
  step .list_versions .OSError
  let w ← read
  forEach remove_version (pruned_names (w.versions.map (·.name)) keep)

/-- One ingestion: its settings and arguments, the clock readings, and the answers
it gets from outside (the sources, the extractor's exit or the graph it wrote,
and the number of passages the splitter makes of the documents). Its identifier
is a clock reading and a random token, which make a version name. -/
structure Ingestion where
  settings : Settings
  ingestion_id : String
  valid_id : valid_version_name ingestion_id = true
  force : Bool
  started : String
  completed : String
  source : Except SourceFailure KnowledgeSnapshot
  graphify : Except String GraphFile
  passages : Option Nat

/-- The origin of what the ingestion would build from a snapshot. -/
def Ingestion.origin (run : Ingestion) (snapshot : KnowledgeSnapshot) : Origin :=
  ⟨snapshot.source_version, run.settings.graphify_package_version,
    run.settings.knowledge_processing_fingerprint⟩

def Ingestion.rows (run : Ingestion) (snapshot : KnowledgeSnapshot) (graph_version : String)
    (passages : Nat) : IndexedVersion :=
  { graph_version, processing_fingerprint := run.settings.knowledge_processing_fingerprint,
    passages, source_version := snapshot.source_version }

/-- The manifest of a build that has started, of one that failed, and of one that
completed. -/
def Ingestion.running_manifest (run : Ingestion) (snapshot : KnowledgeSnapshot)
    (old : Option Manifest) : Manifest :=
  manifest_of run.settings snapshot run.ingestion_id .running run.started none none old none

def Ingestion.failed_manifest (run : Ingestion) (snapshot : KnowledgeSnapshot)
    (old : Option Manifest) (code : String) : Manifest :=
  manifest_of run.settings snapshot run.ingestion_id .failed run.started (some run.completed)
    (some code) old none

def Ingestion.completed_manifest (run : Ingestion) (snapshot : KnowledgeSnapshot)
    (old : Option Manifest) : Manifest :=
  manifest_of run.settings snapshot run.ingestion_id .completed run.started (some run.completed)
    none old (some run.ingestion_id)

/-- `str(value)` of an optional text. -/
def python_str (value : Option String) : String :=
  value.getD "None"

/-- The manifest of the unchanged path. -/
def Ingestion.unchanged_manifest (run : Ingestion) (snapshot : KnowledgeSnapshot)
    (old : Manifest) : Manifest :=
  { manifest_of run.settings snapshot run.ingestion_id .completed run.started
      (some run.completed) none (some old) (some (python_str old.activeGraphVersion)) with
    previousGraphVersion := old.previousGraphVersion, generatedAt := old.generatedAt }

/-- `SourceIndex.rebuild_version` of a snapshot's documents. -/
def rebuild_index (stage : Stage) (run : Ingestion) (snapshot : KnowledgeSnapshot)
    (graph_version : String) : Action Unit := do
  step stage .OSError
  match run.passages with
  | none => raise .OSError
  | some passages => change fun w => rebuild_version w (run.rows snapshot graph_version passages)

/-- The condition of the unchanged path. -/
def skips (run : Ingestion) (snapshot : KnowledgeSnapshot) (w : World) : Bool :=
  match manifest w with
  | none => false
  | some old => !run.force && old.sourceVersion = some snapshot.source_version &&
      old.graphifyVersion = run.settings.graphify_package_version &&
      old.processingFingerprint = some run.settings.knowledge_processing_fingerprint &&
      has_valid_active_graph w

/-- The unchanged path: the index of the active version is rebuilt when it is not
there, and the manifest is written again. -/
def reconcile (run : Ingestion) (snapshot : KnowledgeSnapshot) (old : Manifest) :
    Action Unit := do
  let active_version := python_str old.activeGraphVersion
  step .open_index .OSError
  let w ← read
  if has_version w active_version run.settings.knowledge_processing_fingerprint then
    write_manifest .unchanged (run.unchanged_manifest snapshot old)
  else do
    let rebuilt ← recover
      (do
        rebuild_index .reconcile_index run snapshot active_version
        pure true)
      (fun _ => do
        write_manifest .reconcile_failure
          (run.failed_manifest snapshot (some old) "source_index_build_failed")
        pure false)
    if rebuilt then write_manifest .unchanged (run.unchanged_manifest snapshot old)
    else pure ()

/-- The second half of a build: a validated graph is indexed and its version
directory moved into place. -/
def publish_version (run : Ingestion) (snapshot : KnowledgeSnapshot) (generated : GraphFile) :
    Action Unit := do
  let version := run.ingestion_id
  step .make_publish .OSError
  step (.progress .indexing) .OSError
  recover (rebuild_index .build_index run snapshot version)
    (fun _ => raise (.RuntimeError "source_index_build_failed"))
  step .seal_publish .OSError
  let w ← read
  raiseIf (version_named w version ≠ none) (.RuntimeError "graph_version_already_exists")
  step .move_version .OSError
  change fun w => { w with
    versions := { name := version, graph := generated, origin := run.origin snapshot } ::
      w.versions }
  step .fsync_versions .OSError

/-- The build up to the publication of the version directory. -/
def build_version (run : Ingestion) (snapshot : KnowledgeSnapshot) : Action Unit := do
  let version := run.ingestion_id
  let w ← read
  raiseIf (version ∈ w.staging) .FileExistsError
  step .make_staging .OSError
  change fun w => { w with staging := version :: w.staging }
  step .copy_sources .OSError
  step (.progress .buildingGraph) .OSError
  step .run_graphify .OSError
  match run.graphify with
  | .error error_code => raise (.RuntimeError error_code)
  | .ok generated => do
    let _ ← ofExcept (validate_graph generated)
    publish_version run snapshot generated

/-- From the activation of the new version to the end of the build. -/
def finish_version (run : Ingestion) (snapshot : KnowledgeSnapshot) (old : Option Manifest) :
    Action Unit := do
  activate_and_record .completed run.ingestion_id (run.completed_manifest snapshot old)
  prune_versions run.settings.knowledge_graph_versions_to_keep
  -- `ignore_errors=True`: only the end of the process is felt
  recover (step .remove_staging .OSError) (fun _ => pure ())
  change fun w => { w with staging := w.staging.filter (· ≠ run.ingestion_id) }

def known_codes : List String :=
  ["graphify_build_timeout", "graphify_build_failed", "graphify_provider_authentication_failed",
   "graphify_provider_credential_missing", "graphify_provider_quota_or_rate_limit",
   "graphify_provider_model_or_endpoint_not_found", "graphify_provider_base_url_invalid",
   "graphify_provider_timeout", "graphify_provider_connection_failed", "graph_artifact_missing",
   "graph_artifact_invalid", "graph_version_already_exists", "source_index_build_failed"]

/-- `str(exc) if str(exc) in known_codes else type(exc).__name__`. -/
def error_code : Failure → String
  | .RuntimeError message => if message ∈ known_codes then message else "RuntimeError"
  | .OSError => "OSError"
  | .FileExistsError => "FileExistsError"
  | .FileNotFoundError => "FileNotFoundError"
  | .JSONDecodeError => "JSONDecodeError"

/-- The handler of a build that raised. -/
def record_failure (run : Ingestion) (snapshot : KnowledgeSnapshot) (old : Option Manifest)
    (error : Failure) : Action Unit := do
  step .move_failed .OSError
  change fun w =>
    if run.ingestion_id ∈ w.staging then
      { w with staging := w.staging.filter (· ≠ run.ingestion_id),
               failed := run.ingestion_id :: w.failed }
    else w
  write_manifest .failed (run.failed_manifest snapshot old (error_code error))

/-- `_execute`. -/
def execute (run : Ingestion) : Action Unit := do
  let w ← read
  let old := manifest w
  step (.progress .validating) .OSError
  match run.source with
  | .error failure =>
    write_manifest .source_failure
      (source_failure_manifest run.settings run.ingestion_id run.started run.completed failure old)
  | .ok snapshot => do
    step (.progress .converting) .OSError
    match old, skips run snapshot w with
    | some old, true => reconcile run snapshot old
    | old, _ => do
      write_manifest .running (run.running_manifest snapshot old)
      recover
        (do
          build_version run snapshot
          finish_version run snapshot old)
        (record_failure run snapshot old)

/-- The manifest of a rollback. -/
def Manifest.rolled_back (old : Manifest) (previous : String) : Manifest :=
  { old with activeGraphVersion := some previous, previousGraphVersion := old.activeGraphVersion }

/-- `rollback`. -/
def rollback : Action String := do
  let w ← read
  match manifest w, (manifest w).bind fun old => python_or old.previousGraphVersion none with
  | some old, some previous => do
    match version_named w previous with
    | none => raise (.RuntimeError "graph_artifact_missing")
    | some target => do
      let _ ← ofExcept (validate_graph target.graph)
      activate_and_record .rolled_back previous (old.rolled_back previous)
      pure previous
  | _, _ => raise (.RuntimeError "No previous graph version is available")

end lagraph.knowledge
