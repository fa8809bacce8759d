import LaGraph.Foundation.Runs
import LaGraph.Foundation.Transactions.Alone
import LaGraph.Projects.Builds
import LaGraph.Projects.Storage

open foundation foundation.Tx

namespace lagraph.registry

/-- What is done to projects: uploads, builds and their end, archiving and purging. -/
inductive ProjectOperation
  | create_project (ids : ProjectIds) (subject username tenant_id key : String)
  | create_upload_session (id project_id : String) (declarations : List UploadFileDeclaration)
    (subject key : String) (upload_ttl : Moment)
  | mark_part_uploaded (part_id temp_path : String) (size : Nat)
  | finalize_upload (project_id session_id : String) (blobs : List (String × String))
    (new_ids : Nat → String) (subject key : String)
  | delete_file (project_id file_id : String)
  | cleanup_expired_uploads
  | submit_build (id project_id subject key : String)
  | claim_build (worker_id : String)
  | update_file_lifecycle (snapshot_id : String) (status : FileLifecycleState)
    (progress_percent : Nat)
  | complete_build (build : BuildRecord) (graph_version : String) (document_count : Nat)
    (draft_id : String) (new_ids : Nat → String)
  | fail_build (build : BuildRecord) (error_code : String)
  | recover_builds
  | archive (project_id : String)
  | restore (project_id : String) (retention : Moment)
  | purge_expired (enforced : Bool) (project_id : String) (retention : Moment)

/-- The transaction of an operation; only a claim returns a record. -/
def ProjectOperation.perform (now : Moment) :
    ProjectOperation → Transaction (Option BuildRecord)
  | .create_project ids subject username tenant_id key => do
    let _ ← registry.create_project ids subject username tenant_id key now
    pure none
  | .create_upload_session id project_id declarations subject key upload_ttl => do
    registry.create_upload_session id project_id declarations subject key upload_ttl now
    pure none
  | .mark_part_uploaded part_id temp_path size => do
    registry.mark_part_uploaded part_id temp_path size
    pure none
  | .finalize_upload project_id session_id blobs new_ids subject key => do
    registry.finalize_upload project_id session_id blobs new_ids subject key now
    pure none
  | .delete_file project_id file_id => do
    registry.delete_file project_id file_id now
    pure none
  | .cleanup_expired_uploads => do
    registry.cleanup_expired_uploads now
    pure none
  | .submit_build id project_id subject key => do
    registry.submit_build id project_id subject key now
    pure none
  | .claim_build worker_id => registry.claim_build worker_id now
  | .update_file_lifecycle snapshot_id status progress_percent => do
    registry.update_file_lifecycle snapshot_id status progress_percent
    pure none
  | .complete_build build graph_version document_count draft_id new_ids => do
    registry.complete_build build graph_version document_count draft_id new_ids now
    pure none
  | .fail_build build error_code => do
    registry.fail_build build error_code now
    pure none
  | .recover_builds => do
    registry.recover_builds
    pure none
  | .archive project_id => do
    registry.archive project_id now
    pure none
  | .restore project_id retention => do
    registry.restore project_id retention now
    pure none
  | .purge_expired enforced project_id retention => do
    registry.purge_expired enforced project_id retention now
    pure none

/-- The database and the records of the builds that workers have claimed. -/
structure Registry where
  db : Database
  records : List BuildRecord

def Registry.empty : Registry where
  db := .empty
  records := []

/-- A build is completed or failed by the worker that has claimed it. -/
def ProjectOperation.claimed (records : List BuildRecord) : ProjectOperation → Bool
  | .complete_build build _ _ _ _ | .fail_build build _ => build ∈ records
  | _ => true

/-- One operation at a moment. -/
def Registry.step (s : Registry) (operation : ProjectOperation × Moment) : Option Registry :=
  if operation.1.claimed s.records then
    let outcome := (operation.1.perform operation.2).transact s.db
    let claim := match outcome.1 with
      | .ok record => record.toList
      | .error _ => []
    some { db := outcome.2, records := s.records ++ claim }
  else none

/-- A snapshot of that identifier, if there is one, belongs to the project. -/
def Fits (db : Database) (snapshot_id project_id : String) : Prop :=
  ∀ snapshot ∈ db.snapshots, snapshot.id = snapshot_id → snapshot.project_id = project_id

/-- The content of a project is stored. -/
def HasBlob (db : Database) (project_id sha256 : String) : Prop :=
  (db.blobs.get (project_id, sha256)).isSome

/-- Every file of an existing project has the row of its content, the files of a snapshot
have different names, and whatever names a snapshot also names its project. -/
structure Linked (records : List BuildRecord) (db : Database) : Prop where
  blobs : ∀ file ∈ db.files, (∃ project ∈ db.projects, project.id = file.project_id) →
    HasBlob db file.project_id file.sha256
  names : ∀ file ∈ db.files, ∀ other ∈ db.files, file.snapshot_id = other.snapshot_id →
    file.logical_filename = other.logical_filename → file = other
  files : ∀ file ∈ db.files, Fits db file.snapshot_id file.project_id
  uploads : ∀ upload ∈ db.uploads, Fits db upload.snapshot_id upload.project_id
  jobs : ∀ job ∈ db.jobs, Fits db job.snapshot_id job.project_id
  records : ∀ record ∈ records, Fits db record.snapshot_id record.project_id

/-- Nothing names the identifier as a snapshot's. -/
structure Unnamed (records : List BuildRecord) (db : Database) (id : String) : Prop where
  files : ∀ file ∈ db.files, file.snapshot_id ≠ id
  uploads : ∀ upload ∈ db.uploads, upload.snapshot_id ≠ id
  jobs : ∀ job ∈ db.jobs, job.snapshot_id ≠ id
  records : ∀ record ∈ records, record.snapshot_id ≠ id

/-- The identifiers drawn for a new project and a new snapshot are not in use. -/
def DrawsUnused (e : Transition Registry (ProjectOperation × Moment)) : Prop :=
  match e.label.1 with
  | .create_project ids _ _ _ _ =>
    Unnamed e.before.records e.before.db ids.snapshot ∧
      ∀ file ∈ e.before.db.files, file.project_id ≠ ids.project
  | .complete_build _ _ _ draft_id _ => Unnamed e.before.records e.before.db draft_id
  | _ => True

variable {records : List BuildRecord} {db db' : Database}

theorem Fits.mono {snapshot_id project_id : String} (h : Fits db snapshot_id project_id)
    (hsnapshots : ∀ row' ∈ db'.snapshots, ∃ row ∈ db.snapshots,
      row.id = row'.id ∧ row.project_id = row'.project_id) : Fits db' snapshot_id project_id := by
  intro row' hrow' hid
  obtain ⟨row, hrow, hsame, hproject⟩ := hsnapshots row' hrow'
  rw [← hproject]
  exact h row hrow (hsame.trans hid)

/-- The file is the same, whatever became of its build. -/
structure SnapshotFileRow.Same (file other : SnapshotFileRow) : Prop where
  id : file.id = other.id
  snapshot_id : file.snapshot_id = other.snapshot_id
  project_id : file.project_id = other.project_id
  logical_filename : file.logical_filename = other.logical_filename
  sha256 : file.sha256 = other.sha256

theorem SnapshotFileRow.Same.refl (file : SnapshotFileRow) : file.Same file :=
  ⟨rfl, rfl, rfl, rfl, rfl⟩

/-- Rows that say no more than before about files, snapshots and projects. -/
structure Narrows (db db' : Database) : Prop where
  projects : ∀ row' ∈ db'.projects, ∃ row ∈ db.projects, row.id = row'.id
  snapshots : ∀ row' ∈ db'.snapshots, ∃ row ∈ db.snapshots,
    row.id = row'.id ∧ row.project_id = row'.project_id
  files : ∀ row' ∈ db'.files, ∃ row ∈ db.files, row.Same row'
  uploads : ∀ row' ∈ db'.uploads, ∃ row ∈ db.uploads, row.snapshot_id = row'.snapshot_id ∧
    row.project_id = row'.project_id
  jobs : ∀ row' ∈ db'.jobs, ∃ row ∈ db.jobs, row.snapshot_id = row'.snapshot_id ∧
    row.project_id = row'.project_id
  blobs : ∀ project ∈ db'.projects, ∀ sha256, HasBlob db project.id sha256 →
    HasBlob db' project.id sha256

theorem Narrows.refl (db : Database) : Narrows db db :=
  ⟨fun row h => ⟨row, h, rfl⟩, fun row h => ⟨row, h, rfl, rfl⟩, fun row h => ⟨row, h, .refl row⟩,
    fun row h => ⟨row, h, rfl, rfl⟩, fun row h => ⟨row, h, rfl, rfl⟩, fun _ _ _ h => h⟩

theorem Linked.narrow (h : Linked records db) (hnarrow : Narrows db db') : Linked records db' where
  blobs file' hfile' hproject' := by
    obtain ⟨file, hfile, hsame⟩ := hnarrow.files file' hfile'
    obtain ⟨project', hmem', hid'⟩ := hproject'
    obtain ⟨project, hmem, hid⟩ := hnarrow.projects project' hmem'
    have hown : project.id = file.project_id := by
      rw [hid, hid', hsame.project_id]
    have hblob := h.blobs file hfile ⟨project, hmem, hown⟩
    rw [hsame.project_id, hsame.sha256, ← hid'] at hblob
    rw [← hid']
    exact hnarrow.blobs project' hmem' file'.sha256 hblob
  names file' hfile' other' hother' hsnapshot hname := by
    obtain ⟨file, hfile, hsame⟩ := hnarrow.files file' hfile'
    obtain ⟨other, hother, hsame'⟩ := hnarrow.files other' hother'
    have heq := h.names file hfile other hother
      (hsame.snapshot_id.trans (hsnapshot.trans hsame'.snapshot_id.symm))
      (hsame.logical_filename.trans (hname.trans hsame'.logical_filename.symm))
    apply Table.eq_of_key hfile' hother'
    exact hsame.id.symm.trans ((congrArg (·.id) heq).trans hsame'.id)
  files file' hfile' := by
    obtain ⟨file, hfile, hsame⟩ := hnarrow.files file' hfile'
    rw [← hsame.snapshot_id, ← hsame.project_id]
    exact (h.files file hfile).mono hnarrow.snapshots
  uploads upload' hupload' := by
    obtain ⟨upload, hupload, hsnapshot, hproject⟩ := hnarrow.uploads upload' hupload'
    rw [← hsnapshot, ← hproject]
    exact (h.uploads upload hupload).mono hnarrow.snapshots
  jobs job' hjob' := by
    obtain ⟨job, hjob, hsnapshot, hproject⟩ := hnarrow.jobs job' hjob'
    rw [← hsnapshot, ← hproject]
    exact (h.jobs job hjob).mono hnarrow.snapshots
  records record hrecord := (h.records record hrecord).mono hnarrow.snapshots

theorem Linked.empty : Linked [] .empty := by
  refine ⟨?_, ?_, ?_, ?_, ?_, ?_⟩
  · exact fun _ h => absurd h Table.not_mem_empty
  · exact fun _ h => absurd h Table.not_mem_empty
  · exact fun _ h => absurd h Table.not_mem_empty
  · exact fun _ h => absurd h Table.not_mem_empty
  · exact fun _ h => absurd h Table.not_mem_empty
  · exact fun _ h => absurd h List.not_mem_nil

end lagraph.registry
