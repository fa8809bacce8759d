import LaGraph.Projects.Uploads

open foundation foundation.Tx

namespace lagraph.registry

/-- A claimed build. The number of the claim is recorded for reasoning only. -/
structure BuildRecord where
  id : String
  project_id : String
  snapshot_id : String
  expected_generation : Nat
  requested_by : String
  claim : Nat
  deriving DecidableEq, Repr

/-- A write of columns of one job. -/
def update_job (id : String) (f : BuildJobRow → BuildJobRow)
    (hf : ∀ row, (f row).id = row.id) : Transaction Unit := do
  acquire (.job id)
  execute fun _ db => { db with jobs := db.jobs.update (·.id = id) f hf }

/-- A write of columns of the snapshots that `p` selects. -/
def update_snapshots (p : SnapshotRow → Bool) (f : SnapshotRow → SnapshotRow)
    (hf : ∀ row, (f row).id = row.id) : Transaction Unit :=
  execute fun view db => { db with
    snapshots := db.snapshots.update (view.snapshots.matching p) f hf }

/-- The lifecycle of the files of a snapshot. -/
def mark_files (snapshot_id : String) (status : FileLifecycleState) (progress : Nat) :
    Transaction Unit :=
  execute fun view db => { db with
    files := db.files.update (view.files.matching (·.snapshot_id = snapshot_id))
      (fun row => { row with
        lifecycle_status := status, progress_percent := progress, error_code := none })
      (fun _ => rfl) }

/-- `submit_build`. -/
def submit_build (id project_id subject key : String) (now : Moment) : Transaction Unit := do
  let operation := s!"submit_build:{project_id}"
  let prior ← idempotent_resource subject operation key
  whenever (truthy prior = false) do
    let project ← project_for_update project_id
    raiseIf (project.state.locked = true) (.ProjectConflict "A build cannot be started")
    let draft ← draft project_id
    let open_uploads ← select fun db => db.uploads.count fun row =>
      row.project_id = project_id && row.snapshot_id = draft.id && row.state = .opened
    raiseIf (open_uploads ≠ 0) (.ProjectConflict "Open upload sessions must be finalized first")
    let count ← select fun db => db.files.count (·.snapshot_id = draft.id)
    raiseIf (count = 0) (.ProjectConflict "At least one draft file is required")
    add_job
      { id, project_id, snapshot_id := draft.id, status := .queued, requested_by := subject,
        expected_generation := project.generation, graph_version := none, error_code := none,
        created_at := now, started_at := none, completed_at := none, worker_id := none,
        claim := none }
    mark_files draft.id .queued 5
    update_snapshots (·.id = draft.id)
      (fun row => { row with status := .sealed, sealed_at := some now }) (fun _ => rfl)
    update_project project.id (fun row => { row with state := .queued, updated_at := now })
      (fun _ => rfl)
    remember subject operation key id

/-- The queued job that was created first. -/
def next_queued (db : Database) : Option BuildJobRow :=
  ((db.jobs.rows.filter (·.status = .queued)).mergeSort
    fun a b => a.created_at ≤ b.created_at).head?

/-- `claim_build`. -/
def claim_build (worker_id : String) (now : Moment) : Transaction (Option BuildRecord) := do
  let building ← select fun db => db.jobs.count (·.status = .building)
  if building ≠ 0 then pure none
  else do
    let row ← select next_queued
    match row with
    | none => pure none
    | some row => do
      acquire (.job row.id)
      let matched ← select fun db => (db.jobs.get row.id).any (·.status = .queued)
      if matched = false then pure none
      else do
        let claim ← select (·.claims)
        execute fun _ db => { db with claims := claim + 1 }
        update_job row.id
          (fun row => { row with
            status := .building, started_at := some now, worker_id := some worker_id,
            claim := some claim }) (fun _ => rfl)
        acquire (.project row.project_id)
        update_project row.project_id
          (fun row => { row with state := .building, updated_at := now }) (fun _ => rfl)
        mark_files row.snapshot_id .validating 15
        pure (some
          { id := row.id, project_id := row.project_id, snapshot_id := row.snapshot_id,
            expected_generation := row.expected_generation, requested_by := row.requested_by,
            claim })

/-- `update_file_lifecycle`. -/
def update_file_lifecycle (snapshot_id : String) (lifecycle_status : FileLifecycleState)
    (progress_percent : Nat) : Transaction Unit :=
  mark_files snapshot_id lifecycle_status progress_percent

/-- `snapshot_files`: the files with the paths of their contents. -/
def snapshot_files (snapshot_id : String) : Transaction (List (SnapshotFileRow × String)) :=
  select fun db =>
    ((db.files.rows.filter (·.snapshot_id = snapshot_id)).mergeSort
      fun a b => a.logical_filename ≤ b.logical_filename).filterMap fun row =>
        (db.blobs.get (row.project_id, row.sha256)).map fun blob => (row, blob.storage_path)

/-- A file in the draft that follows its snapshot. -/
def SnapshotFileRow.copied (file : SnapshotFileRow) (id snapshot_id project_id : String) :
    SnapshotFileRow :=
  { file with
    id, snapshot_id, project_id, lifecycle_status := .ready, progress_percent := 100,
    error_code := none }

/-- `complete_build`; `new_ids` are the identifiers drawn for the new draft and its
files. -/
def complete_build (build : BuildRecord) (graph_version : String) (document_count : Nat)
    (draft_id : String) (new_ids : Nat → String) (now : Moment) : Transaction Unit := do
  let project ← project_for_update build.project_id
  raiseIf (project.generation ≠ build.expected_generation)
    (.ProjectConflict "The active project generation changed")
  let job ← select fun db => db.jobs.get build.id
  let snapshot ← select fun db => db.snapshots.get build.snapshot_id
  let job ← orRaise job (.ProjectConflict "The build is no longer active")
  let snapshot ← orRaise snapshot (.ProjectConflict "The build is no longer active")
  raiseIf (job.status ≠ .building) (.ProjectConflict "The build is no longer active")
  update_snapshots (fun row => row.project_id = project.id && row.status = .active)
    (fun row => { row with status := .validated }) (fun _ => rfl)
  update_snapshots (·.id = snapshot.id) (fun row => { row with status := .active }) (fun _ => rfl)
  update_project project.id
    (fun row => { row with
      active_snapshot_id := some snapshot.id, active_graph_version := some graph_version,
      active_document_count := document_count, generation := project.generation + 1,
      state := .ready, updated_at := now }) (fun _ => rfl)
  update_job job.id
    (fun row => { row with
      status := .ready, graph_version := some graph_version, completed_at := some now })
    (fun _ => rfl)
  add_snapshot
    { id := draft_id, project_id := project.id, status := .editable, created_at := now,
      sealed_at := none }
  let source_files ← select fun db => db.files.rows.filter (·.snapshot_id = snapshot.id)
  forEach add_file (source_files.zipIdx.map fun item =>
    item.1.copied (new_ids item.2) draft_id project.id)
  mark_files snapshot.id .ready 100

/-- `fail_build`. -/
def fail_build (build : BuildRecord) (error_code : String) (now : Moment) : Transaction Unit := do
  let job ← select fun db => db.jobs.get build.id
  let snapshot ← select fun db => db.snapshots.get build.snapshot_id
  let project ← project_for_update build.project_id
  match job with
  | none => pure ()
  | some job =>
    update_job job.id
      (fun row => { row with
        status := .failed, error_code := some error_code, completed_at := some now })
      (fun _ => rfl)
  match snapshot with
  | none => pure ()
  | some snapshot => do
    update_snapshots (·.id = snapshot.id)
      (fun row => { row with status := .editable, sealed_at := none }) (fun _ => rfl)
    execute fun view db => { db with
      files := db.files.update (view.files.matching (·.snapshot_id = snapshot.id))
        (fun row => { row with lifecycle_status := .failed, error_code := some error_code })
        (fun _ => rfl) }
  update_project project.id
    (fun row => { row with
      state := if truthy project.active_graph_version then .ready else .failed,
      updated_at := now }) (fun _ => rfl)

/-- `recover_builds`, when the worker starts. -/
def recover_builds : Transaction Unit := do
  let project_ids ← select fun db =>
    (db.jobs.rows.filter (·.status = .building)).map (·.project_id)
  execute fun view db => { db with
    jobs := db.jobs.update (view.jobs.matching (·.status = .building))
      (fun row => { row with
        status := .queued, started_at := none, worker_id := none, claim := none })
      (fun _ => rfl) }
  execute fun view db => { db with
    files := db.files.update
      (view.files.matching fun row => view.jobs.rows.any fun job =>
        job.snapshot_id = row.snapshot_id && job.status = .queued)
      (fun row => { row with
        lifecycle_status := .queued, progress_percent := 5, error_code := none })
      (fun _ => rfl) }
  execute fun view db => { db with
    projects := db.projects.update
      (view.projects.matching fun row => project_ids.contains row.id)
      (fun row => { row with state := .queued }) (fun _ => rfl) }

/-- The rows that refer to a project, as the foreign keys of the tables say. -/
def Database.cascade (db : Database) (project_id : String) : Database :=
  let is_snapshot (id : String) : Bool :=
    db.snapshots.rows.any fun row => row.id = id && row.project_id = project_id
  { db with
    memberships := db.memberships.delete (·.project_id = project_id),
    access_requests := db.access_requests.delete (·.project_id = project_id),
    snapshots := db.snapshots.delete (·.project_id = project_id),
    files := db.files.delete fun row => is_snapshot row.snapshot_id,
    uploads := db.uploads.delete fun row =>
      row.project_id = project_id || is_snapshot row.snapshot_id,
    jobs := db.jobs.delete fun row => row.project_id = project_id || is_snapshot row.snapshot_id }

/-- `purge_expired`. `enforced` says whether the connection enforces foreign keys: the
rows that refer to the project then go with it. -/
def purge_expired (enforced : Bool) (project_id : String) (retention now : Moment) :
    Transaction Unit := do
  let project ← project_for_update project_id
  match project.archived_at with
  | none => raise (.ProjectConflict "The archived project is still retained")
  | some archived_at => do
    raiseIf (project.state ≠ .archived ∨ now < archived_at + retention)
      (.ProjectConflict "The archived project is still retained")
    execute fun view db => { db with
      blobs := db.blobs.delete (view.blobs.matching (·.project_id = project_id)) }
    execute fun _ db =>
      let rest := if enforced then db.cascade project_id else db
      { rest with projects := rest.projects.delete (·.id = project_id) }

/-- `expired_archives`. -/
def expired_archives (retention now : Moment) : Transaction (List String) :=
  select fun db => (db.projects.rows.filter fun row =>
    row.state = .archived && row.archived_at.any fun archived_at =>
      archived_at + retention ≤ now).map (·.id)

end lagraph.registry
