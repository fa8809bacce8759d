import LaGraph.Projects.Rows

open foundation foundation.Tx

namespace lagraph.registry

/-- Whether an optional string counts as true in a condition. -/
def truthy (value : Option String) : Bool :=
  value.any (· ≠ "")

/-- `ProjectState` of a project whose draft is not editable. -/
def ProjectState.locked : ProjectState → Bool
  | .queued | .building | .archived => true
  | .draft | .ready | .failed => false

/-- `session.add` of a row with a new identifier. An identifier that is taken
violates the constraint of the primary key. -/
def add_row {ρ : Type} [Keyed ρ String] (table : Database → Table ρ)
    (put : Database → Table ρ → Database) (row : ρ) : Transaction Unit := do
  acquire (.identifier (Keyed.key row))
  let taken ← select fun db => ((table db).get (Keyed.key row)).isSome
  raiseIf (taken = true) .IntegrityError
  execute fun _ db => put db ((table db).insert row)

def add_project : ProjectRow → Transaction Unit :=
  add_row (·.projects) fun db projects => { db with projects }

def add_membership : ProjectMembershipRow → Transaction Unit :=
  add_row (·.memberships) fun db memberships => { db with memberships }

def add_access_request : AccessRequestRow → Transaction Unit :=
  add_row (·.access_requests) fun db access_requests => { db with access_requests }

def add_snapshot : SnapshotRow → Transaction Unit :=
  add_row (·.snapshots) fun db snapshots => { db with snapshots }

def add_file : SnapshotFileRow → Transaction Unit :=
  add_row (·.files) fun db files => { db with files }

def add_upload : UploadSessionRow → Transaction Unit :=
  add_row (·.uploads) fun db uploads => { db with uploads }

def add_job : BuildJobRow → Transaction Unit :=
  add_row (·.jobs) fun db jobs => { db with jobs }

/-- `_idempotent_resource`. -/
def idempotent_resource (actor operation key : String) : Transaction (Option String) :=
  select fun db => (db.idempotency.get (actor, operation, key)).map (·.resource_id)

/-- `_remember`: one record for each actor, operation and key. -/
def remember (actor operation key resource_id : String) : Transaction Unit := do
  acquire (.idempotency actor operation key)
  let taken ← select fun db => (db.idempotency.get (actor, operation, key)).isSome
  raiseIf (taken = true) .IntegrityError
  execute fun _ db => { db with
    idempotency := db.idempotency.insert
      { actor_subject := actor, operation, key, resource_id } }

/-- `_project_for_update`. -/
def project_for_update (project_id : String) : Transaction ProjectRow := do
  acquire (.project project_id)
  let row ← select fun db => db.projects.get project_id
  orRaise row (.ProjectNotFound project_id)

/-- The latest editable snapshot of a project. -/
def latest_draft (db : Database) (project_id : String) : Option SnapshotRow :=
  ((db.snapshots.rows.filter fun row =>
    row.project_id = project_id && row.status = .editable).mergeSort
      fun a b => b.created_at ≤ a.created_at).head?

/-- `_draft`. -/
def draft (project_id : String) : Transaction SnapshotRow := do
  let row ← select fun db => latest_draft db project_id
  orRaise row (.ProjectConflict "The project has no editable draft")

/-- The identifiers drawn for a new project. -/
structure ProjectIds where
  project : String
  membership : String
  snapshot : String
  deriving DecidableEq, Repr

/-- `create_project`: the identifier of the project it returns, which is read after
the commit. -/
def create_project (ids : ProjectIds) (subject username tenant_id key : String) (now : Moment) :
    Transaction String := do
  let prior ← idempotent_resource subject "create_project" key
  match prior.filter (· ≠ "") with
  | some project_id => pure project_id
  | none => do
    add_project
      { id := ids.project, tenant_id, state := .draft, updated_at := now, archived_at := none,
        active_snapshot_id := none, active_graph_version := none, active_document_count := 0,
        generation := 0 }
    add_membership
      { id := ids.membership, tenant_id, project_id := ids.project, principal_type := .user,
        principal_id := subject, display_name := username, role := .owner, updated_at := now }
    add_snapshot
      { id := ids.snapshot, project_id := ids.project, status := .editable, created_at := now,
        sealed_at := none }
    remember subject "create_project" key ids.project
    pure ids.project

/-- A write of columns of one project. -/
def update_project (project_id : String) (f : ProjectRow → ProjectRow)
    (hf : ∀ row, (f row).id = row.id) : Transaction Unit :=
  execute fun _ db => { db with
    projects := db.projects.update (·.id = project_id) f hf }

/-- `archive`. -/
def archive (project_id : String) (now : Moment) : Transaction Unit := do
  let project ← project_for_update project_id
  raiseIf (project.state = .queued ∨ project.state = .building)
    (.ProjectConflict "A building project cannot be archived")
  update_project project.id
    (fun row => { row with state := .archived, archived_at := some now, updated_at := now })
    (fun _ => rfl)

/-- The state of a project that is neither archived nor being built. -/
def restored_state (project : ProjectRow) : ProjectState :=
  if truthy project.active_graph_version then .ready else .draft

/-- `restore`, with the retention period in the unit of moments. -/
def restore (project_id : String) (retention : Moment) (now : Moment) : Transaction Unit := do
  let project ← project_for_update project_id
  match project.archived_at with
  | none => raise (.ProjectConflict "The project is not archived")
  | some archived_at => do
    raiseIf (project.state ≠ .archived) (.ProjectConflict "The project is not archived")
    raiseIf (archived_at + retention < now)
      (.ProjectConflict "The project restore period expired")
    update_project project.id
      (fun row => { row with
        state := restored_state project, archived_at := none, updated_at := now })
      (fun _ => rfl)

end lagraph.registry
