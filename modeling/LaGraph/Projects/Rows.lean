import LaGraph.Foundation.Tables
import LaGraph.Foundation.Transactions

open foundation

namespace lagraph.registry

/-- A moment in time. -/
abbrev Moment := Nat

inductive ProjectState
  | draft | queued | building | ready | failed | archived
  deriving DecidableEq, Repr

inductive SnapshotStatus
  | editable | sealed | active | validated
  deriving DecidableEq, Repr

inductive BuildState
  | queued | building | ready | failed
  deriving DecidableEq, Repr

inductive UploadState
  | opened | finalized | expired
  deriving DecidableEq, Repr

inductive PartState
  | pending | uploaded
  deriving DecidableEq, Repr

inductive FileLifecycleState
  | uploaded | queued | validating | converting | buildingGraph | indexing | ready | failed
  deriving DecidableEq, Repr

inductive ProjectRole
  | viewer | contributor | manager | owner
  deriving DecidableEq, Repr

inductive PrincipalType
  | user | group
  deriving DecidableEq, Repr

inductive AccessRequestState
  | pending | approved | denied | cancelled
  deriving DecidableEq, Repr

structure ProjectRow where
  id : String
  tenant_id : String
  state : ProjectState
  updated_at : Moment
  archived_at : Option Moment
  active_snapshot_id : Option String
  active_graph_version : Option String
  active_document_count : Nat
  generation : Nat
  deriving DecidableEq, Repr

structure ProjectMembershipRow where
  id : String
  tenant_id : String
  project_id : String
  principal_type : PrincipalType
  principal_id : String
  display_name : String
  role : ProjectRole
  updated_at : Moment
  deriving DecidableEq, Repr

structure AccessRequestRow where
  id : String
  tenant_id : String
  project_id : String
  requester_id : String
  requester_name : String
  note : Option String
  status : AccessRequestState
  reviewed_by : Option String
  decided_role : Option ProjectRole
  created_at : Moment
  decided_at : Option Moment
  deriving DecidableEq, Repr

structure SnapshotRow where
  id : String
  project_id : String
  status : SnapshotStatus
  created_at : Moment
  sealed_at : Option Moment
  deriving DecidableEq, Repr

structure BlobRow where
  project_id : String
  sha256 : String
  size : Nat
  storage_path : String
  deriving DecidableEq, Repr

structure SnapshotFileRow where
  id : String
  snapshot_id : String
  project_id : String
  logical_filename : String
  media_type : String
  size : Nat
  sha256 : String
  lifecycle_status : FileLifecycleState
  progress_percent : Nat
  error_code : Option String
  uploaded_at : Moment
  deriving DecidableEq, Repr

structure UploadPartRow where
  id : String
  logical_filename : String
  media_type : String
  expected_size : Nat
  expected_sha256 : String
  temp_path : Option String
  received_size : Option Nat
  state : PartState
  deriving DecidableEq, Repr

/-- An upload session with its parts. -/
structure UploadSessionRow where
  id : String
  project_id : String
  snapshot_id : String
  created_by : String
  state : UploadState
  expires_at : Moment
  parts : List UploadPartRow
  deriving DecidableEq, Repr

/-- A build job. The number of the claim it is being built under is recorded for
reasoning only. -/
structure BuildJobRow where
  id : String
  project_id : String
  snapshot_id : String
  status : BuildState
  requested_by : String
  expected_generation : Nat
  graph_version : Option String
  error_code : Option String
  created_at : Moment
  started_at : Option Moment
  completed_at : Option Moment
  worker_id : Option String
  claim : Option Nat
  deriving DecidableEq, Repr

structure IdempotencyRow where
  actor_subject : String
  operation : String
  key : String
  resource_id : String
  deriving DecidableEq, Repr

instance : Keyed ProjectRow String := ⟨(·.id)⟩
instance : Keyed ProjectMembershipRow String := ⟨(·.id)⟩
instance : Keyed AccessRequestRow String := ⟨(·.id)⟩
instance : Keyed SnapshotRow String := ⟨(·.id)⟩
instance : Keyed BlobRow (String × String) := ⟨fun row => (row.project_id, row.sha256)⟩
instance : Keyed SnapshotFileRow String := ⟨(·.id)⟩
instance : Keyed UploadSessionRow String := ⟨(·.id)⟩
instance : Keyed BuildJobRow String := ⟨(·.id)⟩
instance : Keyed IdempotencyRow (String × String × String) :=
  ⟨fun row => (row.actor_subject, row.operation, row.key)⟩

structure Database where
  projects : Table ProjectRow
  memberships : Table ProjectMembershipRow
  access_requests : Table AccessRequestRow
  snapshots : Table SnapshotRow
  blobs : Table BlobRow
  files : Table SnapshotFileRow
  uploads : Table UploadSessionRow
  jobs : Table BuildJobRow
  idempotency : Table IdempotencyRow
  /-- How many builds have been claimed so far. -/
  claims : Nat

def Database.empty : Database where
  projects := .empty
  memberships := .empty
  access_requests := .empty
  snapshots := .empty
  blobs := .empty
  files := .empty
  uploads := .empty
  jobs := .empty
  idempotency := .empty
  claims := 0

/-- The rows that transactions lock, or the unique keys they insert. -/
inductive RowLock
  | project (id : String)
  | membership (id : String)
  | access_request (id : String)
  | job (id : String)
  | idempotency (actor operation key : String)
  | identifier (id : String)
  deriving DecidableEq, Repr

inductive ProjectError
  | ProjectNotFound (id : String)
  | UploadNotFound (id : String)
  | ProjectConflict (message : String)
  | AuthorizationError (message : String)
  | InvalidRequest (message : String)
  | IntegrityError
  deriving DecidableEq, Repr

/-- A transaction of the repository. -/
abbrev Transaction := Tx Database RowLock ProjectError

end lagraph.registry
