import LaGraph.Projects.Repository

open foundation foundation.Tx

namespace lagraph.registry

/-- A declared file, with the identifier drawn for its part. -/
structure UploadFileDeclaration where
  part_id : String
  filename : String
  media_type : String
  size : Nat
  sha256 : String
  deriving DecidableEq, Repr

def UploadFileDeclaration.part (declaration : UploadFileDeclaration) : UploadPartRow where
  id := declaration.part_id
  logical_filename := declaration.filename
  media_type := declaration.media_type
  expected_size := declaration.size
  expected_sha256 := declaration.sha256
  temp_path := none
  received_size := none
  state := .pending

/-- `create_upload_session`. -/
def create_upload_session (id project_id : String) (declarations : List UploadFileDeclaration)
    (subject key : String) (upload_ttl now : Moment) : Transaction Unit := do
  let operation := s!"create_upload_session:{project_id}"
  let prior ← idempotent_resource subject operation key
  whenever (truthy prior = false) do
    let project ← project_for_update project_id
    raiseIf (project.state.locked = true) (.ProjectConflict "The project draft is not editable")
    let draft ← draft project_id
    add_upload
      { id, project_id, snapshot_id := draft.id, created_by := subject, state := .opened,
        expires_at := now + upload_ttl, parts := declarations.map (·.part) }
    remember subject operation key id

/-- A write of columns of the upload sessions that `p` selects. -/
def update_uploads (p : UploadSessionRow → Bool) (f : UploadSessionRow → UploadSessionRow)
    (hf : ∀ row, (f row).id = row.id) : Transaction Unit :=
  execute fun view db => { db with
    uploads := db.uploads.update (view.uploads.matching p) f hf }

/-- A pending part that has been received. -/
def UploadPartRow.received (part : UploadPartRow) (part_id temp_path : String) (size : Nat) :
    UploadPartRow :=
  if part.id = part_id ∧ part.state = .pending then
    { part with state := .uploaded, temp_path := some temp_path, received_size := some size }
  else part

/-- `mark_part_uploaded`. -/
def mark_part_uploaded (part_id temp_path : String) (size : Nat) : Transaction Unit := do
  let matched ← select fun db => db.uploads.rows.any fun row =>
    row.parts.any fun part => part.id = part_id && part.state = .pending
  raiseIf (matched = false) (.ProjectConflict "The upload part is no longer writable")
  update_uploads (fun _ => true)
    (fun row => { row with parts := row.parts.map (·.received part_id temp_path size) })
    (fun _ => rfl)

/-- A file of a snapshot as its part declared it. -/
def UploadPartRow.file (part : UploadPartRow) (id snapshot_id project_id : String)
    (now : Moment) : SnapshotFileRow where
  id := id
  snapshot_id := snapshot_id
  project_id := project_id
  logical_filename := part.logical_filename
  media_type := part.media_type
  size := part.expected_size
  sha256 := part.expected_sha256
  lifecycle_status := .uploaded
  progress_percent := 0
  error_code := none
  uploaded_at := now

/-- The path of a part's content, the last one given. -/
def blob_path (blobs : List (String × String)) (part_id : String) : Option String :=
  (blobs.reverse.find? (·.1 = part_id)).map (·.2)

/-- The file of a part replaces the file of that name in the snapshot. -/
def write_part (project_id snapshot_id : String) (blobs : List (String × String))
    (now : Moment) (item : UploadPartRow × String) : Transaction Unit := do
  let path ← orRaise (blob_path blobs item.1.id)
    (.ProjectConflict "Upload validation is incomplete")
  let existing_blob ← select fun db => db.blobs.get (project_id, item.1.expected_sha256)
  whenever (existing_blob = none) do
    execute fun _ db => { db with
      blobs := db.blobs.insert
        { project_id, sha256 := item.1.expected_sha256, size := item.1.expected_size,
          storage_path := path } }
  execute fun view db => { db with
    files := db.files.delete (view.files.matching fun row =>
      row.snapshot_id = snapshot_id && row.logical_filename = item.1.logical_filename) }
  add_file (item.1.file item.2 snapshot_id project_id now)

/-- `finalize_upload`; `new_ids` are the identifiers drawn for the files. The listing
that it returns is read after the commit. -/
def finalize_upload (project_id session_id : String) (blobs : List (String × String))
    (new_ids : Nat → String) (subject key : String) (now : Moment) : Transaction Unit := do
  let operation := s!"finalize_upload:{session_id}"
  let prior ← idempotent_resource subject operation key
  whenever (truthy prior = false) do
    let upload ← select fun db =>
      (db.uploads.get session_id).filter (·.project_id = project_id)
    let upload ← orRaise upload (.UploadNotFound session_id)
    raiseIf (upload.state ≠ .opened ∨ upload.expires_at ≤ now)
      (.ProjectConflict "The upload session is not open")
    -- the session was read before the lock of its project is taken
    let project ← project_for_update project_id
    raiseIf (project.state.locked = true) (.ProjectConflict "The project draft is not editable")
    raiseIf (∃ part ∈ upload.parts, part.state ≠ .uploaded)
      (.ProjectConflict "All upload parts must be uploaded")
    forEach (write_part project_id upload.snapshot_id blobs now)
      (upload.parts.zipIdx.map fun item => (item.1, new_ids item.2))
    update_uploads (·.id = upload.id) (fun row => { row with state := .finalized }) (fun _ => rfl)
    update_project project.id (fun row => { row with updated_at := now }) (fun _ => rfl)
    remember subject operation key session_id

/-- `delete_file`. -/
def delete_file (project_id file_id : String) (now : Moment) : Transaction Unit := do
  let project ← project_for_update project_id
  raiseIf (project.state.locked = true) (.ProjectConflict "The project draft is not editable")
  let draft ← draft project_id
  let matched ← select fun db => (db.files.get file_id).any (·.snapshot_id = draft.id)
  raiseIf (matched = false) (.UploadNotFound file_id)
  execute fun view db => { db with
    files := db.files.delete (view.files.matching fun row =>
      row.id = file_id && row.snapshot_id = draft.id) }
  update_project project.id (fun row => { row with updated_at := now }) (fun _ => rfl)

/-- `cleanup_expired_uploads`. -/
def cleanup_expired_uploads (now : Moment) : Transaction Unit :=
  update_uploads (fun row => row.state = .opened && row.expires_at < now)
    (fun row => { row with state := .expired }) (fun _ => rfl)

end lagraph.registry
