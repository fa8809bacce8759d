import LaGraph.Projects.Storage

open foundation foundation.Tx
open lagraph.sources (Bytes convert_document)

namespace lagraph.registry

inductive StorageError
  | project (error : ProjectError)
  | FileNotFoundError (path : String)
  deriving DecidableEq, Repr

/-- `unlink(missing_ok=True)`. -/
def Disk.unlink (disk : Disk) (path : String) : Disk :=
  Table.delete disk (·.path = path)

/-- `os.replace` of a file that is there. -/
def Disk.replace (disk : Disk) (source : StoredFile) (target : String) : Disk :=
  Table.insert ((disk.unlink source.path).unlink target) { source with path := target }

variable (storage : ProjectStorage)

/-- Where a part is received, under a name that is drawn for it. -/
def part_file (project_id session_id name : String) : String :=
  s!"{storage.root}/{project_id}/uploads/{session_id}/{name}"

/-- `receive_part`, for a part as it was read with its session. -/
def receive_part (upload : UploadSessionRow) (part : UploadPartRow) (body : Bytes)
    (temporary : String) (now : Moment) (db : Database) (disk : Disk) :
    Except StorageError Unit × Database × Disk :=
  if part.state ≠ .pending then
    (.error (.project (.ProjectConflict "The upload part is no longer writable")), db, disk)
  else if upload.expires_at ≤ now then
    (.error (.project (.ProjectConflict "The upload session expired")), db, disk)
  else if storage.max_file_bytes < part.expected_size then
    (.error (.project (.InvalidRequest "The file exceeds the configured size limit")), db, disk)
  -- the temporary file of a body that is refused is removed again
  else if part.expected_size < body.length ∨ storage.max_file_bytes < body.length then
    (.error (.project (.InvalidRequest "The uploaded byte size is invalid")), db, disk)
  else if body.length ≠ part.expected_size ∨ storage.sha256 body ≠ part.expected_sha256 then
    (.error (.project (.InvalidRequest "The uploaded checksum or byte size does not match")),
      db, disk)
  else
    match (mark_part_uploaded part.id temporary body.length).transact db with
    | (.ok (), db) => (.ok (), db, Table.insert disk ⟨temporary, body⟩)
    | (.error e, db) => (.error (.project e), db, Table.insert disk ⟨temporary, body⟩)

/-- The path of a part that has been uploaded. -/
def UploadPartRow.uploaded_path (part : UploadPartRow) : Option String :=
  if part.state = .uploaded then part.temp_path.filter (· ≠ "") else none

/-- The checks of a part before its content is moved, and the file that it is in. -/
def check_part (disk : Disk) (part : UploadPartRow) : Except StorageError StoredFile :=
  match validate_filename storage part.logical_filename with
  | .error e => .error (.project e)
  | .ok () =>
    match part.uploaded_path with
    | none => .error (.project (.ProjectConflict "All upload parts must be uploaded"))
    | some path =>
      match disk.get path with
      | none => .error (.FileNotFoundError path)
      | some file =>
        if file.content.length ≠ part.expected_size ∨
            storage.sha256 file.content ≠ part.expected_sha256 then
          .error (.project (.InvalidRequest "An uploaded part failed final verification"))
        else
          match convert_document storage.formats part.logical_filename file.content
              storage.max_extracted_bytes with
          | .error _ => .error (.project (.InvalidRequest "The uploaded document is invalid"))
          | .ok _ => .ok file

/-- One round of the loop of `validate_and_store`. -/
def store_part (project_id : String) (disk : Disk) (part : UploadPartRow) :
    Except StorageError (String × String) × Disk :=
  match check_part storage disk part with
  | .error e => (.error e, disk)
  | .ok temporary =>
    let target := blob_file storage project_id part.expected_sha256
    (.ok (part.id, target),
      if (disk.get target).isSome then disk.unlink temporary.path
      else disk.replace temporary target)

/-- The loop of `validate_and_store`. What it has moved stays moved when it raises. -/
def store_parts (project_id : String) :
    List UploadPartRow → Disk → Except StorageError (List (String × String)) × Disk
  | [], disk => (.ok [], disk)
  | part :: parts, disk =>
    match store_part storage project_id disk part with
    | (.error e, disk) => (.error e, disk)
    | (.ok blob, disk) =>
      match store_parts project_id parts disk with
      | (.error e, disk) => (.error e, disk)
      | (.ok blobs, disk) => (.ok (blob :: blobs), disk)

variable {storage} {project_id : String} {disk disk' : Disk} {part : UploadPartRow}

theorem get_unlink (path other : String) :
    (disk.unlink path).get other = if other = path then none else disk.get other := by
  rw [Disk.unlink, Table.get_delete]
  cases hget : Table.get disk other with
  | none => simp
  | some file =>
    have hpath : file.path = other := (Table.get_eq_some.mp hget).2
    by_cases hsame : other = path
    · simp [Option.filter, hpath, hsame]
    · simp [Option.filter, hpath, hsame]

/-- What the move of a file to a place that is free, or its removal, does. -/
structure Moved (source target : String) (disk disk' : Disk) : Prop where
  gone : disk'.get source = none
  there : (disk'.get target).isSome
  other : ∀ path, path ≠ source → path ≠ target → disk'.get path = disk.get path

theorem Moved.of_unlink {source target : String} (hne : source ≠ target)
    (htarget : (disk.get target).isSome) : Moved source target disk (disk.unlink source) where
  gone := by rw [get_unlink, if_pos rfl]
  there := by rwa [get_unlink, if_neg hne.symm]
  other path hsource _ := by rw [get_unlink, if_neg hsource]

theorem Moved.of_replace {file : StoredFile} {target : String} (hne : file.path ≠ target) :
    Moved file.path target disk (disk.replace file target) := by
  have hfree : ((disk.unlink file.path).unlink target).get target = none := by
    rw [get_unlink, if_pos rfl]
  have hinsert : ∀ path, path ≠ target →
      (disk.replace file target).get path = ((disk.unlink file.path).unlink target).get path :=
    fun path hpath => Table.get_insert_of_ne (Ne.symm hpath)
  constructor
  case gone => rw [hinsert _ hne, get_unlink, if_neg hne, get_unlink, if_pos rfl]
  case there =>
    have hmem : { file with path := target } ∈ disk.replace file target :=
      (Table.mem_insert_of_fresh (Table.get_eq_none.mp hfree)).mpr (Or.inr rfl)
    have hget : (disk.replace file target).get target = some { file with path := target } :=
      Table.get_of_mem hmem
    rw [hget]
    rfl
  case other =>
    intro path hsource htarget
    rw [hinsert _ htarget, get_unlink, if_neg htarget, get_unlink, if_neg hsource]

/-- A part that passes its checks has its content in its temporary file. -/
theorem check_part_ok {file : StoredFile} (h : check_part storage disk part = .ok file) :
    part.uploaded_path = some file.path ∧ disk.get file.path = some file := by
  unfold check_part at h
  split at h
  · cases h
  · split at h
    · cases h
    · rename_i path hpath
      split at h
      · cases h
      · rename_i found hfound
        split at h
        · cases h
        · split at h
          · cases h
          · cases h
            have hkey : file.path = path := (Table.get_eq_some.mp hfound).2
            rw [hkey]
            exact ⟨hpath, hfound⟩

theorem temp_of_uploaded {path : String} (h : part.uploaded_path = some path) :
    part.temp_path = some path ∧ part.state = .uploaded := by
  unfold UploadPartRow.uploaded_path at h
  split at h
  · rename_i hstate
    exact ⟨(Option.filter_eq_some_iff.mp h).1, hstate⟩
  · cases h

/-- The checks of a part read its temporary file only. -/
theorem check_part_congr (h : ∀ path ∈ part.temp_path, disk'.get path = disk.get path) :
    check_part storage disk' part = check_part storage disk part := by
  unfold check_part
  split
  · rfl
  · split
    · rfl
    · rename_i path hpath
      rw [h path (temp_of_uploaded hpath).1]

/-- A part that passes its checks is moved to where its content goes. -/
theorem store_part_ok {file : StoredFile} (h : check_part storage disk part = .ok file)
    (hne : file.path ≠ blob_file storage project_id part.expected_sha256) :
    ∃ disk', store_part storage project_id disk part =
        (.ok (part.id, blob_file storage project_id part.expected_sha256), disk') ∧
      Moved file.path (blob_file storage project_id part.expected_sha256) disk disk' := by
  unfold store_part
  rw [h]
  refine ⟨_, rfl, ?_⟩
  split
  · rename_i htarget
    exact .of_unlink hne htarget
  · exact .of_replace hne

end lagraph.registry
