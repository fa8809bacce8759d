import LaGraph.Foundation.SortedSets
import LaGraph.Knowledge.Converters
import LaGraph.Projects.Uploads
import Mathlib.Algebra.Ring.Nat

open foundation foundation.Tx
open lagraph.sources (Bytes FormatRules convert_document media_type)

namespace lagraph.registry

/-- What a file name is checked by, apart from its format. -/
structure FilenameRules where
  nfc : String → String
  /-- The characters of the categories C. -/
  is_control : Char → Bool

structure ProjectStorage where
  root : String
  max_file_bytes : Nat
  max_extracted_bytes : Nat
  max_files : Nat
  max_total_bytes : Nat
  formats : FormatRules
  names : FilenameRules
  sha256 : Bytes → String

/-- A file of the storage. -/
structure StoredFile where
  path : String
  content : Bytes
  deriving DecidableEq, Repr

instance : Keyed StoredFile String := ⟨(·.path)⟩

abbrev Disk := Table StoredFile

variable (storage : ProjectStorage)

/-- `filename.strip()` leaves the name as it is. -/
def is_stripped (name : String) : Bool :=
  !(name.toList.head?.any storage.formats.is_space) &&
    !(name.toList.getLast?.any storage.formats.is_space)

/-- `validate_filename`. -/
def validate_filename (filename : String) : Except ProjectError Unit :=
  if filename = "" ∨ filename ∈ [".", ".."] ∨ is_stripped storage filename = false ∨
      '/' ∈ filename.toList ∨ '\\' ∈ filename.toList ∨ 255 < filename.utf8ByteSize ∨
      storage.names.nfc filename ≠ filename ∨
      filename.toList.any storage.names.is_control then
    .error (.InvalidRequest "The filename is invalid")
  else if (media_type storage.formats filename).isNone then
    .error (.InvalidRequest "The file format is unsupported")
  else .ok ()

/-- The latest snapshot of a project. -/
def latest_snapshot (db : Database) (project_id : String) : Option SnapshotRow :=
  (sorted.sortBy (fun a b => b.created_at ≤ a.created_at)
    (db.snapshots.rows.filter (·.project_id = project_id))).head?

def files_of (db : Database) (snapshot_id : String) : List SnapshotFileRow :=
  db.files.rows.filter (·.snapshot_id = snapshot_id)

/-- `list_files`. -/
def list_files (project_id : String) : Transaction (List SnapshotFileRow) := do
  let snapshot ← select fun db => latest_snapshot db project_id
  let snapshot ← orRaise snapshot (.ProjectConflict "The project has no visible file snapshot")
  select fun db => files_of db snapshot.id

/-- `get_upload_session`. -/
def get_upload_session (project_id session_id : String) : Transaction UploadSessionRow := do
  let row ← select fun db => (db.uploads.get session_id).filter (·.project_id = project_id)
  orRaise row (.UploadNotFound session_id)

/-- The files that stay beside the parts of a session: those of other names. -/
def kept_files (existing : List SnapshotFileRow) (parts : List UploadPartRow) :
    List SnapshotFileRow :=
  existing.filter fun file => file.logical_filename ∉ parts.map (·.logical_filename)

/-- How many files there are with the parts. -/
def final_count (existing : List SnapshotFileRow) (parts : List UploadPartRow) : Nat :=
  (((kept_files existing parts).map (·.logical_filename)) ++
    parts.map (·.logical_filename)).eraseDups.length

def final_total (existing : List SnapshotFileRow) (parts : List UploadPartRow) : Nat :=
  ((kept_files existing parts).map (·.size)).sum + (parts.map (·.expected_size)).sum

/-- The limits of a snapshot with the parts in it. -/
def within_limits (existing : List SnapshotFileRow) (parts : List UploadPartRow) : Bool :=
  final_count existing parts ≤ storage.max_files &&
    final_total existing parts ≤ storage.max_total_bytes

/-- What `validate_and_store` reads and checks before it touches a part: the parts to
store, none for a session that is finalized. -/
def check_upload (project_id session_id : String) (now : Moment) :
    Transaction (List UploadPartRow) := do
  let upload ← get_upload_session project_id session_id
  if upload.state = .finalized then pure []
  else do
    raiseIf (upload.state ≠ .opened ∨ upload.expires_at ≤ now)
      (.ProjectConflict "The upload session is not open")
    let existing ← list_files project_id
    raiseIf (storage.max_files < final_count existing upload.parts)
      (.InvalidRequest "The project exceeds the configured file-count limit")
    raiseIf (storage.max_total_bytes < final_total existing upload.parts)
      (.InvalidRequest "The project exceeds the configured aggregate-size limit")
    pure upload.parts

/-- Where the content of a part goes. -/
def blob_file (project_id sha256 : String) : String :=
  s!"{storage.root}/{project_id}/blobs/{sha256}"

end lagraph.registry
