import LaGraph.Foundation.Runs
import LaGraph.Projects.Storage.Parts
import Mathlib.Logic.Function.Basic

open foundation
open lagraph.sources (Bytes)

namespace lagraph.registry

/-- A file in the directory of an upload, with the request that made it. -/
structure PartFile where
  path : String
  content : Bytes
  creator : Option Nat
  deriving DecidableEq, Repr

instance : Keyed PartFile String := ⟨(·.path)⟩

/-- What a request to receive a part raises. -/
inductive ReceiveError
  | project (error : ProjectError)
  /-- The stream, a write, the database or a cancellation. -/
  | outside
  deriving DecidableEq, Repr

/-- How far a request has come. -/
inductive Phase
  | waiting
  /-- The record of the part is read. -/
  | loaded (part : UploadPartRow)
  /-- The body is streamed into the temporary file. -/
  | streaming (part : UploadPartRow) (temporary : String) (received : Bytes)
  /-- Size and checksum are those declared. -/
  | verified (part : UploadPartRow) (temporary : String) (received : Bytes)
  /-- The temporary file is to be removed before the error is raised. -/
  | removing (temporary : String) (error : ReceiveError)
  | returned
  | raised (error : ReceiveError)

/-- The part's row, the files, the requests to receive the part, and those that have marked it. -/
structure PutState where
  row : UploadPartRow
  disk : Table PartFile
  requests : Nat → Phase
  marks : List Nat

/-- How the transaction that marks the part ends. -/
inductive MarkEnd
  | returns
  /-- It raises, and nothing is committed. -/
  | fails
  /-- It is committed, and raises all the same: its reply is lost or awaited no more. -/
  | lost
  deriving DecidableEq

/-- The steps of a request. -/
inductive PutEvent
  | load (request : Nat)
  | accept (request : Nat) (now : Moment) (name : String)
  | chunk (request : Nat) (data : Bytes)
  /-- The body ends. -/
  | close (request : Nat)
  /-- Something raises before the part is marked. -/
  | fail (request : Nat)
  /-- The removal of the temporary file; it may be cancelled before a thread runs it. -/
  | unlink (request : Nat) (ran : Bool)
  | mark (request : Nat) (fate : MarkEnd)

variable (storage : ProjectStorage) (upload : UploadSessionRow)

/-- The checks before a temporary file is made. -/
def refusal (part : UploadPartRow) (now : Moment) : Option ProjectError :=
  if part.state ≠ .pending then
    some (.ProjectConflict "The upload part is no longer writable")
  else if upload.expires_at ≤ now then some (.ProjectConflict "The upload session expired")
  else if storage.max_file_bytes < part.expected_size then
    some (.InvalidRequest "The file exceeds the configured size limit")
  else none

def PutState.go (s : PutState) (request : Nat) (phase : Phase) : PutState :=
  { s with requests := Function.update s.requests request phase }

@[simp] theorem PutState.go_requests_self (s : PutState) (request : Nat) (phase : Phase) :
    (s.go request phase).requests request = phase := Function.update_self _ _ _

/-- A row that is written by a request. -/
def PutState.marked (s : PutState) (request : Nat) (part : UploadPartRow) (temporary : String)
    (received : Bytes) : PutState :=
  { s with
    row := s.row.received part.id temporary received.length
    marks := request :: s.marks }

theorem append_key (data : Bytes) (file : PartFile) :
    Keyed.key { file with content := file.content ++ data } = Keyed.key file := rfl

/-- `_write_all` at the end of a file. -/
def write_all (disk : Table PartFile) (path : String) (data : Bytes) : Table PartFile :=
  disk.update (·.path = path) (fun file => { file with content := file.content ++ data })
    (append_key data)

/-- A step of a request to `upload_part`, if it can be taken. -/
def put_step (s : PutState) : PutEvent → Option PutState
  | .load request =>
    match s.requests request with
    | .waiting => some (s.go request (.loaded s.row))
    | _ => none
  | .accept request now name =>
    match s.requests request with
    | .loaded part =>
      match refusal storage upload part now with
      | some error => some (s.go request (.raised (.project error)))
      | none =>
        let temporary := part_file storage upload.project_id upload.id name
        -- the name is drawn until it is free
        if (s.disk.get temporary).isSome then none
        else some { s.go request (.streaming part temporary []) with
          disk := s.disk.insert ⟨temporary, [], some request⟩ }
    | _ => none
  | .chunk request data =>
    match s.requests request with
    | .streaming part temporary received =>
      if data = [] then some s
      else if part.expected_size < received.length + data.length ∨
          storage.max_file_bytes < received.length + data.length then
        some (s.go request (.removing temporary
          (.project (.InvalidRequest "The uploaded byte size is invalid"))))
      else some { s.go request (.streaming part temporary (received ++ data)) with
        disk := write_all s.disk temporary data }
    | _ => none
  | .close request =>
    match s.requests request with
    | .streaming part temporary received =>
      if received.length ≠ part.expected_size ∨
          storage.sha256 received ≠ part.expected_sha256 then
        some (s.go request (.removing temporary
          (.project (.InvalidRequest "The uploaded checksum or byte size does not match"))))
      else some (s.go request (.verified part temporary received))
    | _ => none
  | .fail request =>
    match s.requests request with
    | .waiting | .loaded _ => some (s.go request (.raised .outside))
    | .streaming _ temporary _ => some (s.go request (.removing temporary .outside))
    | _ => none
  | .unlink request ran =>
    match s.requests request with
    | .removing temporary error =>
      some { s.go request (.raised error) with
        disk := if ran then s.disk.delete (·.path = temporary) else s.disk }
    | _ => none
  | .mark request fate =>
    match s.requests request with
    | .verified part temporary received =>
      if fate = .fails then some (s.go request (.raised .outside))
      else if s.row.id = part.id ∧ s.row.state = .pending then
        some ((s.marked request part temporary received).go request
          (if fate = .returns then .returned else .raised .outside))
      else
        -- the temporary file stays
        some (s.go request
          (.raised (.project (.ProjectConflict "The upload part is no longer writable"))))
    | _ => none

/-- Before the first request: the part is pending, and no file is from a request. -/
structure Fresh (s : PutState) : Prop where
  pending : s.row.state = .pending
  marks : s.marks = []
  requests : ∀ request, s.requests request = .waiting
  disk : ∀ file ∈ s.disk, file.creator = none

end lagraph.registry
