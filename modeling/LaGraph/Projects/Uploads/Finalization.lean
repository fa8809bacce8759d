import LaGraph.Foundation.Interleaving.Rely
import LaGraph.Projects.Uploads.Replacement

open foundation foundation.Tx

namespace lagraph.registry

/-- A call to finalize an upload session, with the moments of its checks and of its
commit and the identifiers drawn for the files. -/
structure FinalizeCall where
  project_id : String
  session_id : String
  subject : String
  key : String
  checked_at : Moment
  now : Moment
  new_ids : Nat → String

/-- The unique key of the record of a call. -/
def FinalizeCall.record_key (call : FinalizeCall) : String × String × String :=
  (call.subject, s!"finalize_upload:{call.session_id}", call.key)

def FinalizeCall.record (call : FinalizeCall) : IdempotencyRow where
  actor_subject := call.subject
  operation := s!"finalize_upload:{call.session_id}"
  key := call.key
  resource_id := call.session_id

def FinalizeCall.check (storage : ProjectStorage) (call : FinalizeCall) :
    Transaction (List UploadPartRow) :=
  check_upload storage call.project_id call.session_id call.checked_at

def FinalizeCall.commit (call : FinalizeCall) (blobs : List (String × String)) :
    Transaction Unit :=
  finalize_upload call.project_id call.session_id blobs call.new_ids call.subject call.key call.now

/-- A call with what the storage makes of the parts. -/
structure FinalizeRequest extends FinalizeCall where
  stored : List UploadPartRow → Except ProjectError (List (String × String))

/-- The route. Its checks hold no locks, so that they and the transaction that
commits are one sequence of statements. -/
def FinalizeRequest.perform (storage : ProjectStorage) (request : FinalizeRequest) :
    Transaction Unit := do
  let parts ← request.check storage
  match request.stored parts with
  | .error e => raise e
  | .ok blobs => request.commit blobs

/-- The parts with the identifiers drawn for their files. -/
def drawn (parts : List UploadPartRow) (new_ids : Nat → String) : List (UploadPartRow × String) :=
  parts.zipIdx.map fun item => (item.1, new_ids item.2)

theorem drawn_parts (parts : List UploadPartRow) (new_ids : Nat → String) :
    (drawn parts new_ids).map (·.1) = parts := by
  rw [drawn, List.map_map]
  exact List.zipIdx_map_fst 0 parts

theorem drawn_ids (parts : List UploadPartRow) (new_ids : Nat → String) :
    (drawn parts new_ids).map (·.2) = (List.range parts.length).map new_ids := by
  rw [drawn, List.map_map, List.range_eq_range', ← List.zipIdx_map_snd, List.map_map]
  rfl

/-- What no finalization changes of the sessions. -/
def declared (db : Database) : List UploadSessionRow :=
  db.uploads.rows.map fun row => { row with state := .opened }

theorem declared_mem {d d' : Database} (h : declared d' = declared d) {upload : UploadSessionRow}
    (hupload : upload ∈ d.uploads) :
    ∃ upload' ∈ d'.uploads, upload'.id = upload.id ∧ upload'.project_id = upload.project_id ∧
      upload'.snapshot_id = upload.snapshot_id ∧ upload'.parts = upload.parts := by
  have hmem : { upload with state := .opened } ∈ declared d' :=
    h ▸ List.mem_map_of_mem (f := fun row : UploadSessionRow => { row with state := .opened })
      hupload
  obtain ⟨upload', hupload', hsame⟩ := List.mem_map.mp hmem
  rw [UploadSessionRow.mk.injEq] at hsame
  exact ⟨upload', hupload', hsame.1, hsame.2.1, hsame.2.2.1, hsame.2.2.2.2.2.2⟩

theorem declared_update {p : UploadSessionRow → Bool} {f : UploadSessionRow → UploadSessionRow}
    {hf : ∀ row, Keyed.key (f row) = Keyed.key row}
    (h : ∀ row, ({ f row with state := .opened } : UploadSessionRow) = { row with state := .opened })
    (db : Database) : declared { db with uploads := db.uploads.update p f hf } = declared db := by
  rw [declared, declared, Table.update, List.map_map]
  refine List.map_congr_left fun row _ => ?_
  rw [Function.comp]
  split
  · exact h row
  · rfl

/-- Every session that writes a snapshot is one of the project. -/
def SessionsOf (project_id snapshot_id : String) (db : Database) : Prop :=
  ∀ upload ∈ db.uploads, upload.snapshot_id = snapshot_id → upload.project_id = project_id

theorem SessionsOf.of_declared {project_id snapshot_id : String} {d d' : Database}
    (h : SessionsOf project_id snapshot_id d) (hsame : declared d' = declared d) :
    SessionsOf project_id snapshot_id d' := by
  intro upload hupload hsnapshot
  obtain ⟨upload', hupload', -, hproject, hsnapshot', -⟩ := declared_mem hsame.symm hupload
  rw [← hproject]
  exact h upload' hupload' (hsnapshot'.trans hsnapshot)

variable {project_id snapshot_id : String} {held : List RowLock} {d d' : Database}

/-- Finalizations change the files of a snapshot only with the lock of its project,
and take no identifier or key whose lock another one holds. -/
structure OthersFinalize (project_id snapshot_id : String) (held : List RowLock)
    (d d' : Database) : Prop where
  files : RowLock.project project_id ∈ held → files_of d' snapshot_id = files_of d snapshot_id
  sessions : declared d' = declared d
  identifier : ∀ id, RowLock.identifier id ∈ held →
    d.files.get id = none → d'.files.get id = none
  key : ∀ actor operation key, RowLock.idempotency actor operation key ∈ held →
    d.idempotency.get (actor, operation, key) = none →
    d'.idempotency.get (actor, operation, key) = none

theorem others_finalize_rely : Rely (OthersFinalize project_id snapshot_id) where
  refl _ _ := ⟨fun _ => rfl, rfl, fun _ _ h => h, fun _ _ _ _ h => h⟩
  trans _ _ _ _ h h' :=
    ⟨fun hlock => (h'.files hlock).trans (h.files hlock), h'.sessions.trans h.sessions,
      fun id hid hnone => h'.identifier id hid (h.identifier id hid hnone),
      fun actor operation key hkey hnone =>
        h'.key actor operation key hkey (h.key actor operation key hkey hnone)⟩

/-- With fewer locks there is less to rely on. -/
theorem OthersFinalize.mono {row : RowLock}
    (h : OthersFinalize project_id snapshot_id (row :: held) d d') :
    OthersFinalize project_id snapshot_id held d d' :=
  ⟨fun hlock => h.files (List.mem_cons_of_mem _ hlock), h.sessions,
    fun id hid => h.identifier id (List.mem_cons_of_mem _ hid),
    fun actor operation key hkey => h.key actor operation key (List.mem_cons_of_mem _ hkey)⟩

/-- What the changes of a finalization leave as it is, whatever they are applied to. -/
structure Frame (held : List RowLock) (pending : Database → Database) : Prop where
  sessions : ∀ e, declared (pending e) = declared e
  idempotency : ∀ e, (pending e).idempotency = e.idempotency
  identifiers : ∀ e id, e.files.get id = none → (pending e).files.get id ≠ none →
    RowLock.identifier id ∈ held

/-- The changes to the files of a snapshot while others may commit. -/
structure Settled (project_id snapshot_id : String) (held : List RowLock)
    (pending : Database → Database) (d : Database) : Prop where
  files : ∀ e, OthersFinalize project_id snapshot_id held d e →
    files_of (pending e) snapshot_id = files_of (pending d) snapshot_id
  unused : ∀ e e', OthersFinalize project_id snapshot_id held d e →
    OthersFinalize project_id snapshot_id held e e' → ∀ id,
    (e.files.get id = none → e'.files.get id = none) →
    (pending e).files.get id = none → (pending e').files.get id = none

/-- The deletion of a name from a snapshot. -/
def delete_name (snapshot_id name : String) (view db : Database) : Database :=
  { db with
    files := db.files.delete (view.files.matching fun row =>
      row.snapshot_id = snapshot_id && row.logical_filename = name) }

theorem files_of_delete {view : Database} {name : String}
    (h : files_of view snapshot_id = files_of d snapshot_id) :
    files_of (delete_name snapshot_id name view d) snapshot_id =
      (files_of d snapshot_id).filter (·.logical_filename ≠ name) := by
  rw [files_of, files_of, List.filter_filter, delete_name, Table.delete, List.filter_filter]
  refine List.filter_congr fun row hrow => ?_
  by_cases hsnapshot : row.snapshot_id = snapshot_id
  case neg => simp [hsnapshot]
  case pos =>
    have hview : row ∈ view.files := by
      have hmem : row ∈ files_of view snapshot_id :=
        h ▸ List.mem_filter.mpr ⟨hrow, decide_eq_true hsnapshot⟩
      exact (List.mem_filter.mp hmem).1
    rw [Table.matching_of_mem hview]
    simp [hsnapshot]

theorem files_of_delete_other {view : Database} {other name : String} (h : other ≠ snapshot_id) :
    files_of (delete_name other name view d) snapshot_id = files_of d snapshot_id := by
  rw [files_of, files_of, delete_name, Table.delete, List.filter_filter]
  refine List.filter_congr fun row hrow => ?_
  by_cases hsnapshot : row.snapshot_id = snapshot_id
  · simp [hsnapshot, Table.matching, Ne.symm h]
  · simp [hsnapshot]

theorem get_delete_name {view : Database} {name id : String}
    (h : (delete_name snapshot_id name view d).files.get id ≠ none) :
    d.files.get id ≠ none := by
  intro hnone
  rw [delete_name, Table.get_delete, hnone] at h
  exact h rfl

def insert_file (row : SnapshotFileRow) (db : Database) : Database :=
  { db with files := db.files.insert row }

theorem files_of_insert {row : SnapshotFileRow} (h : d.files.get row.id = none) :
    files_of (insert_file row d) snapshot_id =
      files_of d snapshot_id ++ if row.snapshot_id = snapshot_id then [row] else [] := by
  rw [files_of, files_of, insert_file, Table.insert_of_fresh (Table.get_eq_none.mp h),
    List.filter_append, List.filter_singleton]
  simp

theorem files_of_insert_other {row : SnapshotFileRow} (h : row.snapshot_id ≠ snapshot_id) :
    files_of (insert_file row d) snapshot_id = files_of d snapshot_id := by
  cases hget : d.files.get row.id with
  | none => rw [files_of_insert hget, if_neg h, List.append_nil]
  | some old =>
    obtain ⟨hold, hkey⟩ := Table.get_eq_some.mp hget
    rw [files_of, insert_file, Table.insert_of_taken hold hkey, files_of]

theorem get_insert_self {row : SnapshotFileRow} :
    (insert_file row d).files.get row.id ≠ none := by
  intro hnone
  cases hget : d.files.get row.id with
  | none =>
    have hmem : row ∈ d.files.insert row :=
      (Table.mem_insert_of_fresh (Table.get_eq_none.mp hget)).mpr (Or.inr rfl)
    exact Table.get_eq_none.mp hnone row hmem rfl
  | some old =>
    obtain ⟨hold, hkey⟩ := Table.get_eq_some.mp hget
    exact Table.get_eq_none.mp hnone old (Table.mem_insert_left hold) hkey

theorem get_insert_file {row : SnapshotFileRow} {id : String}
    (h : (insert_file row d).files.get id ≠ none) : d.files.get id ≠ none ∨ row.id = id := by
  by_cases hid : row.id = id
  · exact Or.inr hid
  · rw [insert_file, Table.get_insert_of_ne hid] at h
    exact Or.inl h

end lagraph.registry
