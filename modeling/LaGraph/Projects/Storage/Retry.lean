import LaGraph.Projects.Storage.Discovery
import LaGraph.Projects.Storage.Parts.Received
import LaGraph.Projects.Uploads.Finalization.Success

open foundation foundation.Tx

namespace lagraph.registry

/-- The route on both stores. Its checks read `db`; by the time it commits, the
database is `later`. -/
def FinalizeCall.attempt (storage : ProjectStorage) (call : FinalizeCall) (db later : Database)
    (disk : Disk) : Except StorageError Unit × Database × Disk :=
  match (call.check storage).run db with
  | .error e => (.error (.project e), later, disk)
  | .ok (parts, _) =>
    match store_parts storage call.project_id parts disk with
    | (.error e, disk) => (.error e, later, disk)
    | (.ok blobs, disk) =>
      match (call.commit blobs).transact later with
      | (.error e, later) => (.error (.project e), later, disk)
      | (.ok (), later) => (.ok (), later, disk)

/-- The parts of a session as they are declared and received. -/
structure Declared (storage : ProjectStorage) (call : FinalizeCall) (upload : UploadSessionRow) :
    Prop where
  received : Received storage call.project_id call.session_id upload.parts
  names : (upload.parts.map (·.logical_filename)).Nodup

/-- Since an attempt that took `disk` to `disk'`, what it raised for has been mended:
a part that could be stored is as the attempt left it, any other can be stored now. -/
structure Mended (storage : ProjectStorage) (disk disk' : Disk) (call : FinalizeCall)
    (upload : UploadSessionRow) (db₂ : Database) (disk₂ : Disk) : Prop where
  declared : Declared storage call upload
  checked : (call.check storage).run db₂ = .ok (upload.parts, db₂)
  admits : Admits call db₂ upload
  parts : ∀ part ∈ upload.parts,
    ((∃ file, check_part storage disk part = .ok file) ∧
      ∀ path ∈ part.temp_path, disk₂.get path = disk'.get path) ∨
    ∃ file, check_part storage disk₂ part = .ok file

/-- Every part of a session is one file of its snapshot, and its content is there. -/
def StoredOnce (storage : ProjectStorage) (call : FinalizeCall) (upload : UploadSessionRow)
    (db : Database) (disk : Disk) : Prop :=
  ∀ part ∈ upload.parts,
    (∃ file, files_named db upload.snapshot_id part.logical_filename = [file] ∧
      file.sha256 = part.expected_sha256 ∧ file.size = part.expected_size) ∧
    (disk.get (blob_file storage call.project_id part.expected_sha256)).isSome

/-- An attempt that raised has left the session and its parts as they were, and the
next one stores every part once. -/
structure Retryable (storage : ProjectStorage) (call : FinalizeCall) (db later later' : Database)
    (disk disk' : Disk) : Prop where
  session : later' = later
  parts : ∀ upload, db.uploads.get call.session_id = some upload →
    ∀ part ∈ upload.parts, ∀ path ∈ part.temp_path, disk'.get path = disk.get path
  retry : ∀ (call₂ : FinalizeCall) upload db₂ disk₂, call₂.project_id = call.project_id →
    call₂.session_id = call.session_id → Mended storage disk disk' call₂ upload db₂ disk₂ →
    ∃ db₃ disk₃, call₂.attempt storage db₂ db₂ disk₂ = (.ok (), db₃, disk₃) ∧
      StoredOnce storage call₂ upload db₃ disk₃

/-- The attempt fails before it has moved anything: at the checks of the session or at
its first part. -/
def fails_first (storage : ProjectStorage) (call : FinalizeCall) (db : Database) (disk : Disk) :
    Bool :=
  match (call.check storage).run db with
  | .error _ => true
  | .ok (parts, _) => parts.head?.all fun part => (check_part storage disk part).toOption.isNone

variable {storage : ProjectStorage} {call : FinalizeCall} {upload : UploadSessionRow}
  {db later later' : Database} {disk disk' : Disk} {e : StorageError}

/-- The parts that the checks hand on are those of the session. -/
theorem check_run {part : UploadPartRow} {parts : List UploadPartRow}
    (h : (call.check storage).run db = .ok (part :: parts, later)) :
    ∃ upload, db.uploads.get call.session_id = some upload ∧
      upload.project_id = call.project_id ∧ upload.parts = part :: parts := by
  unfold FinalizeCall.check check_upload get_upload_session at h
  rw [bind_bind, run_select_bind, run_orRaise_ok] at h
  obtain ⟨upload, hupload, h⟩ := h
  obtain ⟨hget, hproject⟩ := Option.filter_eq_some_iff.mp hupload
  refine ⟨upload, hget, of_decide_eq_true hproject, ?_⟩
  split at h
  · cases h
  · rw [run_raiseIf_ok, list_files, bind_bind, run_select_bind, bind_bind, run_orRaise_ok] at h
    obtain ⟨-, snapshot, -, h⟩ := h
    rw [run_select_bind, run_raiseIf_ok, run_raiseIf_ok] at h
    exact (Prod.mk.inj (Except.ok.inj h.2.2)).1

/-- The checks and the commit of a session whose parts can all be stored. -/
theorem attempt_stores {db₂ : Database} {disk₂ : Disk}
    (h : Mended storage disk disk call upload db₂ disk₂) :
    ∃ db₃ disk₃, call.attempt storage db₂ db₂ disk₂ = (.ok (), db₃, disk₃) ∧
      StoredOnce storage call upload db₃ disk₃ := by
  have hchecks : ∀ part ∈ upload.parts, ∃ file, check_part storage disk₂ part = .ok file := by
    intro part hpart
    cases h.parts part hpart with
    | inl hbefore =>
      rw [check_part_congr hbefore.2]
      exact hbefore.1
    | inr hnow => exact hnow
  obtain ⟨disk₃, hstored, hthere, -⟩ := store_parts_ok h.declared.received hchecks
  have hblobs : ∀ part ∈ upload.parts, (blob_path (upload.parts.map fun part =>
      (part.id, blob_file storage call.project_id part.expected_sha256)) part.id).isSome := by
    intro part hpart
    rw [blob_path, Option.isSome_map, List.find?_isSome]
    exact ⟨_, List.mem_reverse.mpr (List.mem_map_of_mem hpart), decide_eq_true rfl⟩
  obtain ⟨db₃, hrun, hfiles⟩ := commit_run h.admits h.declared.names hblobs
  refine ⟨db₃, disk₃, ?_, fun part hpart => ⟨hfiles part hpart, hthere part hpart⟩⟩
  rw [FinalizeCall.attempt, h.checked]
  simp only [hstored, transact_ok hrun]

theorem first_of_fails_late (h : fails_first storage call db disk = false) :
    ∃ part parts db' file, (call.check storage).run db = .ok (part :: parts, db') ∧
      check_part storage disk part = .ok file := by
  unfold fails_first at h
  split at h
  · cases h
  · rename_i parts db' hcheck
    cases parts with
    | nil => cases h
    | cons part parts =>
      rw [List.head?_cons, Option.all_some, Option.isNone_eq_false_iff] at h
      obtain ⟨file, hfile⟩ := Option.isSome_iff_exists.mp h
      exact ⟨part, parts, db', file, hcheck, results.mem_toOption.mp hfile⟩

/-- An attempt that fails first leaves everything as it was. -/
theorem attempt_of_fails_first
    (hraised : call.attempt storage db later disk = (.error e, later', disk'))
    (h : fails_first storage call db disk = true) : later' = later ∧ disk' = disk := by
  unfold FinalizeCall.attempt at hraised
  unfold fails_first at h
  cases hcheck : (call.check storage).run db with
  | error e =>
    rw [hcheck] at hraised
    cases hraised
    exact ⟨rfl, rfl⟩
  | ok checked =>
    obtain ⟨parts, db'⟩ := checked
    rw [hcheck] at hraised h
    cases parts with
    | nil =>
      simp only [store_parts] at hraised
      cases hcommit : (call.commit []).transact later with
      | mk result committed =>
        rw [hcommit] at hraised
        cases result with
        | ok _ => cases hraised
        | error e =>
          cases hraised
          exact ⟨transact_raised hcommit, rfl⟩
    | cons part parts =>
      cases hpart : check_part storage disk part with
      | ok file =>
        have hnone : (check_part storage disk part).toOption.isNone = true := h
        rw [hpart] at hnone
        cases hnone
      | error e =>
        simp only [store_parts_refused hpart] at hraised
        cases hraised
        exact ⟨rfl, rfl⟩

/-- An attempt whose first part can be stored takes away its temporary file. -/
theorem attempt_moves {parts : List UploadPartRow} {part : UploadPartRow} {file : StoredFile}
    {db' : Database} (hcheck : (call.check storage).run db = .ok (part :: parts, db'))
    (hreceived : Received storage call.project_id call.session_id (part :: parts))
    (hpart : check_part storage disk part = .ok file) :
    (call.attempt storage db later disk).2.2.get file.path = none := by
  have hgone := store_parts_moved hreceived hpart
  unfold FinalizeCall.attempt
  rw [hcheck]
  dsimp only
  cases hstored : store_parts storage call.project_id (part :: parts) disk with
  | mk result disk₁ =>
    rw [hstored] at hgone
    cases result with
    | error e => exact hgone
    | ok blobs =>
      dsimp only
      cases (call.commit blobs).transact later with
      | mk committed later' =>
        cases committed with
        | error e => exact hgone
        | ok _ => exact hgone

/-- A session of two parts, one of which has been received. -/
def half_uploaded (part_id : String) : Database :=
  let setup : Transaction Unit := do
    let _ ← create_project ⟨"pr", "mr", "sr"⟩ "ron" "Ron" "east" "kr" 0
    create_upload_session "ur" "pr" [⟨"front", "front.txt", "text/plain", 2, "2"⟩,
      ⟨"back", "back.txt", "text/plain", 2, "2"⟩] "ron" "kr" 100 1
    mark_part_uploaded part_id (part_file text_storage "pr" "ur" "half.part") 2
  (setup.transact Database.empty).2

def half_disk : Disk :=
  Table.insert .empty ⟨part_file text_storage "pr" "ur" "half.part", [0x6f, 0x6b]⟩

def finalize_half : FinalizeCall where
  project_id := "pr"
  session_id := "ur"
  subject := "ron"
  key := "kf"
  checked_at := 2
  now := 3
  new_ids := fun i => String.ofList (List.replicate (i + 1) 'f')

theorem half_declared {part_id : String}
    (hpaths : ∀ upload ∈ (half_uploaded part_id).uploads,
      (upload.parts.filterMap (·.temp_path)) = [part_file text_storage "pr" "ur" "half.part"] ∧
        upload.parts.map (·.logical_filename) = ["front.txt", "back.txt"]) :
    ∀ upload, (half_uploaded part_id).uploads.get finalize_half.session_id = some upload →
      upload.project_id = finalize_half.project_id → Declared text_storage finalize_half upload := by
  intro upload hupload _
  obtain ⟨htemps, hnames⟩ := hpaths upload (Table.get_eq_some.mp hupload).1
  refine ⟨⟨fun part hpart path hpath => ⟨"half.part", ?_⟩, ?_⟩, ?_⟩
  · have hmem := List.mem_filterMap.mpr ⟨part, hpart, hpath⟩
    rw [htemps] at hmem
    exact List.mem_singleton.mp hmem
  · rw [htemps]
    exact List.nodup_singleton _
  · rw [hnames]
    decide

end lagraph.registry
