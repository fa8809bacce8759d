import LaGraph.Projects.Snapshots

open foundation foundation.Tx

namespace lagraph.registry

variable {records : List BuildRecord} {db : Database}

/-- `Linked` holds of whatever a transaction leaves. -/
abbrev KeepsLinks (records : List BuildRecord) {α : Type} (t : Transaction α) (db : Database) :
    Prop :=
  Yields (fun _ => Linked records) t db

section Narrows

variable {project_rule : ProjectRow → Bool} {project_change : ProjectRow → ProjectRow}
  {snapshot_rule : SnapshotRow → Bool} {snapshot_change : SnapshotRow → SnapshotRow}
  {file_rule : SnapshotFileRow → Bool} {file_change : SnapshotFileRow → SnapshotFileRow}
  {upload_rule : UploadSessionRow → Bool} {upload_change : UploadSessionRow → UploadSessionRow}
  {job_rule : BuildJobRow → Bool} {job_change : BuildJobRow → BuildJobRow}

theorem narrows_update_projects (hf : ∀ row, (project_change row).id = row.id) :
    Narrows db { db with projects := db.projects.update project_rule project_change hf } where
  __ := Narrows.refl db
  projects _ hrow := Table.exists_of_mem_update (R := fun row row' => row.id = row'.id)
    hf (fun _ => rfl) (fun row => (hf row).symm) hrow
  blobs _ _ _ h := h

theorem narrows_update_snapshots (hf : ∀ row, (snapshot_change row).id = row.id)
    (hproject : ∀ row, (snapshot_change row).project_id = row.project_id) :
    Narrows db { db with snapshots := db.snapshots.update snapshot_rule snapshot_change hf } where
  __ := Narrows.refl db
  snapshots _ hrow := Table.exists_of_mem_update
    (R := fun row row' => row.id = row'.id ∧ row.project_id = row'.project_id)
    hf (fun _ => ⟨rfl, rfl⟩) (fun row => ⟨(hf row).symm, (hproject row).symm⟩) hrow

theorem narrows_update_files (hf : ∀ row, (file_change row).id = row.id)
    (hsame : ∀ row : SnapshotFileRow, row.Same (file_change row)) :
    Narrows db { db with files := db.files.update file_rule file_change hf } where
  __ := Narrows.refl db
  files _ hrow := Table.exists_of_mem_update hf .refl hsame hrow

theorem narrows_update_uploads (hf : ∀ row, (upload_change row).id = row.id)
    (hsame : ∀ row, row.snapshot_id = (upload_change row).snapshot_id ∧
      row.project_id = (upload_change row).project_id) :
    Narrows db { db with uploads := db.uploads.update upload_rule upload_change hf } where
  __ := Narrows.refl db
  uploads _ hrow := Table.exists_of_mem_update
    (R := fun row row' => row.snapshot_id = row'.snapshot_id ∧ row.project_id = row'.project_id)
    hf (fun _ => ⟨rfl, rfl⟩) hsame hrow

theorem narrows_update_jobs (hf : ∀ row, (job_change row).id = row.id)
    (hsame : ∀ row, row.snapshot_id = (job_change row).snapshot_id ∧
      row.project_id = (job_change row).project_id) :
    Narrows db { db with jobs := db.jobs.update job_rule job_change hf } where
  __ := Narrows.refl db
  jobs _ hrow := Table.exists_of_mem_update
    (R := fun row row' => row.snapshot_id = row'.snapshot_id ∧ row.project_id = row'.project_id)
    hf (fun _ => ⟨rfl, rfl⟩) hsame hrow

theorem narrows_delete_files : Narrows db { db with files := db.files.delete file_rule } where
  __ := Narrows.refl db
  files := fun row hrow => ⟨row, (Table.mem_delete.mp hrow).1, .refl row⟩

/-- What is no file, blob, snapshot, upload, job or project may change. -/
theorem narrows_of_same {db' : Database} (hprojects : db'.projects = db.projects)
    (hsnapshots : db'.snapshots = db.snapshots) (hfiles : db'.files = db.files)
    (huploads : db'.uploads = db.uploads) (hjobs : db'.jobs = db.jobs)
    (hblobs : db'.blobs = db.blobs) : Narrows db db' where
  projects row hrow := ⟨row, hprojects ▸ hrow, rfl⟩
  snapshots row hrow := ⟨row, hsnapshots ▸ hrow, rfl, rfl⟩
  files row hrow := ⟨row, hfiles ▸ hrow, .refl row⟩
  uploads row hrow := ⟨row, huploads ▸ hrow, rfl, rfl⟩
  jobs row hrow := ⟨row, hjobs ▸ hrow, rfl, rfl⟩
  blobs _ _ _ h := by
    rw [HasBlob, hblobs]
    exact h

end Narrows

section Inserts

theorem add_row_yields {ρ : Type} [Keyed ρ String] {table : Database → Table ρ}
    {put : Database → Table ρ → Database} {row : ρ} {Q : Unit → Database → Prop}
    (h : (table db).get (Keyed.key row) = none → Q () (put db ((table db).insert row))) :
    Yields Q (add_row table put row) db := by
  unfold add_row
  refine Yields.acquire_bind (Yields.select_bind (Yields.raiseIf_bind fun hfree => ?_))
  exact h (by simpa using hfree)

/-- A row that a table takes is one under a key that was free. -/
theorem add_row_bind {ρ α : Type} [Keyed ρ String] {table : Database → Table ρ}
    {put : Database → Table ρ → Database} {row : ρ} {k : Unit → Transaction α}
    {Q : α → Database → Prop}
    (h : (table db).get (Keyed.key row) = none →
      Yields Q (k ()) (put db ((table db).insert row))) :
    Yields Q (add_row table put row >>= k) db := by
  unfold add_row
  simp only [bind_bind]
  refine Yields.acquire_bind (Yields.select_bind (Yields.raiseIf_bind fun hfree =>
    Yields.execute_bind ?_))
  exact h (by simpa using hfree)

theorem Linked.insert_project {row : ProjectRow} (h : Linked records db)
    (hunused : ∀ file ∈ db.files, file.project_id ≠ row.id) :
    Linked records { db with projects := db.projects.insert row } where
  __ := h
  blobs := by
    intro file hfile hproject
    obtain ⟨project, hmem, hid⟩ := hproject
    refine h.blobs file hfile ⟨project, ?_, hid⟩
    cases Table.mem_insert hmem with
    | inl hmem => exact hmem
    | inr hnew => exact absurd (hnew ▸ hid).symm (hunused file hfile)

theorem fits_insert_snapshot {row : SnapshotRow} {snapshot_id project_id : String}
    (h : Fits db snapshot_id project_id)
    (hrow : row.id = snapshot_id → row.project_id = project_id) :
    Fits { db with snapshots := db.snapshots.insert row } snapshot_id project_id := by
  intro snapshot hsnapshot hid
  cases Table.mem_insert hsnapshot with
  | inl hold => exact h snapshot hold hid
  | inr hnew =>
    rw [hnew] at hid ⊢
    exact hrow hid

theorem Linked.insert_snapshot {row : SnapshotRow} (h : Linked records db)
    (hunnamed : Unnamed records db row.id) :
    Linked records { db with snapshots := db.snapshots.insert row } where
  __ := h
  files file hfile :=
    fits_insert_snapshot (h.files file hfile) fun hid => absurd hid.symm (hunnamed.files file hfile)
  uploads upload hupload :=
    fits_insert_snapshot (h.uploads upload hupload) fun hid =>
      absurd hid.symm (hunnamed.uploads upload hupload)
  jobs job hjob :=
    fits_insert_snapshot (h.jobs job hjob) fun hid => absurd hid.symm (hunnamed.jobs job hjob)
  records record hrecord :=
    fits_insert_snapshot (h.records record hrecord) fun hid =>
      absurd hid.symm (hunnamed.records record hrecord)

theorem Linked.insert_upload {row : UploadSessionRow} (h : Linked records db)
    (hfits : Fits db row.snapshot_id row.project_id) :
    Linked records { db with uploads := db.uploads.insert row } where
  __ := h
  uploads := by
    intro upload hupload
    cases Table.mem_insert hupload with
    | inl hold => exact h.uploads upload hold
    | inr hnew =>
      rw [hnew]
      exact hfits

theorem Linked.insert_job {row : BuildJobRow} (h : Linked records db)
    (hfits : Fits db row.snapshot_id row.project_id) :
    Linked records { db with jobs := db.jobs.insert row } where
  __ := h
  jobs := by
    intro job hjob
    cases Table.mem_insert hjob with
    | inl hold => exact h.jobs job hold
    | inr hnew =>
      rw [hnew]
      exact hfits

theorem Linked.insert_file {row : SnapshotFileRow} (h : Linked records db)
    (hfits : Fits db row.snapshot_id row.project_id) (hblob : HasBlob db row.project_id row.sha256)
    (hname : ∀ file ∈ db.files, file.snapshot_id = row.snapshot_id →
      file.logical_filename ≠ row.logical_filename) :
    Linked records { db with files := db.files.insert row } where
  __ := h
  blobs := by
    intro file hfile hproject
    cases Table.mem_insert hfile with
    | inl hold => exact h.blobs file hold hproject
    | inr hnew =>
      rw [hnew]
      exact hblob
  names := by
    intro file hfile other hother hsnapshot hsame
    cases Table.mem_insert hfile with
    | inl hold =>
      cases Table.mem_insert hother with
      | inl hold' => exact h.names file hold other hold' hsnapshot hsame
      | inr hnew =>
        rw [hnew] at hsnapshot hsame
        exact absurd hsame (hname file hold hsnapshot)
    | inr hnew =>
      cases Table.mem_insert hother with
      | inl hold' =>
        rw [hnew] at hsnapshot hsame
        exact absurd hsame.symm (hname other hold' hsnapshot.symm)
      | inr hnew' => rw [hnew, hnew']
  files := by
    intro file hfile
    cases Table.mem_insert hfile with
    | inl hold => exact h.files file hold
    | inr hnew =>
      rw [hnew]
      exact hfits

theorem hasBlob_insert {row : BlobRow} {project_id sha256 : String}
    (h : HasBlob db project_id sha256) :
    HasBlob { db with blobs := db.blobs.insert row } project_id sha256 := by
  obtain ⟨blob, hblob⟩ := Option.isSome_iff_exists.mp h
  obtain ⟨hmem, hkey⟩ := Table.get_eq_some.mp hblob
  rw [HasBlob, Table.get_eq_some.mpr ⟨Table.mem_insert_left hmem, hkey⟩]
  rfl

theorem hasBlob_insert_self (row : BlobRow) :
    HasBlob { db with blobs := db.blobs.insert row } row.project_id row.sha256 := by
  by_cases htaken : HasBlob db row.project_id row.sha256
  · exact hasBlob_insert htaken
  · have hfresh : db.blobs.get (row.project_id, row.sha256) = none := by
      simpa [HasBlob] using htaken
    have hmem : row ∈ db.blobs.insert row :=
      (Table.mem_insert_of_fresh (Table.get_eq_none.mp hfresh)).mpr (Or.inr rfl)
    have hget : (db.blobs.insert row).get (row.project_id, row.sha256) = some row :=
      Table.get_eq_some.mpr ⟨hmem, rfl⟩
    rw [HasBlob, hget]
    rfl

theorem Linked.insert_blob {row : BlobRow} (h : Linked records db) :
    Linked records { db with blobs := db.blobs.insert row } where
  __ := h
  blobs file hfile hproject := hasBlob_insert (h.blobs file hfile hproject)

end Inserts

/-- The draft that is found fits the project. -/
theorem fits_of_latest_draft {project_id : String} {draft : SnapshotRow}
    (h : latest_draft db project_id = some draft) : Fits db draft.id project_id := by
  have hmem := List.mem_of_head? h
  rw [List.mem_mergeSort, List.mem_filter, Bool.and_eq_true, decide_eq_true_eq] at hmem
  intro snapshot hsnapshot hid
  rw [Table.eq_of_key hsnapshot hmem.1 hid]
  exact hmem.2.1

theorem project_for_update_bind {project_id : String} {α : Type} {k : ProjectRow → Transaction α}
    {Q : α → Database → Prop}
    (h : ∀ project ∈ db.projects, project.id = project_id → Yields Q (k project) db) :
    Yields Q (project_for_update project_id >>= k) db := by
  unfold project_for_update
  simp only [bind_bind]
  refine Yields.acquire_bind (Yields.select_bind (Yields.orRaise_bind fun project hproject => ?_))
  obtain ⟨hmem, hid⟩ := Table.get_eq_some.mp hproject
  exact h project hmem hid

theorem draft_bind {project_id : String} {α : Type} {k : SnapshotRow → Transaction α}
    {Q : α → Database → Prop}
    (h : ∀ draft, latest_draft db project_id = some draft → Yields Q (k draft) db) :
    Yields Q (draft project_id >>= k) db := by
  unfold draft
  simp only [bind_bind]
  exact Yields.select_bind (Yields.orRaise_bind fun row hrow => h row hrow)

theorem remember_keeps {actor operation key resource_id : String} (h : Linked records db) :
    KeepsLinks records (remember actor operation key resource_id) db := by
  unfold remember
  refine Yields.acquire_bind (Yields.select_bind (Yields.raiseIf_bind fun _ => ?_))
  exact h.narrow (narrows_of_same rfl rfl rfl rfl rfl rfl)

theorem mark_files_keeps {snapshot_id : String} {status : FileLifecycleState} {progress : Nat}
    (h : Linked records db) : KeepsLinks records (mark_files snapshot_id status progress) db := by
  refine h.narrow (narrows_update_files ?_ ?_)
  · exact fun _ => rfl
  · exact fun _ => ⟨rfl, rfl, rfl, rfl, rfl⟩

theorem update_project_keeps {project_id : String} {f : ProjectRow → ProjectRow}
    {hf : ∀ row, (f row).id = row.id} (h : Linked records db) :
    KeepsLinks records (update_project project_id f hf) db :=
  h.narrow (narrows_update_projects hf)

theorem update_snapshots_keeps {p : SnapshotRow → Bool} {f : SnapshotRow → SnapshotRow}
    {hf : ∀ row, (f row).id = row.id} (hproject : ∀ row, (f row).project_id = row.project_id)
    (h : Linked records db) : KeepsLinks records (update_snapshots p f hf) db :=
  h.narrow (narrows_update_snapshots hf hproject)

theorem update_uploads_keeps {p : UploadSessionRow → Bool}
    {f : UploadSessionRow → UploadSessionRow} {hf : ∀ row, (f row).id = row.id}
    (hsame : ∀ row, row.snapshot_id = (f row).snapshot_id ∧ row.project_id = (f row).project_id)
    (h : Linked records db) : KeepsLinks records (update_uploads p f hf) db :=
  h.narrow (narrows_update_uploads hf hsame)

theorem update_job_keeps {id : String} {f : BuildJobRow → BuildJobRow}
    {hf : ∀ row, (f row).id = row.id}
    (hsame : ∀ row, row.snapshot_id = (f row).snapshot_id ∧ row.project_id = (f row).project_id)
    (h : Linked records db) : KeepsLinks records (update_job id f hf) db :=
  h.narrow (narrows_update_jobs hf hsame)

/-- A transaction that only keeps the links may be followed by another. -/
theorem KeepsLinks.bind {α β : Type} {t : Transaction α} {k : α → Transaction β}
    {Q : β → Database → Prop} (h : KeepsLinks records t db)
    (hk : ∀ a db, Linked records db → Yields Q (k a) db) : Yields Q (t >>= k) db :=
  Yields.bind h hk

theorem KeepsLinks.whenever {c : Prop} [Decidable c] {t : Transaction Unit}
    (h : Linked records db) (ht : c → KeepsLinks records t db) :
    KeepsLinks records (whenever c t) db :=
  Yields.whenever h ht

theorem create_project_keeps {ids : ProjectIds} {subject username tenant_id key : String}
    {now : Moment} (h : Linked records db) (hunnamed : Unnamed records db ids.snapshot)
    (hunused : ∀ file ∈ db.files, file.project_id ≠ ids.project) :
    KeepsLinks records (create_project ids subject username tenant_id key now) db := by
  unfold create_project
  refine Yields.select_bind ?_
  split
  · exact h
  · refine add_row_bind fun _ => add_row_bind fun _ => add_row_bind fun _ => ?_
    have hproject := @Linked.insert_project records db
      ⟨ids.project, tenant_id, .draft, now, none, none, none, 0, 0⟩ h hunused
    refine KeepsLinks.bind (remember_keeps ?_) fun _ _ hkept => hkept
    refine Linked.insert_snapshot (hproject.narrow ?_) ?_
    · exact narrows_of_same rfl rfl rfl rfl rfl rfl
    · exact ⟨hunnamed.files, hunnamed.uploads, hunnamed.jobs, hunnamed.records⟩

theorem create_upload_session_keeps {id project_id subject key : String}
    {declarations : List UploadFileDeclaration} {upload_ttl now : Moment} (h : Linked records db) :
    KeepsLinks records
      (create_upload_session id project_id declarations subject key upload_ttl now) db := by
  unfold create_upload_session
  refine Yields.select_bind (KeepsLinks.whenever h fun _ => ?_)
  refine project_for_update_bind fun project _ _ => Yields.raiseIf_bind fun _ => ?_
  refine draft_bind fun draft hdraft => add_row_bind fun _ => ?_
  exact remember_keeps (h.insert_upload (fits_of_latest_draft hdraft))

theorem mark_part_uploaded_keeps {part_id temp_path : String} {size : Nat}
    (h : Linked records db) : KeepsLinks records (mark_part_uploaded part_id temp_path size) db := by
  unfold mark_part_uploaded
  refine Yields.select_bind (Yields.raiseIf_bind fun _ => ?_)
  exact update_uploads_keeps (fun _ => ⟨rfl, rfl⟩) h

/-- The file of a part is written with the row of its content. -/
theorem write_part_keeps {project_id snapshot_id : String} {blobs : List (String × String)}
    {now : Moment} {item : UploadPartRow × String} (h : Linked records db)
    (hfits : Fits db snapshot_id project_id) :
    Yields (fun _ db => Linked records db ∧ Fits db snapshot_id project_id)
      (write_part project_id snapshot_id blobs now item) db := by
  unfold write_part
  refine Yields.orRaise_bind fun path _ => Yields.select_bind ?_
  refine Yields.bind (P := fun _ db => Linked records db ∧ Fits db snapshot_id project_id ∧
    HasBlob db project_id item.1.expected_sha256) ?_ ?_
  · unfold whenever
    split
    · exact ⟨h.insert_blob, hfits, hasBlob_insert_self
        ⟨project_id, item.1.expected_sha256, item.1.expected_size, path⟩⟩
    · rename_i hsome
      exact ⟨h, hfits, Option.isSome_iff_ne_none.mpr hsome⟩
  · rintro _ db ⟨h, hfits, hblob⟩
    refine Yields.execute_bind ?_
    have hdeleted : Linked records { db with files := db.files.delete (db.files.matching fun row =>
        row.snapshot_id = snapshot_id && row.logical_filename = item.1.logical_filename) } :=
      h.narrow narrows_delete_files
    refine add_row_yields fun _ => ⟨hdeleted.insert_file hfits hblob ?_, hfits⟩
    intro file hfile hsnapshot hname
    obtain ⟨hfile, hkept⟩ := Table.mem_delete.mp hfile
    rw [Table.matching_of_mem hfile] at hkept
    have hsnapshot' : file.snapshot_id = snapshot_id := hsnapshot
    have hname' : file.logical_filename = item.1.logical_filename := hname
    simp [hsnapshot', hname'] at hkept

theorem finalize_upload_keeps {project_id session_id subject key : String}
    {blobs : List (String × String)} {new_ids : Nat → String} {now : Moment}
    (h : Linked records db) :
    KeepsLinks records (finalize_upload project_id session_id blobs new_ids subject key now) db := by
  unfold finalize_upload
  refine Yields.select_bind (KeepsLinks.whenever h fun _ => Yields.select_bind ?_)
  refine Yields.orRaise_bind fun upload hupload => Yields.raiseIf_bind fun _ => ?_
  obtain ⟨hget, hproject⟩ := Option.filter_eq_some_iff.mp hupload
  have hfits : Fits db upload.snapshot_id project_id := by
    rw [← of_decide_eq_true hproject]
    exact h.uploads upload (Table.get_eq_some.mp hget).1
  refine project_for_update_bind fun project _ _ => Yields.raiseIf_bind fun _ =>
    Yields.raiseIf_bind fun _ => ?_
  refine Yields.bind (Yields.forEach ⟨h, hfits⟩ fun item _ db hdb =>
    write_part_keeps hdb.1 hdb.2) fun _ db hdb => ?_
  refine KeepsLinks.bind (update_uploads_keeps (fun _ => ⟨rfl, rfl⟩) hdb.1) fun _ db hdb => ?_
  exact KeepsLinks.bind (update_project_keeps hdb) fun _ db hdb => remember_keeps hdb

theorem delete_file_keeps {project_id file_id : String} {now : Moment} (h : Linked records db) :
    KeepsLinks records (delete_file project_id file_id now) db := by
  unfold delete_file
  refine project_for_update_bind fun project _ _ => Yields.raiseIf_bind fun _ => ?_
  refine draft_bind fun draft _ => Yields.select_bind (Yields.raiseIf_bind fun _ => ?_)
  refine Yields.execute_bind (update_project_keeps (h.narrow ?_))
  exact narrows_delete_files

theorem submit_build_keeps {id project_id subject key : String} {now : Moment}
    (h : Linked records db) : KeepsLinks records (submit_build id project_id subject key now) db := by
  unfold submit_build
  refine Yields.select_bind (KeepsLinks.whenever h fun _ => ?_)
  refine project_for_update_bind fun project _ _ => Yields.raiseIf_bind fun _ => ?_
  refine draft_bind fun draft hdraft => Yields.select_bind (Yields.raiseIf_bind fun _ =>
    Yields.select_bind (Yields.raiseIf_bind fun _ => add_row_bind fun _ => ?_))
  refine KeepsLinks.bind (mark_files_keeps (h.insert_job (fits_of_latest_draft hdraft)))
    fun _ _ hdb => ?_
  refine KeepsLinks.bind (update_snapshots_keeps (fun _ => rfl) hdb) fun _ _ hdb => ?_
  exact KeepsLinks.bind (update_project_keeps hdb) fun _ _ hdb => remember_keeps hdb

theorem fail_build_keeps {build : BuildRecord} {error_code : String} {now : Moment}
    (h : Linked records db) : KeepsLinks records (fail_build build error_code now) db := by
  unfold fail_build
  refine Yields.select_bind (Yields.select_bind (project_for_update_bind fun project _ _ => ?_))
  have hunsealed : ∀ {db : Database} (snapshot : SnapshotRow), Linked records db →
      KeepsLinks records (do
        update_snapshots (·.id = snapshot.id)
          (fun row => { row with status := .editable, sealed_at := none }) fun _ => rfl
        execute fun view db => { db with
          files := db.files.update (view.files.matching (·.snapshot_id = snapshot.id))
            (fun row => { row with lifecycle_status := .failed, error_code := some error_code })
            fun _ => rfl }
        update_project project.id (fun row => { row with
          state := if truthy project.active_graph_version then .ready else .failed,
          updated_at := now }) fun _ => rfl) db := by
    intro db snapshot h
    refine KeepsLinks.bind (update_snapshots_keeps (fun _ => rfl) h) fun _ db h => ?_
    refine Yields.execute_bind (update_project_keeps (h.narrow (narrows_update_files ?_ ?_)))
    · exact fun _ => rfl
    · exact fun _ => ⟨rfl, rfl, rfl, rfl, rfl⟩
  generalize db.snapshots.get build.snapshot_id = stored
  cases db.jobs.get build.id with
  | none =>
    cases stored with
    | none => exact update_project_keeps h
    | some snapshot => exact hunsealed snapshot h
  | some job =>
    refine KeepsLinks.bind (update_job_keeps (fun _ => ⟨rfl, rfl⟩) h) fun _ _ h => ?_
    cases stored with
    | none => exact update_project_keeps h
    | some snapshot => exact hunsealed snapshot h

theorem recover_builds_keeps (h : Linked records db) : KeepsLinks records recover_builds db := by
  unfold recover_builds
  refine Yields.select_bind (KeepsLinks.bind (h.narrow (narrows_update_jobs ?_ ?_)) fun _ db h => ?_)
  · exact fun _ => rfl
  · exact fun _ => ⟨rfl, rfl⟩
  refine KeepsLinks.bind (h.narrow (narrows_update_files ?_ ?_)) fun _ db h => ?_
  · exact fun _ => rfl
  · exact fun _ => ⟨rfl, rfl, rfl, rfl, rfl⟩
  refine h.narrow (narrows_update_projects ?_)
  exact fun _ => rfl

theorem archive_keeps {project_id : String} {now : Moment} (h : Linked records db) :
    KeepsLinks records (archive project_id now) db := by
  unfold archive
  refine project_for_update_bind fun project _ _ => Yields.raiseIf_bind fun _ => ?_
  exact update_project_keeps h

theorem restore_keeps {project_id : String} {retention now : Moment} (h : Linked records db) :
    KeepsLinks records (restore project_id retention now) db := by
  unfold restore
  refine project_for_update_bind fun project _ _ => ?_
  split
  · trivial
  · refine Yields.raiseIf_bind fun _ => Yields.raiseIf_bind fun _ => ?_
    exact update_project_keeps h

theorem cleanup_expired_uploads_keeps {now : Moment} (h : Linked records db) :
    KeepsLinks records (cleanup_expired_uploads now) db :=
  update_uploads_keeps (fun _ => ⟨rfl, rfl⟩) h

theorem narrows_cascade {project_id : String} : Narrows db (db.cascade project_id) where
  projects row hrow := ⟨row, hrow, rfl⟩
  snapshots row hrow := ⟨row, (Table.mem_delete.mp hrow).1, rfl, rfl⟩
  files row hrow := ⟨row, (Table.mem_delete.mp hrow).1, .refl row⟩
  uploads row hrow := ⟨row, (Table.mem_delete.mp hrow).1, rfl, rfl⟩
  jobs row hrow := ⟨row, (Table.mem_delete.mp hrow).1, rfl, rfl⟩
  blobs _ _ _ h := h

/-- Without a project its contents may go. -/
theorem narrows_purge {project_id : String} :
    Narrows db { db with
      blobs := db.blobs.delete (db.blobs.matching (·.project_id = project_id)),
      projects := db.projects.delete (·.id = project_id) } where
  __ := Narrows.refl db
  projects row hrow := ⟨row, (Table.mem_delete.mp hrow).1, rfl⟩
  blobs := by
    intro project hproject sha256 hblob
    have hother : project.id ≠ project_id := by
      simpa using (Table.mem_delete.mp hproject).2
    obtain ⟨blob, hget⟩ := Option.isSome_iff_exists.mp hblob
    have hkey : blob.project_id = project.id :=
      congrArg Prod.fst (Table.get_eq_some.mp hget).2
    rw [HasBlob, Table.delete_matching, Table.get_delete, hget]
    simp [hkey, hother]

theorem purge_expired_keeps {enforced : Bool} {project_id : String} {retention now : Moment}
    (h : Linked records db) :
    KeepsLinks records (purge_expired enforced project_id retention now) db := by
  unfold purge_expired
  refine project_for_update_bind fun project _ _ => ?_
  split
  · trivial
  · refine Yields.raiseIf_bind fun _ => Yields.execute_bind ?_
    cases enforced with
    | false => exact h.narrow narrows_purge
    | true => exact (h.narrow narrows_cascade).narrow narrows_purge

theorem Linked.add_record {record : BuildRecord} (h : Linked records db)
    (hfits : Fits db record.snapshot_id record.project_id) : Linked (records ++ [record]) db where
  __ := h
  records := by
    intro other hother
    cases List.mem_append.mp hother with
    | inl hold => exact h.records other hold
    | inr hnew =>
      rw [List.mem_singleton.mp hnew]
      exact hfits

/-- A claimed build names the snapshot and project of its job. -/
theorem claim_build_yields {worker_id : String} {now : Moment} (h : Linked records db) :
    Yields (fun record db => Linked (records ++ record.toList) db) (claim_build worker_id now) db := by
  have hnone : Linked (records ++ []) db := by
    rw [List.append_nil]
    exact h
  unfold claim_build
  refine Yields.select_bind ?_
  split
  · exact hnone
  · refine Yields.select_bind ?_
    split
    · exact hnone
    · rename_i row hrow
      have hmem := List.mem_of_head? hrow
      rw [List.mem_mergeSort, List.mem_filter] at hmem
      have hclaimed := @Linked.add_record records db ⟨row.id, row.project_id, row.snapshot_id,
        row.expected_generation, row.requested_by, db.claims⟩ h (h.jobs row hmem.1)
      refine Yields.acquire_bind (Yields.select_bind ?_)
      split
      · exact hnone
      · refine Yields.select_bind (KeepsLinks.bind (hclaimed.narrow ?_) fun _ db hdb => ?_)
        · exact narrows_of_same rfl rfl rfl rfl rfl rfl
        refine KeepsLinks.bind (update_job_keeps (fun _ => ⟨rfl, rfl⟩) hdb) fun _ db hdb => ?_
        refine Yields.acquire_bind (KeepsLinks.bind (update_project_keeps hdb) fun _ db hdb => ?_)
        exact KeepsLinks.bind (mark_files_keeps hdb) fun _ db hdb => hdb

/-- The files of a snapshot whose contents a project has. -/
def Sourced (db : Database) (snapshot_id project_id : String) : Prop :=
  ∀ file ∈ db.files, file.snapshot_id = snapshot_id → HasBlob db project_id file.sha256

/-- The files of a snapshot that fits a project have their contents there. -/
theorem Linked.sourced {snapshot : SnapshotRow} {project : ProjectRow} (h : Linked records db)
    (hsnapshot : snapshot ∈ db.snapshots) (hproject : project ∈ db.projects)
    (hsame : snapshot.project_id = project.id) : Sourced db snapshot.id project.id := by
  intro file hfile hid
  have hfits : snapshot.project_id = file.project_id :=
    h.files file hfile snapshot hsnapshot hid.symm
  have hown : file.project_id = project.id := hfits.symm.trans hsame
  have hblob := h.blobs file hfile ⟨project, hproject, hown.symm⟩
  rwa [hown] at hblob

/-- The files of a snapshot have different names. -/
theorem Linked.names_nodup (h : Linked records db) (snapshot_id : String) :
    ((files_of db snapshot_id).map (·.logical_filename)).Nodup := by
  have hnodup : (files_of db snapshot_id).Nodup := (db.files.nodup.of_map _).filter _
  refine hnodup.map_on fun file hfile other hother hsame => ?_
  obtain ⟨hfile, hid⟩ := List.mem_filter.mp hfile
  obtain ⟨hother, hid'⟩ := List.mem_filter.mp hother
  exact h.names file hfile other hother
    ((of_decide_eq_true hid).trans (of_decide_eq_true hid').symm) hsame

/-- A build that is about to be cloned into a draft: its files have their contents, and
nothing names the draft yet. -/
structure Cloning (records : List BuildRecord) (db : Database)
    (snapshot_id project_id draft_id : String) : Prop where
  linked : Linked records db
  sourced : Sourced db snapshot_id project_id
  unnamed : Unnamed records db draft_id

theorem Cloning.narrow {db' : Database} {snapshot_id project_id draft_id : String}
    (h : Cloning records db snapshot_id project_id draft_id) (hnarrow : Narrows db db')
    (hfiles : db'.files = db.files) (hblobs : db'.blobs = db.blobs) :
    Cloning records db' snapshot_id project_id draft_id where
  linked := h.linked.narrow hnarrow
  sourced file hfile hid := by
    rw [HasBlob, hblobs]
    exact h.sourced file (hfiles ▸ hfile) hid
  unnamed :=
    { files := fun file hfile => h.unnamed.files file (hfiles ▸ hfile),
      uploads := by
        intro upload' hupload'
        obtain ⟨upload, hupload, hsame, -⟩ := hnarrow.uploads upload' hupload'
        rw [← hsame]
        exact h.unnamed.uploads upload hupload,
      jobs := by
        intro job' hjob'
        obtain ⟨job, hjob, hsame, -⟩ := hnarrow.jobs job' hjob'
        rw [← hsame]
        exact h.unnamed.jobs job hjob,
      records := h.unnamed.records }

/-- The copies of files whose contents a project has are linked in its draft. -/
theorem add_copies_keeps {source_files : List SnapshotFileRow} {draft_id project_id : String}
    {new_ids : Nat → String} (h : Linked records db) (hfits : Fits db draft_id project_id)
    (hblobs : ∀ file ∈ source_files, HasBlob db project_id file.sha256)
    (hnames : (source_files.map (·.logical_filename)).Nodup)
    (hempty : ∀ file ∈ db.files, file.snapshot_id ≠ draft_id) :
    KeepsLinks records (forEach add_file (source_files.zipIdx.map fun item =>
      item.1.copied (new_ids item.2) draft_id project_id)) db := by
  have hcopied : (source_files.zipIdx.map fun item =>
      item.1.copied (new_ids item.2) draft_id project_id).map (·.logical_filename) =
      source_files.map (·.logical_filename) := by
    rw [List.map_map, ← List.zipIdx_map_fst 0 source_files, List.map_map, List.zipIdx_map_fst]
    rfl
  rw [← hcopied] at hnames
  -- the draft holds the copies made so far
  refine Yields.mono (Yields.forEach_done (P := fun done db => Linked records db ∧
    Fits db draft_id project_id ∧ (∀ file ∈ source_files, HasBlob db project_id file.sha256) ∧
    ∀ file ∈ db.files, file.snapshot_id = draft_id →
      file.logical_filename ∈ done.map (·.logical_filename))
    ⟨h, hfits, hblobs, fun file hfile hid => absurd hid (hempty file hfile)⟩ ?_) fun _ _ hdb => hdb.1
  intro done row rest hrows db hdb
  obtain ⟨h, hfits, hblobs, hdone⟩ := hdb
  have hrow : row ∈ source_files.zipIdx.map fun item =>
      item.1.copied (new_ids item.2) draft_id project_id := by
    rw [hrows]
    simp
  rw [hrows, List.map_append, List.map_cons, List.nodup_middle, List.nodup_cons] at hnames
  have hother : row.logical_filename ∉ done.map (·.logical_filename) :=
    fun hmem => hnames.1 (List.mem_append_left _ hmem)
  obtain ⟨item, hitem, rfl⟩ := List.mem_map.mp hrow
  have hmem : item.1 ∈ source_files := (List.mem_zipIdx' hitem).2 ▸ List.getElem_mem _
  refine add_row_yields fun _ => ⟨h.insert_file hfits (hblobs item.1 hmem) ?_, hfits, hblobs, ?_⟩
  · intro file hfile hid hsame
    apply hother
    rw [← hsame]
    exact hdone file hfile hid
  · intro file hfile hid
    rw [List.map_append]
    cases Table.mem_insert hfile with
    | inl hold => exact List.mem_append_left _ (hdone file hold hid)
    | inr hnew =>
      rw [hnew]
      simp

theorem complete_build_keeps {build : BuildRecord} {graph_version draft_id : String}
    {document_count : Nat} {new_ids : Nat → String} {now : Moment} (h : Linked records db)
    (hbuild : build ∈ records) (hunnamed : Unnamed records db draft_id) :
    KeepsLinks records (complete_build build graph_version document_count draft_id new_ids now)
      db := by
  unfold complete_build
  refine project_for_update_bind fun project hproject hid => Yields.raiseIf_bind fun _ => ?_
  refine Yields.select_bind (Yields.select_bind (Yields.orRaise_bind fun job _ =>
    Yields.orRaise_bind fun snapshot hsnapshot => Yields.raiseIf_bind fun _ => ?_))
  obtain ⟨hmem, hsnapshot_id⟩ := Table.get_eq_some.mp hsnapshot
  have hown : snapshot.project_id = project.id :=
    (h.records build hbuild snapshot hmem hsnapshot_id).trans hid.symm
  have hcloning : Cloning records db snapshot.id project.id draft_id :=
    ⟨h, h.sourced hmem hproject hown, hunnamed⟩
  refine Yields.bind (P := fun _ db => Cloning records db snapshot.id project.id draft_id)
    (hcloning.narrow (narrows_update_snapshots ?_ ?_) rfl rfl) fun _ db hcloning => ?_
  · exact fun _ => rfl
  · exact fun _ => rfl
  refine Yields.bind (P := fun _ db => Cloning records db snapshot.id project.id draft_id)
    (hcloning.narrow (narrows_update_snapshots ?_ ?_) rfl rfl) fun _ db hcloning => ?_
  · exact fun _ => rfl
  · exact fun _ => rfl
  refine Yields.bind (P := fun _ db => Cloning records db snapshot.id project.id draft_id)
    (hcloning.narrow (narrows_update_projects ?_) rfl rfl) fun _ db hcloning => ?_
  · exact fun _ => rfl
  refine Yields.bind (P := fun _ db => Cloning records db snapshot.id project.id draft_id)
    (hcloning.narrow (narrows_update_jobs ?_ ?_) rfl rfl) fun _ db hcloning => ?_
  · exact fun _ => rfl
  · exact fun _ => ⟨rfl, rfl⟩
  refine add_row_bind fun hfree => Yields.select_bind ?_
  have hdraft := @Linked.insert_snapshot records db
    ⟨draft_id, project.id, .editable, now, none⟩ hcloning.linked hcloning.unnamed
  refine KeepsLinks.bind (add_copies_keeps hdraft ?_ ?_ ?_ hcloning.unnamed.files)
    fun _ _ hdb => mark_files_keeps hdb
  · intro other hother hsame
    cases Table.mem_insert hother with
    | inl hold => exact absurd hsame (Table.get_eq_none.mp hfree other hold)
    | inr hnew => rw [hnew]
  · intro file hfile
    obtain ⟨hfile, hid⟩ := List.mem_filter.mp hfile
    exact hcloning.sourced file hfile (of_decide_eq_true hid)
  · exact hcloning.linked.names_nodup snapshot.id

end lagraph.registry
