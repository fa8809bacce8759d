import LaGraph.Projects.Lifecycle
import LaGraph.Projects.Snapshots.Operations

open foundation foundation.Tx

namespace lagraph.registry

section

variable {db db' : Database} {worker : Worker}

/-- The worker and the projects are still in order after whatever a transaction leaves. -/
abbrev KeepsOrder (worker : Worker) {α : Type} (t : Transaction α) (db : Database) : Prop :=
  Yields (fun _ => Orderly worker) t db

theorem KeepsOrder.bind {α β : Type} {t : Transaction α} {k : α → Transaction β}
    {Q : β → Database → Prop} (h : KeepsOrder worker t db)
    (hk : ∀ a db, Orderly worker db → Yields Q (k a) db) : Yields Q (t >>= k) db :=
  Yields.bind h hk

section Quiet

/-- What is no project, snapshot, job or upload may change. -/
theorem quiet_of_same (hprojects : db'.projects = db.projects)
    (hsnapshots : db'.snapshots = db.snapshots) (hjobs : db'.jobs = db.jobs)
    (huploads : db'.uploads = db.uploads) : Quiet db db' where
  projects project hproject := ⟨project, hprojects ▸ hproject, .refl project⟩
  kept project hproject := ⟨project, hprojects ▸ hproject, rfl⟩
  snapshots := hsnapshots
  jobs := hjobs
  uploads upload hupload hopen := ⟨upload, huploads ▸ hupload, hopen, rfl, rfl⟩

theorem quiet_update_project {project_id : String} {f : ProjectRow → ProjectRow}
    {hf : ∀ row, (f row).id = row.id} (halike : ∀ project : ProjectRow, project.Alike (f project)) :
    Quiet db { db with projects := db.projects.update (·.id = project_id) f hf } where
  __ := Quiet.refl db
  projects _ hproject := Table.exists_of_mem_update hf .refl halike hproject
  kept project hproject := by
    by_cases hid : project.id = project_id
    · have hmem : f project ∈ db.projects.update (·.id = project_id) f hf :=
        Table.mem_update_of hproject (decide_eq_true hid)
      exact ⟨f project, hmem, hf project⟩
    · have hmem : project ∈ db.projects.update (·.id = project_id) f hf :=
        Table.mem_update_of_not hproject (decide_eq_false hid)
      exact ⟨project, hmem, rfl⟩

theorem update_project_orderly {project_id : String} {f : ProjectRow → ProjectRow}
    {hf : ∀ row, (f row).id = row.id} (halike : ∀ project : ProjectRow, project.Alike (f project))
    (h : Orderly worker db) : KeepsOrder worker (update_project project_id f hf) db :=
  h.quiet (quiet_update_project halike)

theorem quiet_update_uploads {p : UploadSessionRow → Bool} {f : UploadSessionRow → UploadSessionRow}
    {hf : ∀ row, (f row).id = row.id} (hstate : ∀ row, (f row).state = .opened → row.state = .opened)
    (hsnapshot : ∀ row, (f row).snapshot_id = row.snapshot_id)
    (hproject : ∀ row, (f row).project_id = row.project_id) :
    Quiet db { db with uploads := db.uploads.update p f hf } where
  __ := Quiet.refl db
  uploads _ hupload hopen := by
    obtain ⟨upload, hmem, rfl⟩ := List.mem_map.mp hupload
    split at hopen
    · rename_i hp
      rw [if_pos hp]
      exact ⟨upload, hmem, hstate upload hopen, (hsnapshot upload).symm, (hproject upload).symm⟩
    · rename_i hp
      rw [if_neg hp]
      exact ⟨upload, hmem, hopen, rfl, rfl⟩

theorem remember_orderly {actor operation key resource_id : String} (h : Orderly worker db) :
    KeepsOrder worker (remember actor operation key resource_id) db := by
  unfold remember
  refine Yields.acquire_bind (Yields.select_bind (Yields.raiseIf_bind fun _ => ?_))
  exact h.quiet (quiet_of_same rfl rfl rfl rfl)

theorem mark_files_orderly {snapshot_id : String} {status : FileLifecycleState} {progress : Nat}
    (h : Orderly worker db) : KeepsOrder worker (mark_files snapshot_id status progress) db :=
  h.quiet (quiet_of_same rfl rfl rfl rfl)

theorem add_file_orderly {row : SnapshotFileRow} (h : Orderly worker db) :
    KeepsOrder worker (add_file row) db :=
  add_row_yields fun _ => h.quiet (quiet_of_same rfl rfl rfl rfl)

theorem mark_part_uploaded_orderly {part_id temp_path : String} {size : Nat}
    (h : Orderly worker db) :
    KeepsOrder worker (mark_part_uploaded part_id temp_path size) db := by
  unfold mark_part_uploaded
  refine Yields.select_bind (Yields.raiseIf_bind fun _ => h.quiet (quiet_update_uploads ?_ ?_ ?_))
  · exact fun _ hopen => hopen
  · exact fun _ => rfl
  · exact fun _ => rfl

theorem write_part_orderly {project_id snapshot_id : String} {blobs : List (String × String)}
    {now : Moment} {item : UploadPartRow × String} (h : Orderly worker db) :
    KeepsOrder worker (write_part project_id snapshot_id blobs now item) db := by
  unfold write_part
  refine Yields.orRaise_bind fun path _ => Yields.select_bind ?_
  refine KeepsOrder.bind (Yields.whenever h fun _ => h.quiet (quiet_of_same rfl rfl rfl rfl))
    fun _ db h => ?_
  exact Yields.execute_bind (add_file_orderly (h.quiet (quiet_of_same rfl rfl rfl rfl)))

theorem finalize_upload_orderly {project_id session_id subject key : String}
    {blobs : List (String × String)} {new_ids : Nat → String} {now : Moment}
    (h : Orderly worker db) :
    KeepsOrder worker (finalize_upload project_id session_id blobs new_ids subject key now) db := by
  unfold finalize_upload
  refine Yields.select_bind (Yields.whenever h fun _ => Yields.select_bind ?_)
  refine Yields.orRaise_bind fun upload _ => Yields.raiseIf_bind fun _ => ?_
  refine project_for_update_bind fun project _ _ => Yields.raiseIf_bind fun _ =>
    Yields.raiseIf_bind fun _ => ?_
  refine KeepsOrder.bind (Yields.forEach h fun item _ db h => write_part_orderly h)
    fun _ db h => ?_
  refine KeepsOrder.bind (h.quiet (quiet_update_uploads ?_ ?_ ?_)) fun _ db h => ?_
  · exact fun _ hopen => nomatch hopen
  · exact fun _ => rfl
  · exact fun _ => rfl
  refine KeepsOrder.bind (update_project_orderly (fun _ => ?_) h) fun _ db h => remember_orderly h
  exact ⟨rfl, rfl, rfl, rfl, rfl⟩

theorem delete_file_orderly {project_id file_id : String} {now : Moment} (h : Orderly worker db) :
    KeepsOrder worker (delete_file project_id file_id now) db := by
  unfold delete_file
  refine project_for_update_bind fun project _ _ => Yields.raiseIf_bind fun _ => ?_
  refine draft_bind fun draft _ => Yields.select_bind (Yields.raiseIf_bind fun _ => ?_)
  refine Yields.execute_bind (update_project_orderly (fun _ => ?_)
    (h.quiet (quiet_of_same rfl rfl rfl rfl)))
  exact ⟨rfl, rfl, rfl, rfl, rfl⟩

theorem cleanup_expired_uploads_orderly {now : Moment} (h : Orderly worker db) :
    KeepsOrder worker (cleanup_expired_uploads now) db := by
  refine h.quiet (quiet_update_uploads ?_ ?_ ?_)
  · exact fun _ hopen => nomatch hopen
  · exact fun _ => rfl
  · exact fun _ => rfl

end Quiet

/-- The draft that is found is the current snapshot of the project. -/
theorem mem_of_latest_draft {project_id : String} {draft : SnapshotRow}
    (h : latest_draft db project_id = some draft) :
    draft ∈ db.snapshots ∧ draft.project_id = project_id ∧ draft.status = .editable := by
  have hmem := List.mem_of_head? h
  rw [List.mem_mergeSort, List.mem_filter, Bool.and_eq_true, decide_eq_true_eq,
    decide_eq_true_eq] at hmem
  exact hmem

theorem create_upload_session_orderly {id project_id subject key : String}
    {declarations : List UploadFileDeclaration} {upload_ttl now : Moment} (h : Orderly worker db) :
    KeepsOrder worker
      (create_upload_session id project_id declarations subject key upload_ttl now) db := by
  unfold create_upload_session
  refine Yields.select_bind (Yields.whenever h fun _ => ?_)
  refine project_for_update_bind fun project _ _ => Yields.raiseIf_bind fun _ => ?_
  refine draft_bind fun draft hdraft => add_row_bind fun hfree => remember_orderly ?_
  obtain ⟨hmem, hproject, hstatus⟩ := mem_of_latest_draft hdraft
  refine ⟨h.sound, h.owned, fun upload hupload hopen snapshot hsnapshot hid => ?_, h.building⟩
  cases Table.mem_insert hupload with
  | inl hold => exact h.uploads upload hold hopen snapshot hsnapshot hid
  | inr hnew =>
    rw [hnew] at hid ⊢
    rw [Table.eq_of_key hsnapshot hmem hid]
    exact ⟨hstatus, hproject⟩

end

variable {db db' : Database} {worker : Worker} {project_id : String}

/-- The identifiers of a new project are used nowhere. -/
structure NewProject (db : Database) (ids : ProjectIds) : Prop where
  snapshots : ∀ snapshot ∈ db.snapshots, snapshot.project_id ≠ ids.project
  jobs : ∀ job ∈ db.jobs, job.project_id ≠ ids.project
  uploads : ∀ upload ∈ db.uploads, upload.snapshot_id ≠ ids.snapshot

theorem Orderly.created {ids : ProjectIds} {row : ProjectRow} {draft : SnapshotRow}
    (h : Orderly worker db) (hnew : NewProject db ids) (hrow : row.id = ids.project)
    (hdraft : draft.id = ids.snapshot) (hown : draft.project_id = ids.project)
    (hsound : Sound row [draft] []) (hfree : db.projects.get row.id = none)
    (hfree' : db.snapshots.get draft.id = none) (hprojects : db'.projects = db.projects.insert row)
    (hsnapshots : db'.snapshots = db.snapshots.insert draft) (hjobs : db'.jobs = db.jobs)
    (huploads : db'.uploads = db.uploads) : Orderly worker db' := by
  have hno_snapshot : snapshots_of db ids.project = [] := by
    rw [snapshots_of, List.filter_eq_nil_iff]
    intro snapshot hsnapshot
    simpa using hnew.snapshots snapshot hsnapshot
  have hno_job : jobs_of db' ids.project = [] := by
    rw [jobs_of, hjobs, List.filter_eq_nil_iff]
    intro job hjob
    simpa using hnew.jobs job hjob
  have htouches : Touches ids.project db db' := by
    refine ⟨fun project hproject hother => ?_, fun project hproject _ => ?_,
      fun other hother => ?_, fun other _ => ?_⟩
    · rw [hprojects, mem_insert_of_get hfree] at hproject
      cases hproject with
      | inl hold => exact hold
      | inr hnew => exact absurd (hnew ▸ hrow) hother
    · rw [hprojects, mem_insert_of_get hfree]
      exact Or.inl hproject
    · rw [snapshots_of_insert hfree' hsnapshots, hown, if_neg (Ne.symm hother), List.append_nil]
    · rw [jobs_of, hjobs, jobs_of]
  refine h.touch htouches ?_ ?_ ?_ ?_
  · intro project hproject hid
    rw [hprojects, mem_insert_of_get hfree] at hproject
    cases hproject with
    | inl hold => exact absurd (hid.trans hrow.symm) (Table.get_eq_none.mp hfree project hold)
    | inr hnew =>
      rw [snapshots_of_insert hfree' hsnapshots, hno_snapshot, if_pos hown, hno_job, hnew]
      exact hsound
  · intro job hjob
    rw [hno_job] at hjob
    cases hjob
  · intro upload hupload hopen snapshot hsnapshot hid
    rw [huploads] at hupload
    rw [hsnapshots, mem_insert_of_get hfree'] at hsnapshot
    cases hsnapshot with
    | inl hold => exact h.uploads upload hupload hopen snapshot hold hid
    | inr hsame =>
      rw [hsame, hdraft] at hid
      exact absurd hid.symm (hnew.uploads upload hupload)
  · rw [building_jobs, hjobs]
    exact h.building

theorem create_project_orderly {ids : ProjectIds} {subject username tenant_id key : String}
    {now : Moment} (h : Orderly worker db) (hnew : NewProject db ids) :
    KeepsOrder worker (create_project ids subject username tenant_id key now) db := by
  unfold create_project
  refine Yields.select_bind ?_
  split
  · exact h
  refine add_row_bind fun hfree => add_row_bind fun _ => add_row_bind fun hfree' => ?_
  refine KeepsOrder.bind (remember_orderly ?_) fun _ _ h => h
  exact h.created hnew rfl rfl rfl (sound_new rfl rfl rfl rfl rfl) hfree hfree' rfl rfl rfl rfl

theorem not_pending_of_not_locked {state : ProjectState} (h : ¬ state.locked = true) :
    state.pending = false := by
  cases state with
  | queued | building | archived => exact absurd rfl h
  | draft | ready | failed => rfl

/-- The change of the current snapshot of a project, and of no other row. -/
structure Reseals (db : Database) (draft : SnapshotRow) (status : SnapshotStatus)
    (f : SnapshotRow → SnapshotRow) : Prop where
  status : (f draft).status = status
  id : ∀ row, (f row).id = row.id
  project_id : ∀ row, (f row).project_id = row.project_id
  others : ∀ row ∈ db.snapshots, row ≠ draft → f row = row

theorem reseals_update {draft : SnapshotRow} {status : SnapshotStatus}
    {f : SnapshotRow → SnapshotRow} (hdraft : draft ∈ db.snapshots)
    (hstatus : (f draft).status = status) (hid : ∀ row, (f row).id = row.id)
    (hproject : ∀ row, (f row).project_id = row.project_id) :
    Reseals db draft status fun row => if decide (row.id = draft.id) = true then f row else row where
  status := by
    rw [if_pos (decide_eq_true rfl)]
    exact hstatus
  id row := by
    split
    · exact hid row
    · rfl
  project_id row := by
    split
    · exact hproject row
    · rfl
  others row hrow hne := by
    rw [if_neg]
    rw [decide_eq_true_eq]
    exact fun hsame => hne (Table.eq_of_key hrow hdraft hsame)

theorem Reseals.recast {draft : SnapshotRow} {status : SnapshotStatus}
    {f : SnapshotRow → SnapshotRow} (h : Reseals db draft status f) :
    Recast (snapshots_of db project_id) draft status f :=
  ⟨h.status, h.id draft, fun row hrow => h.others row (mem_snapshots_of.mp hrow).1⟩

theorem Reseals.other {draft row : SnapshotRow} {status : SnapshotStatus}
    {f : SnapshotRow → SnapshotRow} (h : Reseals db draft status f)
    (hown : draft.project_id = project_id) (hrow : row ∈ db.snapshots)
    (hother : row.project_id ≠ project_id) : f row = row :=
  h.others row hrow fun hsame => hother (hsame ▸ hown)

/-- The change of one job, and of no other row. -/
structure Moves (db : Database) (job : BuildJobRow) (status : BuildState)
    (f : BuildJobRow → BuildJobRow) : Prop where
  status : (f job).status = status
  snapshot_id : (f job).snapshot_id = job.snapshot_id
  expected_generation : (f job).expected_generation = job.expected_generation
  id : ∀ row, (f row).id = row.id
  project_id : ∀ row, (f row).project_id = row.project_id
  others : ∀ row ∈ db.jobs, row ≠ job → f row = row

theorem Moves.other {job row : BuildJobRow} {status : BuildState} {f : BuildJobRow → BuildJobRow}
    (h : Moves db job status f) (hrow : row ∈ db.jobs) (hother : row.project_id ≠ job.project_id) :
    f row = row :=
  h.others row hrow fun hsame => hother (congrArg (·.project_id) hsame)

theorem moves_update {job : BuildJobRow} {status : BuildState} {f : BuildJobRow → BuildJobRow}
    (hjob : job ∈ db.jobs) (hstatus : (f job).status = status)
    (hsnapshot : (f job).snapshot_id = job.snapshot_id)
    (hgeneration : (f job).expected_generation = job.expected_generation)
    (hid : ∀ row, (f row).id = row.id) (hproject : ∀ row, (f row).project_id = row.project_id) :
    Moves db job status fun row => if decide (row.id = job.id) = true then f row else row where
  status := by
    rw [if_pos (decide_eq_true rfl)]
    exact hstatus
  snapshot_id := by
    rw [if_pos (decide_eq_true rfl)]
    exact hsnapshot
  expected_generation := by
    rw [if_pos (decide_eq_true rfl)]
    exact hgeneration
  id row := by
    split
    · exact hid row
    · rfl
  project_id row := by
    split
    · exact hproject row
    · rfl
  others row hrow hne := by
    rw [if_neg]
    rw [decide_eq_true_eq]
    exact fun hsame => hne (Table.eq_of_key hrow hjob hsame)

/-- A build of the draft is queued, and no session of the draft is open. -/
theorem Orderly.submitted {project : ProjectRow} {draft : SnapshotRow} {job : BuildJobRow}
    {recast : SnapshotRow → SnapshotRow} {queue : ProjectRow → ProjectRow} (h : Orderly worker db)
    (hfree : db.jobs.get job.id = none) (hprojects : WritesProject project.id queue db db')
    (hsnapshots : db'.snapshots.rows = db.snapshots.rows.map recast)
    (hjobs : db'.jobs = db.jobs.insert job) (huploads : db'.uploads = db.uploads)
    (hproject : project ∈ db.projects) (hpending : project.state.pending = false)
    (hdraft : draft ∈ db.snapshots) (hown : draft.project_id = project.id)
    (hstatus : draft.status = .editable) (hsealed : Reseals db draft .sealed recast)
    (hclosed : ∀ upload ∈ db.uploads, upload.state = .opened → upload.project_id = project.id →
      upload.snapshot_id ≠ draft.id)
    (hjob : job.status = .queued) (hjob_project : job.project_id = project.id)
    (hjob_snapshot : job.snapshot_id = draft.id)
    (hgeneration : job.expected_generation = project.generation)
    (hqueue : ∀ row, (queue row).id = row.id)
    (halike : ProjectRow.Alike { project with state := .queued } (queue project)) :
    Orderly worker db' := by
  have htouches : Touches project.id db db' := by
    refine hprojects.touches hqueue (fun other hother => ?_) fun other hother => ?_
    · exact (snapshots_of_map hsealed.project_id hsnapshots).trans
        (snapshots_of_other hother fun _ => hsealed.other hown)
    · rw [jobs_of_insert hfree hjobs, hjob_project, if_neg (Ne.symm hother), List.append_nil]
  refine h.touch htouches ?_ (fun _ _ _ => hprojects.written hqueue hproject) ?_ ?_
  · intro project' hproject' hid'
    obtain ⟨row, hrow, hid, rfl⟩ := hprojects.eq_of_mem hproject' hid'
    rw [Table.eq_of_key hrow hproject hid, snapshots_of_map hsealed.project_id hsnapshots,
      jobs_of_insert hfree hjobs, if_pos hjob_project]
    refine (h.sound project hproject).submitted hpending (mem_snapshots_of.mpr ⟨hdraft, hown⟩) ?_
      hsealed.recast hjob hjob_snapshot hgeneration halike
    rw [hstatus]
    rfl
  · intro upload hupload hopen snapshot hsnapshot hid
    rw [huploads] at hupload
    rw [← Table.mem_rows, hsnapshots, List.mem_map] at hsnapshot
    obtain ⟨row, hrow, rfl⟩ := hsnapshot
    rw [hsealed.id] at hid
    obtain ⟨heditable, hproject'⟩ := h.uploads upload hupload hopen row hrow hid
    by_cases hsame : row = draft
    · rw [hsame] at hid hproject'
      exact absurd hid.symm (hclosed upload hupload hopen (hproject'.symm.trans hown))
    · rw [hsealed.others row hrow hsame]
      exact ⟨heditable, hproject'⟩
  · rw [building_jobs, hjobs, filter_insert hfree, hjob]
    rw [if_neg (by decide), List.append_nil]
    exact h.building

theorem submit_build_orderly {id subject key : String} {now : Moment} (h : Orderly worker db) :
    KeepsOrder worker (submit_build id project_id subject key now) db := by
  unfold submit_build
  refine Yields.select_bind (Yields.whenever h fun _ => ?_)
  refine project_for_update_bind fun project hproject hid => Yields.raiseIf_bind fun hlocked => ?_
  refine draft_bind fun draft hdraft => Yields.select_bind (Yields.raiseIf_bind fun hopen =>
    Yields.select_bind (Yields.raiseIf_bind fun _ => add_row_bind fun hfree => ?_))
  refine Yields.execute_bind (Yields.execute_bind (Yields.execute_bind (remember_orderly ?_)))
  subst hid
  obtain ⟨hmem, hown, hstatus⟩ := mem_of_latest_draft hdraft
  refine h.submitted hfree rfl map_matching rfl rfl hproject (not_pending_of_not_locked hlocked) hmem
    hown hstatus (reseals_update hmem rfl (fun _ => rfl) fun _ => rfl) ?_ rfl rfl rfl rfl
    (fun _ => rfl) ⟨rfl, rfl, rfl, rfl, rfl⟩
  intro upload hupload hopened hsame hid
  rw [not_not, Table.count_eq_zero] at hopen
  have hnot := hopen upload hupload
  simp [hopened, hsame, hid] at hnot

/-- The live build of a project moves on or back, and the project with it. -/
theorem Orderly.moved {worker' : Worker} {job : BuildJobRow} {move : BuildJobRow → BuildJobRow}
    {write : ProjectRow → ProjectRow} {state : ProjectState} {status : BuildState}
    (h : Orderly worker db) (hprojects : WritesProject job.project_id write db db')
    (hsnapshots : db'.snapshots = db.snapshots) (hjobs : db'.jobs.rows = db.jobs.rows.map move)
    (huploads : db'.uploads = db.uploads) (hjob : job ∈ db.jobs) (hlive : job.status.live = true)
    (hmove : Moves db job status move) (hstate : state.builds = [status])
    (hstatus : status.live = true) (hwrite : ∀ row, (write row).id = row.id)
    (halike : ∀ project, ProjectRow.Alike { project with state := state } (write project))
    (hbuilding : worker'.Builds (building_jobs db')) : Orderly worker' db' := by
  have htouches : Touches job.project_id db db' := by
    refine hprojects.touches hwrite (fun other _ => ?_) fun other hother => ?_
    · rw [snapshots_of, hsnapshots, snapshots_of]
    · exact (jobs_of_map hmove.project_id hjobs).trans
        (jobs_of_other hother fun _ => hmove.other)
  obtain ⟨project, hproject, hid⟩ := h.owned job hjob hlive
  refine h.touch htouches ?_ (fun _ _ _ => ?_) ?_ hbuilding
  · intro project' hproject' hid'
    obtain ⟨row, hrow, hsame, rfl⟩ := hprojects.eq_of_mem hproject' hid'
    have hsound := h.sound row hrow
    rw [hsame] at hsound
    obtain ⟨hone, hpending⟩ := hsound.live_job (mem_jobs_of.mpr ⟨hjob, rfl⟩) hlive
    rw [snapshots_of, hsnapshots, jobs_of_map hmove.project_id hjobs]
    exact hsound.moved hone (pending_of_builds hpending) hstate hstatus hmove.status
      hmove.snapshot_id hmove.expected_generation
      (fun other hother => hmove.others other (mem_jobs_of.mp hother).1) (halike row)
  · rw [← hid] at hprojects ⊢
    exact hprojects.written hwrite hproject
  · intro upload hupload hopen snapshot hsnapshot hsame
    rw [huploads] at hupload
    rw [hsnapshots] at hsnapshot
    exact h.uploads upload hupload hopen snapshot hsnapshot hsame

theorem mem_of_next_queued {job : BuildJobRow} (h : next_queued db = some job) :
    job ∈ db.jobs ∧ job.status = .queued := by
  have hmem := List.mem_of_head? h
  rw [List.mem_mergeSort, List.mem_filter, decide_eq_true_eq] at hmem
  exact hmem

/-- The worker polls, and holds what it has claimed. -/
def Worker.claimed : Option BuildRecord → Worker
  | none => .polling
  | some build => .holding build

/-- The only job that is being built is the one that has been moved there. -/
theorem building_moved {job : BuildJobRow} {move : BuildJobRow → BuildJobRow} {build : BuildRecord}
    (h : Worker.polling.Builds (building_jobs db)) (hjob : job ∈ db.jobs)
    (hmove : Moves db job .building move) (hjobs : db'.jobs.rows = db.jobs.rows.map move)
    (hid : build.id = job.id) (hproject : build.project_id = job.project_id)
    (hsnapshot : build.snapshot_id = job.snapshot_id)
    (hgeneration : build.expected_generation = job.expected_generation) :
    (Worker.holding build).Builds (building_jobs db') := by
  have hnone : ∀ row ∈ db.jobs, row.status ≠ .building := by
    intro row hrow hstatus
    have hmem : row ∈ building_jobs db := List.mem_filter.mpr ⟨hrow, decide_eq_true hstatus⟩
    rw [show building_jobs db = [] from h] at hmem
    cases hmem
  refine ⟨move job, ?_, ⟨hid.trans (hmove.id job).symm, hproject.trans (hmove.project_id job).symm,
    hsnapshot.trans hmove.snapshot_id.symm, hgeneration.trans hmove.expected_generation.symm⟩⟩
  rw [building_jobs, hjobs, filter_map_of (p := fun row => decide (row.id = job.id))]
  · rw [show db.jobs.rows.filter (fun row => decide (row.id = job.id)) = [job] from filter_key hjob]
    rfl
  · intro row hrow
    by_cases hsame : row = job
    · rw [hsame, hmove.status]
      simp
    · rw [hmove.others row hrow hsame, decide_eq_false (hnone row hrow), decide_eq_false]
      exact fun hid => hsame (Table.eq_of_key hrow hjob hid)

theorem update_job_bind {id : String} {f : BuildJobRow → BuildJobRow}
    {hf : ∀ row, (f row).id = row.id} {α : Type} {k : Unit → Transaction α}
    {Q : α → Database → Prop}
    (h : Yields Q (k ()) { db with jobs := db.jobs.update (·.id = id) f hf }) :
    Yields Q (update_job id f hf >>= k) db := h

theorem claim_build_orderly {worker_id : String} {now : Moment} (h : Orderly .polling db) :
    Yields (fun record => Orderly (.claimed record)) (claim_build worker_id now) db := by
  unfold claim_build
  refine Yields.select_bind ?_
  split
  · exact h
  refine Yields.select_bind ?_
  split
  · exact h
  rename_i job hnext
  obtain ⟨hjob, hqueued⟩ := mem_of_next_queued hnext
  refine Yields.acquire_bind (Yields.select_bind ?_)
  split
  · exact h
  have hmove : Moves db job .building fun row => if decide (row.id = job.id) = true then { row with
      status := .building, started_at := some now, worker_id := some worker_id,
      claim := some db.claims } else row :=
    moves_update hjob rfl rfl rfl (fun _ => rfl) fun _ => rfl
  refine Yields.select_bind (Yields.execute_bind (update_job_bind (Yields.acquire_bind
    (Yields.execute_bind (Yields.execute_bind ?_)))))
  refine h.moved rfl rfl rfl rfl hjob (by rw [hqueued]; rfl) hmove rfl rfl (fun _ => rfl)
    (fun _ => ⟨rfl, rfl, rfl, rfl, rfl⟩) ?_
  exact building_moved h.building hjob hmove rfl rfl rfl rfl rfl

end lagraph.registry
