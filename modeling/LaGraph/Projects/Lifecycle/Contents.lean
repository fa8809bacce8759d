import LaGraph.Projects.Lifecycle.Runs

open foundation foundation.Tx

namespace lagraph.registry

/-- The files of a snapshot with what is in them. -/
def contents (db : Database) (snapshot_id : String) : List (String × String × Nat) :=
  (files_of db snapshot_id).map fun file => (file.logical_filename, file.sha256, file.size)

/-- Only the files of one snapshot may be others. -/
def Spares (id : String) (db db' : Database) : Prop :=
  ∀ other, other ≠ id → contents db' other = contents db other

/-- No file is another. -/
def Unwritten (db db' : Database) : Prop :=
  ∀ id, contents db' id = contents db id

/-- What is not to be edited keeps its files as long as it is there. -/
def Frozen (db db' : Database) : Prop :=
  ∀ snapshot ∈ db.snapshots, snapshot.status ≠ .editable →
    ∀ snapshot' ∈ db'.snapshots, snapshot'.id = snapshot.id →
      contents db' snapshot.id = contents db snapshot.id

variable {db db' db'' : Database} {id : String}

theorem Unwritten.refl (db : Database) : Unwritten db db :=
  fun _ => rfl

theorem Unwritten.trans (h : Unwritten db db') (h' : Unwritten db' db'') : Unwritten db db'' :=
  fun id => (h' id).trans (h id)

theorem Unwritten.frozen (h : Unwritten db db') : Frozen db db' :=
  fun _ _ _ _ _ _ => h _

theorem Spares.refl (id : String) (db : Database) : Spares id db db :=
  fun _ _ => rfl

theorem Spares.trans (h : Spares id db db') (h' : Spares id db' db'') : Spares id db db'' :=
  fun other hother => (h' other hother).trans (h other hother)

theorem Unwritten.spares (h : Unwritten db db') : Spares id db db' :=
  fun other _ => h other

/-- The snapshot whose files may be others is one that can be edited, or none that was there. -/
theorem Spares.frozen (h : Spares id db db')
    (hid : ∀ snapshot ∈ db.snapshots, snapshot.id = id → snapshot.status = .editable) :
    Frozen db db' := by
  intro snapshot hsnapshot hstatus _ _ _
  exact h snapshot.id fun hsame => hstatus (hid snapshot hsnapshot hsame)

section Writes

theorem unwritten_of_files (h : db'.files = db.files) : Unwritten db db' := by
  intro id
  rw [contents, files_of, h]
  rfl

/-- Marks on files change nothing in them. -/
theorem unwritten_update_files {p : SnapshotFileRow → Bool} {f : SnapshotFileRow → SnapshotFileRow}
    {hf : ∀ row, (f row).id = row.id} (hsnapshot : ∀ row, (f row).snapshot_id = row.snapshot_id)
    (hsame : ∀ row, ((f row).logical_filename, (f row).sha256, (f row).size) =
      (row.logical_filename, row.sha256, row.size)) :
    Unwritten db { db with files := db.files.update p f hf } := by
  intro id
  unfold contents files_of
  rw [show ({ db with files := db.files.update p f hf } : Database).files.rows =
    db.files.rows.map fun row => if p row then f row else row from rfl,
    filter_map_of (p := fun row => decide (row.snapshot_id = id)), List.map_map]
  · refine List.map_congr_left fun row _ => ?_
    rw [Function.comp]
    split
    · exact hsame row
    · rfl
  · intro row _
    split
    · rw [hsnapshot]
    · rfl

/-- A file is written to one snapshot. -/
theorem spares_insert_file {row : SnapshotFileRow} (hrow : row.snapshot_id = id) :
    Spares id db { db with files := db.files.insert row } := by
  intro other hother
  unfold contents files_of
  congr 1
  change (db.files.insert row).rows.filter (·.snapshot_id = other) =
    db.files.rows.filter (·.snapshot_id = other)
  by_cases htaken : Keyed.key row ∈ db.files.rows.map Keyed.key
  · rw [Table.insert, dif_pos htaken]
  · rw [Table.insert, dif_neg htaken, List.filter_append, List.filter_singleton]
    have hnot : decide (row.snapshot_id = other) = false :=
      decide_eq_false fun hsame => hother (hsame.symm.trans hrow)
    rw [hnot, cond_false, List.append_nil]

/-- Files of one snapshot are deleted. -/
theorem spares_delete_files {p : SnapshotFileRow → Bool}
    (hp : ∀ row ∈ db.files, p row = true → row.snapshot_id = id) :
    Spares id db { db with files := db.files.delete p } := by
  intro other hother
  unfold contents files_of
  congr 1
  refine filter_deleted fun row hrow hown => ?_
  rw [← Bool.not_eq_true]
  exact fun hgone => hother ((of_decide_eq_true hown).symm.trans (hp row hrow hgone))

end Writes

section Unwritten

variable {α β : Type} {project_id : String} {now : Moment}

/-- Whatever the transaction does, the files are as they were. -/
abbrev Reads (t : Transaction α) : Prop :=
  Preserves Unwritten t

theorem Reads.bind {t : Transaction α} {f : α → Transaction β} (ht : Reads t)
    (hf : ∀ a, Reads (f a)) : Reads (t >>= f) :=
  Preserves.bind (fun _ _ _ => Unwritten.trans) ht hf

theorem reads_pure (a : α) : Reads (pure a : Transaction α) :=
  Preserves.ret Unwritten.refl a

theorem reads_select (f : Database → α) : Reads (select f : Transaction α) :=
  Preserves.select Unwritten.refl f

theorem reads_acquire (row : RowLock) : Reads (acquire row : Transaction Unit) :=
  Preserves.acquire Unwritten.refl row

theorem reads_raiseIf (c : Prop) [Decidable c] (e : ProjectError) :
    Reads (raiseIf c e : Transaction Unit) :=
  Preserves.raiseIf Unwritten.refl c e

theorem reads_orRaise (row : Option α) (e : ProjectError) : Reads (orRaise row e : Transaction α) :=
  Preserves.orRaise Unwritten.refl row e

theorem reads_execute {change : Database → Database → Database}
    (h : ∀ db, (change db db).files = db.files) : Reads (execute change : Transaction Unit) :=
  Preserves.execute fun db => unwritten_of_files (h db)

theorem reads_whenever {c : Prop} [Decidable c] {t : Transaction Unit} (h : Reads t) :
    Reads (whenever c t) :=
  Preserves.whenever Unwritten.refl fun _ => h

theorem reads_add_row {ρ : Type} [Keyed ρ String] {table : Database → Table ρ}
    {put : Database → Table ρ → Database} {row : ρ}
    (h : ∀ db t, (put db t).files = db.files) : Reads (add_row table put row) :=
  (reads_acquire _).bind fun _ => (reads_select _).bind fun _ => (reads_raiseIf _ _).bind fun _ =>
    reads_execute fun db => h db _

theorem reads_add_project (row : ProjectRow) : Reads (add_project row) :=
  reads_add_row fun _ _ => rfl

theorem reads_add_membership (row : ProjectMembershipRow) : Reads (add_membership row) :=
  reads_add_row fun _ _ => rfl

theorem reads_add_snapshot (row : SnapshotRow) : Reads (add_snapshot row) :=
  reads_add_row fun _ _ => rfl

theorem reads_add_upload (row : UploadSessionRow) : Reads (add_upload row) :=
  reads_add_row fun _ _ => rfl

theorem reads_add_job (row : BuildJobRow) : Reads (add_job row) :=
  reads_add_row fun _ _ => rfl

theorem reads_remember (actor operation key resource_id : String) :
    Reads (remember actor operation key resource_id) :=
  (reads_acquire _).bind fun _ => (reads_select _).bind fun _ => (reads_raiseIf _ _).bind fun _ =>
    reads_execute fun _ => rfl

theorem reads_project (project_id : String) : Reads (project_for_update project_id) :=
  (reads_acquire _).bind fun _ => (reads_select _).bind fun _ => reads_orRaise _ _

theorem reads_draft (project_id : String) : Reads (draft project_id) :=
  (reads_select _).bind fun _ => reads_orRaise _ _

theorem reads_mark_files (snapshot_id : String) (status : FileLifecycleState) (progress : Nat) :
    Reads (mark_files snapshot_id status progress) :=
  Preserves.execute fun _ => unwritten_update_files (fun _ => rfl) fun _ => rfl

theorem reads_update_snapshots {p : SnapshotRow → Bool} {f : SnapshotRow → SnapshotRow}
    {hf : ∀ row, (f row).id = row.id} : Reads (update_snapshots p f hf) :=
  reads_execute fun _ => rfl

theorem reads_update_project {project_id : String} {f : ProjectRow → ProjectRow}
    {hf : ∀ row, (f row).id = row.id} : Reads (update_project project_id f hf) :=
  reads_execute fun _ => rfl

theorem reads_update_job {id : String} {f : BuildJobRow → BuildJobRow}
    {hf : ∀ row, (f row).id = row.id} : Reads (update_job id f hf) :=
  (reads_acquire _).bind fun _ => reads_execute fun _ => rfl

theorem reads_create_project (ids : ProjectIds) (subject username tenant_id key : String) :
    Reads (create_project ids subject username tenant_id key now) := by
  refine (reads_select _).bind fun prior => ?_
  split
  · exact reads_pure _
  · exact (reads_add_project _).bind fun _ => (reads_add_membership _).bind fun _ =>
      (reads_add_snapshot _).bind fun _ => (reads_remember _ _ _ _).bind fun _ => reads_pure _

theorem reads_create_upload_session (id : String) (declarations : List UploadFileDeclaration)
    (subject key : String) (upload_ttl : Moment) :
    Reads (create_upload_session id project_id declarations subject key upload_ttl now) :=
  (reads_select _).bind fun _ => reads_whenever ((reads_project _).bind fun _ =>
    (reads_raiseIf _ _).bind fun _ => (reads_draft _).bind fun _ =>
      (reads_add_upload _).bind fun _ => reads_remember _ _ _ _)

theorem reads_mark_part_uploaded (part_id temp_path : String) (size : Nat) :
    Reads (mark_part_uploaded part_id temp_path size) :=
  (reads_select _).bind fun _ => (reads_raiseIf _ _).bind fun _ => reads_execute fun _ => rfl

theorem reads_submit_build (id subject key : String) :
    Reads (submit_build id project_id subject key now) :=
  (reads_select _).bind fun _ => reads_whenever ((reads_project _).bind fun _ =>
    (reads_raiseIf _ _).bind fun _ => (reads_draft _).bind fun _ => (reads_select _).bind fun _ =>
      (reads_raiseIf _ _).bind fun _ => (reads_select _).bind fun _ =>
        (reads_raiseIf _ _).bind fun _ => (reads_add_job _).bind fun _ =>
          (reads_mark_files _ _ _).bind fun _ => reads_update_snapshots.bind fun _ =>
            reads_update_project.bind fun _ => reads_remember _ _ _ _)

theorem reads_claim_build (worker_id : String) : Reads (claim_build worker_id now) := by
  refine (reads_select _).bind fun building => ?_
  split
  · exact reads_pure _
  refine (reads_select _).bind fun row => ?_
  split
  · exact reads_pure _
  refine (reads_acquire _).bind fun _ => (reads_select _).bind fun matched => ?_
  split
  · exact reads_pure _
  · exact (reads_select _).bind fun _ => (reads_execute fun _ => rfl).bind fun _ =>
      reads_update_job.bind fun _ => (reads_acquire _).bind fun _ =>
        reads_update_project.bind fun _ => (reads_mark_files _ _ _).bind fun _ => reads_pure _

theorem reads_fail_build (build : BuildRecord) (error_code : String) :
    Reads (fail_build build error_code now) := by
  refine (reads_select _).bind fun job => (reads_select _).bind fun snapshot =>
    (reads_project _).bind fun project => ?_
  have hlast : Reads (update_project project.id (fun row => { row with
      state := if truthy project.active_graph_version then .ready else .failed,
      updated_at := now }) fun _ => rfl) := reads_update_project
  have hsnapshot (snapshot : SnapshotRow) : Reads (do
      update_snapshots (·.id = snapshot.id)
        (fun row => { row with status := .editable, sealed_at := none }) fun _ => rfl
      execute fun view db => { db with
        files := db.files.update (view.files.matching (·.snapshot_id = snapshot.id))
          (fun row => { row with lifecycle_status := .failed, error_code := some error_code })
          fun _ => rfl }
      update_project project.id (fun row => { row with
        state := if truthy project.active_graph_version then .ready else .failed,
        updated_at := now }) fun _ => rfl) := by
    refine reads_update_snapshots.bind fun _ => Reads.bind ?_ fun _ => hlast
    exact Preserves.execute fun _ => unwritten_update_files (fun _ => rfl) fun _ => rfl
  cases job with
  | none =>
    cases snapshot with
    | none => exact hlast
    | some snapshot => exact hsnapshot snapshot
  | some job =>
    cases snapshot with
    | none => exact reads_update_job.bind fun _ => hlast
    | some snapshot => exact reads_update_job.bind fun _ => hsnapshot snapshot

theorem reads_recover_builds : Reads recover_builds := by
  refine (reads_select _).bind fun _ => (reads_execute fun _ => rfl).bind fun _ =>
    Reads.bind ?_ fun _ => reads_execute fun _ => rfl
  exact Preserves.execute fun _ => unwritten_update_files (fun _ => rfl) fun _ => rfl

theorem reads_archive : Reads (archive project_id now) :=
  (reads_project _).bind fun _ => (reads_raiseIf _ _).bind fun _ => reads_update_project

theorem reads_restore (retention : Moment) : Reads (restore project_id retention now) := by
  refine (reads_project _).bind fun project => ?_
  split
  · exact Preserves.raise _
  · exact (reads_raiseIf _ _).bind fun _ => (reads_raiseIf _ _).bind fun _ =>
      reads_update_project

end Unwritten

section Frozen

variable {worker : Worker} {project_id : String} {now : Moment} {db₀ : Database}

theorem Frozen.refl (db : Database) : Frozen db db :=
  (Unwritten.refl db).frozen

theorem Spares.unwritten (h : Spares id db₀ db) {α : Type} {t : Transaction α} (ht : Reads t) :
    Yields (fun _ => Spares id db₀) t db :=
  .of_run fun a db' hrun => h.trans (ht db a db' hrun).spares

/-- A part is written to the snapshot of its session. -/
theorem write_part_spares {blobs : List (String × String)} {item : UploadPartRow × String}
    (h : Spares id db₀ db) :
    Yields (fun _ => Spares id db₀) (write_part project_id id blobs now item) db := by
  unfold write_part
  refine Yields.orRaise_bind fun path _ => Yields.select_bind ?_
  refine Yields.bind (h.unwritten (reads_whenever (reads_execute fun _ => rfl))) fun _ db h => ?_
  refine Yields.execute_bind (add_row_yields fun _ => (h.trans ?_).trans (spares_insert_file rfl))
  refine spares_delete_files fun row hrow hmatch => ?_
  rw [Table.matching_of_mem hrow, Bool.and_eq_true, decide_eq_true_eq] at hmatch
  exact hmatch.1

/-- Only an open session writes, and only to a draft. -/
theorem finalize_upload_freezes {session_id subject key : String} {blobs : List (String × String)}
    {new_ids : Nat → String} (h : Orderly worker db) :
    Yields (fun _ => Frozen db)
      (finalize_upload project_id session_id blobs new_ids subject key now) db := by
  unfold finalize_upload
  refine Yields.select_bind (Yields.whenever (Frozen.refl db) fun _ => Yields.select_bind ?_)
  refine Yields.orRaise_bind fun upload hupload => Yields.raiseIf_bind fun hopen => ?_
  obtain ⟨hget, -⟩ := Option.filter_eq_some_iff.mp hupload
  rw [not_or, not_not] at hopen
  refine project_for_update_bind fun project _ _ => Yields.raiseIf_bind fun _ =>
    Yields.raiseIf_bind fun _ => ?_
  refine Yields.mono (Q := fun _ => Frozen db) (P := fun _ => Spares upload.snapshot_id db) ?_
    fun _ db' hspares => hspares.frozen fun snapshot hsnapshot hid =>
      (h.uploads upload (Table.get_eq_some.mp hget).1 hopen.1 snapshot hsnapshot hid).1
  refine Yields.bind (Yields.forEach (Spares.refl _ db) fun _ _ _ => write_part_spares) fun _ db h => ?_
  exact h.unwritten (Reads.bind (reads_execute fun _ => rfl) fun _ => reads_update_project.bind
    fun _ => reads_remember _ _ _ _)

theorem delete_file_freezes {file_id : String} :
    Yields (fun _ => Frozen db) (delete_file project_id file_id now) db := by
  unfold delete_file
  refine project_for_update_bind fun project _ _ => Yields.raiseIf_bind fun _ => ?_
  refine draft_bind fun draft hdraft => Yields.select_bind (Yields.raiseIf_bind fun _ => ?_)
  obtain ⟨hmem, -, hstatus⟩ := mem_of_latest_draft hdraft
  refine Yields.mono (Q := fun _ => Frozen db) (P := fun _ => Spares draft.id db) ?_
    fun _ db' hspares => hspares.frozen fun snapshot hsnapshot hid => by
      rw [Table.eq_of_key hsnapshot hmem hid]
      exact hstatus
  refine Yields.execute_bind (Spares.unwritten ?_ reads_update_project)
  refine spares_delete_files fun row hrow hmatch => ?_
  rw [Table.matching_of_mem hrow, Bool.and_eq_true, decide_eq_true_eq, decide_eq_true_eq] at hmatch
  exact hmatch.2

/-- The files are copied to the new draft. -/
theorem complete_build_freezes {build : BuildRecord} {graph_version draft_id : String}
    {document_count : Nat} {new_ids : Nat → String} :
    Yields (fun _ => Frozen db)
      (complete_build build graph_version document_count draft_id new_ids now) db := by
  unfold complete_build
  refine project_for_update_bind fun project _ _ => Yields.raiseIf_bind fun _ => ?_
  refine Yields.select_bind (Yields.select_bind (Yields.orRaise_bind fun job _ =>
    Yields.orRaise_bind fun snapshot _ => Yields.raiseIf_bind fun _ => ?_))
  refine Yields.execute_bind (Yields.execute_bind (Yields.execute_bind (update_job_bind
    (add_row_bind fun hfree => Yields.select_bind ?_))))
  have hnew : db.snapshots.get draft_id = none := by
    simp only [Table.get_update, Option.map_eq_none_iff] at hfree
    exact hfree
  refine Yields.mono (Q := fun _ => Frozen db) (P := fun _ => Spares draft_id db) ?_
    fun _ db' hspares => hspares.frozen fun snapshot hsnapshot hid =>
      absurd hid (Table.get_eq_none.mp hnew snapshot hsnapshot)
  refine Yields.bind (Yields.forEach (P := Spares draft_id db) (Spares.refl draft_id db) ?_)
    fun _ db h => h.unwritten (reads_mark_files _ _ _)
  intro file hfile db h
  obtain ⟨item, -, rfl⟩ := List.mem_map.mp hfile
  exact add_row_yields fun _ => h.trans (spares_insert_file rfl)

/-- With a project all its snapshots go. -/
theorem purge_expired_freezes {enforced : Bool} {retention : Moment} :
    Yields (fun _ => Frozen db) (purge_expired enforced project_id retention now) db := by
  unfold purge_expired
  refine project_for_update_bind fun project _ _ => ?_
  split
  · trivial
  refine Yields.raiseIf_bind fun _ => Yields.execute_bind ?_
  cases enforced with
  | false => exact Unwritten.frozen (unwritten_of_files rfl)
  | true =>
    intro snapshot hsnapshot _ snapshot' hsnapshot' hid
    obtain ⟨hmem, hkept⟩ := Table.mem_delete.mp hsnapshot'
    unfold contents files_of
    congr 1
    refine filter_deleted fun file hfile hown => ?_
    rw [← Bool.not_eq_true, List.any_eq_true]
    rintro ⟨row, hrow, hmatch⟩
    rw [Bool.and_eq_true, decide_eq_true_eq, decide_eq_true_eq] at hmatch
    have hsame : row = snapshot' :=
      Table.eq_of_key hrow hmem (hmatch.1.trans ((of_decide_eq_true hown).trans hid.symm))
    rw [← hsame, hmatch.2] at hkept
    simp at hkept

end Frozen

theorem perform_freezes {worker : Worker} {now : Moment} (h : Orderly worker db)
    (operation : ProjectOperation) : Yields (fun _ => Frozen db) (operation.perform now) db := by
  have hthen {α : Type} {t : Transaction α} (ht : Yields (fun _ => Frozen db) t db) :
      Yields (fun _ => Frozen db) (t >>= fun _ => (pure none : Transaction (Option BuildRecord)))
        db := Yields.bind ht fun _ _ h => h
  have hreads {α : Type} {t : Transaction α} (ht : Reads t) : Yields (fun _ => Frozen db) t db :=
    .of_run fun a db' hrun => (ht db a db' hrun).frozen
  cases operation with
  | create_project => exact hthen (hreads (reads_create_project _ _ _ _ _))
  | create_upload_session => exact hthen (hreads (reads_create_upload_session _ _ _ _ _))
  | mark_part_uploaded => exact hthen (hreads (reads_mark_part_uploaded _ _ _))
  | finalize_upload => exact hthen (finalize_upload_freezes h)
  | delete_file => exact hthen delete_file_freezes
  | cleanup_expired_uploads => exact hthen (hreads (reads_execute fun _ => rfl))
  | submit_build => exact hthen (hreads (reads_submit_build _ _ _))
  | claim_build => exact hreads (reads_claim_build _)
  | update_file_lifecycle => exact hthen (hreads (reads_mark_files _ _ _))
  | complete_build => exact hthen complete_build_freezes
  | fail_build => exact hthen (hreads (reads_fail_build _ _))
  | recover_builds => exact hthen (hreads reads_recover_builds)
  | archive => exact hthen (hreads reads_archive)
  | restore => exact hthen (hreads (reads_restore _))
  | purge_expired => exact hthen purge_expired_freezes

/-- No operation of a run writes to a snapshot that is not to be edited. -/
theorem snapshots_frozen {s : Service} {trace : List (Transition Service ServiceEvent)}
    (hrun : Run (fun a event b => a.step event = some b) .initial trace s)
    (hdraws : ∀ e ∈ trace, e.before.draws_new e.label = true) :
    ∀ e ∈ trace, Frozen e.before.db e.after.db := by
  intro e he
  obtain ⟨hgood, hstep⟩ := (Service.run_good hrun hdraws).2 e he
  revert hstep
  cases e.label with
  | crash =>
    intro hstep
    rw [← Option.some.inj hstep]
    exact Frozen.refl e.before.db
  | perform operation now =>
    intro hstep
    unfold Service.step at hstep
    dsimp only at hstep
    split at hstep
    case isFalse => cases hstep
    case isTrue =>
      have hfreezes : Yields (fun _ => Frozen e.before.db) (operation.perform now) e.before.db :=
        perform_freezes hgood.orderly operation
      rw [← Option.some.inj hstep]
      exact hfreezes.transact (Frozen.refl e.before.db)

/-- The files of the first snapshot are not others when it is active and its copy is edited. -/
theorem snapshots_frozen_twice :
    ∃ trace s, Run (fun a event b => Service.step a event = some b) .initial trace s ∧
      trace.length = 13 ∧ ∀ e ∈ trace, Frozen e.before.db e.after.db := by
  have hfollow : ∃ path ∈ Run.follow Service.step .initial build_and_edit,
      path.1.length = 13 ∧ ∀ e ∈ path.1, e.before.draws_new e.label = true := by
    decide +kernel
  obtain ⟨⟨trace, s⟩, hpath, hlength, hdraws⟩ := hfollow
  have hrun := Run.of_follow hpath
  exact ⟨trace, s, hrun, hlength, snapshots_frozen hrun hdraws⟩

end lagraph.registry
