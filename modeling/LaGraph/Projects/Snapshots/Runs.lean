import LaGraph.Projects.Snapshots.Operations

open foundation foundation.Tx

namespace lagraph.registry

variable {records : List BuildRecord} {db : Database}

/-- The files of a snapshot as the worker copies them: each under its name, from the path
of its content. -/
def worker_sources (files : List (SnapshotFileRow × String)) : List (String × String) :=
  files.map fun item => (item.1.logical_filename, item.2)

/-- `snapshot_files` returns every file of the snapshot once, with the path of its
content, under names that are all different. -/
def ListsAll (db : Database) (snapshot_id : String) : Prop :=
  ∃ listed, (snapshot_files snapshot_id).run db = .ok (listed, db) ∧
    (listed.map (·.1)).Perm (files_of db snapshot_id) ∧
    (∀ item ∈ listed, ∃ blob, db.blobs.get (item.1.project_id, item.1.sha256) = some blob ∧
      blob.storage_path = item.2) ∧
    ((worker_sources listed).map (·.1)).Nodup

/-- A join that finds a partner for every row returns every row. -/
theorem filterMap_join {l : List SnapshotFileRow} {partner : SnapshotFileRow → Option BlobRow}
    (h : ∀ row ∈ l, (partner row).isSome) :
    (l.filterMap fun row => (partner row).map fun blob => (row, blob.storage_path)).map (·.1) =
      l := by
  induction l with
  | nil => rfl
  | cons row l ih =>
    obtain ⟨blob, hblob⟩ := Option.isSome_iff_exists.mp (h row List.mem_cons_self)
    have hrest := ih fun other hother => h other (List.mem_cons_of_mem row hother)
    simp [hblob, hrest]

/-- The files of an existing project's snapshot are all listed. -/
theorem Linked.lists_all {snapshot : SnapshotRow} {project : ProjectRow} (h : Linked records db)
    (hsnapshot : snapshot ∈ db.snapshots) (hproject : project ∈ db.projects)
    (hown : project.id = snapshot.project_id) : ListsAll db snapshot.id := by
  have hperm := List.mergeSort_perm (files_of db snapshot.id) fun a b =>
    decide (a.logical_filename ≤ b.logical_filename)
  have hlisted := filterMap_join fun row hrow => show
      (db.blobs.get (row.project_id, row.sha256)).isSome by
    obtain ⟨hfile, hid⟩ := List.mem_filter.mp (hperm.mem_iff.mp hrow)
    have hfits : snapshot.project_id = row.project_id :=
      h.files row hfile snapshot hsnapshot (of_decide_eq_true hid).symm
    exact h.blobs row hfile ⟨project, hproject, hown.trans hfits⟩
  refine ⟨_, rfl, ?_, ?_, ?_⟩
  · rw [← hlisted] at hperm
    exact hperm
  · intro item hitem
    obtain ⟨row, -, hrow⟩ := List.mem_filterMap.mp hitem
    obtain ⟨blob, hblob, rfl⟩ := Option.map_eq_some_iff.mp hrow
    exact ⟨blob, hblob, rfl⟩
  · have hnames := (hperm.map (·.logical_filename)).nodup_iff.mpr (h.names_nodup snapshot.id)
    rw [← hlisted, List.map_map] at hnames
    rw [worker_sources, List.map_map]
    exact hnames

/-- A transaction that claims nothing adds no record. -/
theorem KeepsLinks.no_record {α : Type} {t : Transaction α} (h : KeepsLinks records t db) :
    Yields (fun record db => Linked (records ++ Option.toList record) db)
      (t >>= fun _ => (pure none : Transaction (Option BuildRecord))) db := by
  refine KeepsLinks.bind h fun _ db hdb => ?_
  have hsame : Linked (records ++ []) db := by
    rw [List.append_nil]
    exact hdb
  exact hsame

theorem perform_yields {s s' : Registry} {operation : ProjectOperation} {now : Moment}
    (h : Linked s.records s.db) (hclaimed : operation.claimed s.records = true)
    (hdraws : DrawsUnused ⟨s, (operation, now), s'⟩) :
    Yields (fun record db => Linked (s.records ++ record.toList) db) (operation.perform now)
      s.db := by
  cases operation with
  | create_project ids subject username tenant_id key =>
    exact (create_project_keeps h hdraws.1 hdraws.2).no_record
  | create_upload_session => exact (create_upload_session_keeps h).no_record
  | mark_part_uploaded => exact (mark_part_uploaded_keeps h).no_record
  | finalize_upload => exact (finalize_upload_keeps h).no_record
  | delete_file => exact (delete_file_keeps h).no_record
  | cleanup_expired_uploads => exact (cleanup_expired_uploads_keeps h).no_record
  | submit_build => exact (submit_build_keeps h).no_record
  | claim_build => exact claim_build_yields h
  | update_file_lifecycle => exact (mark_files_keeps h).no_record
  | complete_build build graph_version document_count draft_id new_ids =>
    exact (complete_build_keeps h (of_decide_eq_true hclaimed) hdraws).no_record
  | fail_build => exact (fail_build_keeps h).no_record
  | recover_builds => exact (recover_builds_keeps h).no_record
  | archive => exact (archive_keeps h).no_record
  | restore => exact (restore_keeps h).no_record
  | purge_expired => exact (purge_expired_keeps h).no_record

/-- What every operation does to the links, if the identifiers it draws are unused. -/
theorem Linked.step {s s' : Registry} {operation : ProjectOperation × Moment}
    (h : Linked s.records s.db) (hstep : s.step operation = some s')
    (hdraws : DrawsUnused ⟨s, operation, s'⟩) : Linked s'.records s'.db := by
  unfold Registry.step at hstep
  split at hstep
  · rename_i hclaimed
    have hyields := perform_yields h hclaimed hdraws
    cases hstep
    cases hrun : (operation.1.perform operation.2).run s.db with
    | ok result =>
      simp only [transact_ok hrun]
      exact hyields.run hrun
    | error e =>
      simp only [transact_error hrun, List.append_nil]
      exact h
  · cases hstep

/-- In every run the contents of all files are there, and every snapshot of an existing
project is listed, and built, in full. -/
theorem snapshots_stay_full {s : Registry}
    {trace : List (Transition Registry (ProjectOperation × Moment))}
    (hrun : Run (fun a operation b => a.step operation = some b) .empty trace s)
    (hdraws : ∀ e ∈ trace, DrawsUnused e) :
    (∀ file ∈ s.db.files, (∃ project ∈ s.db.projects, project.id = file.project_id) →
      HasBlob s.db file.project_id file.sha256) ∧
    (∀ snapshot ∈ s.db.snapshots, (∃ project ∈ s.db.projects, project.id = snapshot.project_id) →
      ListsAll s.db snapshot.id) ∧
    ∀ build ∈ s.records, (∃ snapshot ∈ s.db.snapshots, snapshot.id = build.snapshot_id) →
      (∃ project ∈ s.db.projects, project.id = build.project_id) →
        ListsAll s.db build.snapshot_id := by
  have hstart : Linked Registry.empty.records Registry.empty.db := Linked.empty
  have hlinked : Linked s.records s.db := (@Run.invariant _ _ _ _ _ _
    (fun a : Registry => Linked a.records a.db) DrawsUnused hrun hstart hdraws
    fun _ _ _ hstep hunused hbefore => hbefore.step hstep hunused).1
  refine ⟨hlinked.blobs, ?_, ?_⟩
  · rintro snapshot hsnapshot ⟨project, hproject, hown⟩
    exact hlinked.lists_all hsnapshot hproject hown
  · rintro build hbuild ⟨snapshot, hsnapshot, hid⟩ ⟨project, hproject, hown⟩
    have hfits : snapshot.project_id = build.project_id :=
      hlinked.records build hbuild snapshot hsnapshot hid
    rw [← hid]
    exact hlinked.lists_all hsnapshot hproject (hown.trans hfits.symm)

/-- Operations that end no build, one after the other. -/
theorem run_of_operations {operations : List (ProjectOperation × Moment)}
    (h : ∀ operation ∈ operations, ∀ records, operation.1.claimed records = true) (s : Registry) :
    ∃ trace s', Run (fun a operation b => a.step operation = some b) s trace s' ∧
      trace.map (·.label) = operations := by
  induction operations generalizing s with
  | nil => exact ⟨[], s, .nil, rfl⟩
  | cons operation operations ih =>
    obtain ⟨next, hnext⟩ : ∃ next, s.step operation = some next := by
      rw [Registry.step, if_pos (h operation List.mem_cons_self s.records)]
      exact ⟨_, rfl⟩
    obtain ⟨trace, s', hrun, hlabels⟩ :=
      ih (fun other hother => h other (List.mem_cons_of_mem operation hother)) next
    exact ⟨_, s', Run.cons hnext hrun, by rw [List.map_cons, hlabels]⟩

/-- A file is uploaded, its snapshot is taken to be built, and the project is archived and
purged. -/
def upload_and_purge : List (ProjectOperation × Moment) :=
  [(.create_upload_session "s" "p" [⟨"part", "law.md", "text/markdown", 2, "h"⟩] "u" "k" 100, 1),
    (.mark_part_uploaded "part" "tmp" 2, 2),
    (.finalize_upload "p" "s" [("part", "blobs/h")] (fun _ => "f") "u" "k", 3),
    (.submit_build "b" "p" "u" "k", 4), (.claim_build "w", 5), (.recover_builds, 6),
    (.archive "p", 7), (.purge_expired true "p" 10, 20)]

/-- The upload and the purge of a new project keep all snapshots full. -/
theorem snapshots_stay_full_upload :
    ∃ trace s, Run (fun a operation b => Registry.step a operation = some b) .empty trace s ∧
      trace.length = 9 ∧ ∀ snapshot ∈ s.db.snapshots,
        (∃ project ∈ s.db.projects, project.id = snapshot.project_id) →
          ListsAll s.db snapshot.id := by
  have hstart : ∃ s, Registry.step .empty
      (.create_project ⟨"p", "m", "d"⟩ "u" "n" "t" "k", 0) = some s := ⟨_, rfl⟩
  obtain ⟨s₁, hcreated⟩ := hstart
  obtain ⟨trace, s, hrun, hlabels⟩ := @run_of_operations upload_and_purge (by
    intro operation hoperation records
    simp only [upload_and_purge, List.mem_cons, List.not_mem_nil, or_false] at hoperation
    rcases hoperation with rfl | rfl | rfl | rfl | rfl | rfl | rfl | rfl <;> rfl) s₁
  have hall := Run.cons hcreated hrun
  refine ⟨_, s, hall, ?_, (snapshots_stay_full hall fun e he => ?_).2.1⟩
  · have hlength := congrArg List.length hlabels
    rw [List.length_map] at hlength
    rw [List.length_cons, hlength]
    rfl
  · cases List.mem_cons.mp he with
    | inl hfirst =>
      rw [hfirst]
      have hnothing : ∀ {ρ : Type} [Keyed ρ String] (row : ρ), row ∉ (Table.empty : Table ρ) :=
        fun _ => Table.not_mem_empty
      exact ⟨⟨fun row h => absurd h (hnothing row), fun row h => absurd h (hnothing row),
        fun row h => absurd h (hnothing row), fun row h => absurd h List.not_mem_nil⟩,
        fun row h => absurd h (hnothing row)⟩
    | inr hlater =>
      have hlabel : e.label ∈ upload_and_purge := hlabels ▸ List.mem_map_of_mem hlater
      simp only [upload_and_purge, List.mem_cons, List.not_mem_nil, or_false] at hlabel
      unfold DrawsUnused
      rcases hlabel with h | h | h | h | h | h | h | h <;> rw [h] <;> trivial

end lagraph.registry
