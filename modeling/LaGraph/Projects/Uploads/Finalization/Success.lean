import LaGraph.Projects.Uploads.Finalization

open foundation foundation.Tx

namespace lagraph.registry

variable {project_id snapshot_id : String} {blobs : List (String × String)} {written_at : Moment}
  {d d' : Database} {call : FinalizeCall} {upload : UploadSessionRow}

/-- The file of a part takes the place of the files of its name. -/
def put_part (project_id snapshot_id : String) (written_at : Moment) (item : UploadPartRow × String)
    (db : Database) : Database :=
  insert_file (item.1.file item.2 snapshot_id project_id written_at)
    (delete_name snapshot_id item.1.logical_filename db db)

/-- Two databases that differ in the files and the contents at most. -/
structure SameSessions (d d' : Database) : Prop where
  uploads : d'.uploads = d.uploads
  projects : d'.projects = d.projects
  idempotency : d'.idempotency = d.idempotency

theorem write_part_run {item : UploadPartRow × String}
    (hblob : (blob_path blobs item.1.id).isSome) (hfresh : d.files.get item.2 = none) :
    ∃ d', (write_part project_id snapshot_id blobs written_at item).run d = .ok ((), d') ∧
      SameSessions d d' ∧
      d'.files = (put_part project_id snapshot_id written_at item d).files := by
  obtain ⟨path, hpath⟩ := Option.isSome_iff_exists.mp hblob
  have hfree : (delete_name snapshot_id item.1.logical_filename d d).files.get item.2 = none := by
    by_contra hsome
    exact get_delete_name hsome hfresh
  have hwrite : ∀ e : Database, SameSessions d e → e.files = d.files → ∃ d',
      (do
        execute fun view db => delete_name snapshot_id item.1.logical_filename view db
        add_file (item.1.file item.2 snapshot_id project_id written_at) :
          Transaction Unit).run e = .ok ((), d') ∧ SameSessions d d' ∧
        d'.files = (put_part project_id snapshot_id written_at item d).files := by
    intro e hsame hfiles
    refine ⟨put_part project_id snapshot_id written_at item e, ?_,
      ⟨hsame.uploads, hsame.projects, hsame.idempotency⟩, ?_⟩
    · have hunused : ¬ ((delete_name snapshot_id item.1.logical_filename e e).files.get
          item.2).isSome = true := by
        rw [delete_name, hfiles]
        exact Option.not_isSome_iff_eq_none.mpr hfree
      rw [run_execute_bind, add_file, add_row, run_acquire_bind, run_select_bind, run_raiseIf_bind]
      exact if_neg hunused
    · rw [put_part, insert_file, delete_name, hfiles]
      rfl
  unfold write_part
  rw [hpath]
  simp only [orRaise, run_ret_bind, run_select_bind, run_whenever_bind]
  split
  · rw [run_execute_bind]
    exact hwrite _ ⟨rfl, rfl, rfl⟩ rfl
  · exact hwrite _ ⟨rfl, rfl, rfl⟩ rfl

theorem files_of_put_part {item : UploadPartRow × String} (hfresh : d.files.get item.2 = none) :
    files_of (put_part project_id snapshot_id written_at item d) snapshot_id =
      (files_of d snapshot_id).filter (·.logical_filename ≠ item.1.logical_filename) ++
        [item.1.file item.2 snapshot_id project_id written_at] := by
  have hfree : (delete_name snapshot_id item.1.logical_filename d d).files.get item.2 = none := by
    by_contra hsome
    exact get_delete_name hsome hfresh
  have hsnapshot : (item.1.file item.2 snapshot_id project_id written_at).snapshot_id =
      snapshot_id := rfl
  rw [put_part, files_of_insert hfree, files_of_delete rfl, if_pos hsnapshot]

/-- The files of a name in a snapshot. -/
def files_named (db : Database) (snapshot_id name : String) : List SnapshotFileRow :=
  (files_of db snapshot_id).filter (·.logical_filename = name)

theorem files_named_put_part {item : UploadPartRow × String} {name : String}
    (hfresh : d.files.get item.2 = none) :
    files_named (put_part project_id snapshot_id written_at item d) snapshot_id name =
      if item.1.logical_filename = name then
        [item.1.file item.2 snapshot_id project_id written_at]
      else files_named d snapshot_id name := by
  rw [files_named, files_of_put_part hfresh, List.filter_append, List.filter_filter]
  have hadded : (item.1.file item.2 snapshot_id project_id written_at).logical_filename =
      item.1.logical_filename := rfl
  by_cases hname : item.1.logical_filename = name
  · rw [if_pos hname, List.filter_eq_nil_iff.mpr, List.nil_append, List.filter_singleton, hadded,
      decide_eq_true hname]
    · rfl
    · intro file _
      simp [hname]
  · rw [if_neg hname, List.filter_singleton, hadded, decide_eq_false hname]
    refine (List.append_nil _).trans (List.filter_congr fun file _ => ?_)
    by_cases hfile : file.logical_filename = name
    · simp [hfile, Ne.symm hname]
    · simp [hfile]

theorem get_put_part {item : UploadPartRow × String} {id : String} (hid : item.2 ≠ id)
    (hfresh : d.files.get id = none) :
    (put_part project_id snapshot_id written_at item d).files.get id = none := by
  by_contra hsome
  cases get_insert_file hsome with
  | inl hsome => exact get_delete_name hsome hfresh
  | inr hsame => exact hid hsame

/-- The loop over parts of different names. -/
theorem write_parts_run {items : List (UploadPartRow × String)}
    (hblobs : ∀ item ∈ items, (blob_path blobs item.1.id).isSome)
    (hnames : (items.map (·.1.logical_filename)).Nodup) (hids : (items.map (·.2)).Nodup)
    (hfresh : ∀ item ∈ items, d.files.get item.2 = none) :
    ∃ d', (forEach (write_part project_id snapshot_id blobs written_at) items).run d =
        .ok ((), d') ∧ SameSessions d d' ∧
      (∀ item ∈ items, files_named d' snapshot_id item.1.logical_filename =
        [item.1.file item.2 snapshot_id project_id written_at]) ∧
      ∀ name ∉ items.map (·.1.logical_filename),
        files_named d' snapshot_id name = files_named d snapshot_id name := by
  induction items generalizing d with
  | nil => exact ⟨d, rfl, ⟨rfl, rfl, rfl⟩, fun _ hitem => absurd hitem List.not_mem_nil,
      fun _ _ => rfl⟩
  | cons item items ih =>
    rw [List.map_cons, List.nodup_cons] at hnames hids
    have hitem := hfresh item List.mem_cons_self
    obtain ⟨d₁, hrun₁, hsame₁, hfiles₁⟩ := @write_part_run project_id snapshot_id blobs written_at d
      item (hblobs item List.mem_cons_self) hitem
    have hnamed : ∀ name, files_named d₁ snapshot_id name =
        files_named (put_part project_id snapshot_id written_at item d) snapshot_id name := by
      intro name
      rw [files_named, files_of, hfiles₁]
      rfl
    have hfresh₁ : ∀ other ∈ items, d₁.files.get other.2 = none := by
      intro other hother
      rw [hfiles₁]
      refine get_put_part (fun hid => hids.1 ?_) (hfresh other (List.mem_cons_of_mem _ hother))
      exact hid ▸ List.mem_map_of_mem hother
    obtain ⟨d₂, hrun₂, hsame₂, hwritten, hkept⟩ := ih
      (fun other hother => hblobs other (List.mem_cons_of_mem _ hother)) hnames.2 hids.2 hfresh₁
    refine ⟨d₂, ?_, ⟨hsame₂.uploads.trans hsame₁.uploads, hsame₂.projects.trans hsame₁.projects,
      hsame₂.idempotency.trans hsame₁.idempotency⟩, fun other hother => ?_, fun name hname => ?_⟩
    · rw [forEach, run_bind, hrun₁]
      exact hrun₂
    · cases List.mem_cons.mp hother with
      | inl hsame =>
        rw [hsame, hkept _ hnames.1, hnamed, files_named_put_part hitem, if_pos rfl]
      | inr hother => exact hwritten other hother
    · rw [List.map_cons, List.mem_cons, not_or] at hname
      rw [hkept _ hname.2, hnamed, files_named_put_part hitem, if_neg (Ne.symm hname.1)]

/-- The database admits the commit of a call for a session. -/
structure Admits (call : FinalizeCall) (d : Database) (upload : UploadSessionRow) : Prop where
  unused : d.idempotency.get call.record_key = none
  session : d.uploads.get call.session_id = some upload
  of_project : upload.project_id = call.project_id
  opened : upload.state = .opened
  current : call.now < upload.expires_at
  editable : ∃ project, d.projects.get call.project_id = some project ∧
    project.state.locked = false
  uploaded : ∀ part ∈ upload.parts, part.state = .uploaded
  ids : ((List.range upload.parts.length).map call.new_ids).Nodup
  fresh : ∀ i < upload.parts.length, d.files.get (call.new_ids i) = none

/-- With the contents of all parts the call commits, and each part is one file of the
snapshot. -/
theorem commit_run (h : Admits call d upload)
    (hnames : (upload.parts.map (·.logical_filename)).Nodup)
    (hblobs : ∀ part ∈ upload.parts, (blob_path blobs part.id).isSome) :
    ∃ d', (call.commit blobs).run d = .ok ((), d') ∧
      ∀ part ∈ upload.parts, ∃ file, files_named d' upload.snapshot_id part.logical_filename =
        [file] ∧ file.sha256 = part.expected_sha256 ∧ file.size = part.expected_size := by
  obtain ⟨project, hproject, heditable⟩ := h.editable
  have hsession : (d.uploads.get call.session_id).filter (·.project_id = call.project_id) =
      some upload := by
    rw [h.session, Option.filter_some, if_pos (decide_eq_true h.of_project)]
  have hopen : ¬ (upload.state ≠ .opened ∨ upload.expires_at ≤ call.now) := by
    rw [not_or, not_not, Nat.not_le]
    exact ⟨h.opened, h.current⟩
  have hlocked : ¬ project.state.locked = true := by
    rw [heditable]
    exact Bool.false_ne_true
  have huploaded : ¬ ∃ part ∈ upload.parts, part.state ≠ .uploaded := by
    rintro ⟨part, hpart, hstate⟩
    exact hstate (h.uploaded part hpart)
  have hdrawn : ∀ item ∈ drawn upload.parts call.new_ids, item.1 ∈ upload.parts ∧
      d.files.get item.2 = none := by
    intro item hitem
    have hpart := List.mem_map_of_mem (f := (·.1)) hitem
    have hid := List.mem_map_of_mem (f := (·.2)) hitem
    rw [drawn_parts] at hpart
    rw [drawn_ids] at hid
    obtain ⟨i, hi, hsame⟩ := List.mem_map.mp hid
    exact ⟨hpart, hsame ▸ h.fresh i (List.mem_range.mp hi)⟩
  have hdistinct : ((drawn upload.parts call.new_ids).map (·.1.logical_filename)).Nodup := by
    rw [← drawn_parts upload.parts call.new_ids, List.map_map] at hnames
    exact hnames
  obtain ⟨d₁, hrun, hsame, hwritten, -⟩ := @write_parts_run call.project_id upload.snapshot_id blobs
    call.now d (drawn upload.parts call.new_ids)
    (fun item hitem => hblobs _ (hdrawn item hitem).1) hdistinct
    (drawn_ids upload.parts call.new_ids ▸ h.ids) fun item hitem => (hdrawn item hitem).2
  have hunused : ¬ (d₁.idempotency.get call.record_key).isSome = true := by
    rw [hsame.idempotency, h.unused]
    exact Bool.false_ne_true
  have hprior : truthy ((d.idempotency.get call.record_key).map (·.resource_id)) = false := by
    rw [h.unused]
    rfl
  rw [FinalizeCall.record_key] at hprior hunused
  unfold FinalizeCall.commit finalize_upload idempotent_resource project_for_update
  rw [run_select_bind, whenever, if_pos hprior, run_select_bind, hsession]
  simp only [orRaise, bind_bind]
  rw [run_ret_bind, run_raiseIf_bind, if_neg hopen, run_acquire_bind, run_select_bind, hproject]
  simp only
  rw [run_ret_bind, run_raiseIf_bind, if_neg hlocked, run_raiseIf_bind, if_neg huploaded, run_bind]
  rw [drawn] at hrun
  rw [hrun, Except.bind, update_uploads, update_project, remember, run_execute_bind,
    run_execute_bind, run_acquire_bind, run_select_bind, run_raiseIf_bind, if_neg hunused,
    run_execute]
  refine ⟨_, rfl, fun part hpart => ?_⟩
  rw [← drawn_parts upload.parts call.new_ids] at hpart
  obtain ⟨item, hitem, rfl⟩ := List.mem_map.mp hpart
  exact ⟨_, hwritten item hitem, rfl, rfl⟩

end lagraph.registry
