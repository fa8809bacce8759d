import LaGraph.Projects.Lifecycle.Builds

open foundation foundation.Tx

namespace lagraph.registry

variable {db db' : Database} {worker : Worker} {project_id : String} {build : BuildRecord}
  {project : ProjectRow} {draft : SnapshotRow} {job : BuildJobRow}

/-- The rows of the build that the worker has claimed. -/
structure Held (db : Database) (build : BuildRecord) (project : ProjectRow) (draft : SnapshotRow)
    (job : BuildJobRow) : Prop where
  mem_project : project ∈ db.projects
  mem_draft : draft ∈ db.snapshots
  mem_job : job ∈ db.jobs
  building : building_jobs db = [job]
  status : job.status = .building
  of : build.Of job
  project_id : job.project_id = project.id
  snapshot_id : job.snapshot_id = draft.id
  expected_generation : job.expected_generation = project.generation
  own : draft.project_id = project.id
  sealed : draft.status = .sealed
  current : (snapshots_of db project.id).filter (·.status.current) = [draft]
  live : (jobs_of db project.id).filter (·.status.live) = [job]

theorem Orderly.held (h : Orderly (.holding build) db) :
    ∃ project draft job, Held db build project draft job := by
  obtain ⟨job, hbuilding, hof⟩ := h.building
  obtain ⟨hjob, hstatus⟩ := of_filter_singleton hbuilding
  have hstatus := of_decide_eq_true hstatus
  have hlive : job.status.live = true := by
    rw [hstatus]
    rfl
  obtain ⟨project, hproject, hid⟩ := h.owned job hjob hlive
  have hsound := h.sound project hproject
  have hown : job ∈ jobs_of db project.id := mem_jobs_of.mpr ⟨hjob, hid.symm⟩
  obtain ⟨draft, hdraft, hsealed, hjobs⟩ := hsound.draft
  obtain ⟨hone, hbuilds⟩ := hsound.live_job hown hlive
  obtain ⟨hsnapshot, hgeneration⟩ := hjobs job hown hlive
  have hcurrent : draft ∈ snapshots_of db project.id :=
    (of_filter_singleton hdraft).1
  obtain ⟨hmem, hproject'⟩ := mem_snapshots_of.mp hcurrent
  exact ⟨project, draft, job, hproject, hmem, hjob, hbuilding, hstatus, hof, hid.symm, hsnapshot,
    hgeneration, hproject', hsealed.mpr (pending_of_builds hbuilds), hdraft, hone⟩

theorem Held.get_project (h : Held db build project draft job) :
    db.projects.get build.project_id = some project :=
  Table.get_eq_some.mpr ⟨h.mem_project, h.project_id.symm.trans h.of.project_id.symm⟩

theorem Held.get_job (h : Held db build project draft job) : db.jobs.get build.id = some job :=
  Table.get_eq_some.mpr ⟨h.mem_job, h.of.id.symm⟩

theorem Held.get_snapshot (h : Held db build project draft job) :
    db.snapshots.get build.snapshot_id = some draft :=
  Table.get_eq_some.mpr ⟨h.mem_draft, (h.of.snapshot_id.trans h.snapshot_id).symm⟩

/-- No job is being built when the one that was is not any more. -/
theorem building_ended {status : BuildState} {finish : BuildJobRow → BuildJobRow}
    (h : Held db build project draft job) (hfinish : Moves db job status finish)
    (hstatus : status ≠ .building) (hjobs : db'.jobs.rows = db.jobs.rows.map finish) :
    building_jobs db' = [] := by
  rw [building_jobs, hjobs]
  refine filter_map_none fun row hrow => ?_
  by_cases hsame : row = job
  · rw [hsame, hfinish.status, decide_eq_false hstatus]
  · rw [hfinish.others row hrow hsame]
    apply decide_eq_false
    intro hbuilding
    have hmem : row ∈ building_jobs db := List.mem_filter.mpr ⟨hrow, decide_eq_true hbuilding⟩
    rw [h.building, List.mem_singleton] at hmem
    exact hsame hmem

/-- The other snapshots of the project are not current. -/
theorem Held.not_current (h : Held db build project draft job) {row : SnapshotRow}
    (hrow : row ∈ db.snapshots) (hown : row.project_id = project.id) (hne : row ≠ draft) :
    row.status.current = false := by
  rw [← Bool.not_eq_true]
  exact fun hcurrent => hne (eq_of_current h.current (mem_snapshots_of.mpr ⟨hrow, hown⟩) hcurrent)

/-- The snapshots of the project when its build is ready: the current one is active, and the one
that was is validated. -/
structure Promotes (db : Database) (draft : SnapshotRow) (f : SnapshotRow → SnapshotRow) :
    Prop where
  status : (f draft).status = .active
  id : ∀ row, (f row).id = row.id
  project_id : ∀ row, (f row).project_id = row.project_id
  retired : ∀ row ∈ db.snapshots, row ≠ draft → row.project_id = draft.project_id →
    row.status.current = false → (f row).status = .validated
  others : ∀ row ∈ db.snapshots, row.project_id ≠ draft.project_id → f row = row

theorem Orderly.completed {finish : BuildJobRow → BuildJobRow} {promote : SnapshotRow → SnapshotRow}
    {write : ProjectRow → ProjectRow} {next : SnapshotRow} {snapshots : Table SnapshotRow}
    {graph_version : String} (h : Orderly (.holding build) db)
    (hheld : Held db build project draft job) (hprojects : WritesProject project.id write db db')
    (hpromoted : snapshots.rows = db.snapshots.rows.map promote)
    (hfree : snapshots.get next.id = none) (hsnapshots : db'.snapshots = snapshots.insert next)
    (hjobs : db'.jobs.rows = db.jobs.rows.map finish) (huploads : db'.uploads = db.uploads)
    (hpromote : Promotes db draft promote) (hfinish : Moves db job .ready finish)
    (hnext : next.status = .editable) (hnext_project : next.project_id = project.id)
    (hfresh : ∀ upload ∈ db.uploads, upload.snapshot_id ≠ next.id)
    (hwrite : ∀ row, (write row).id = row.id)
    (halike : ProjectRow.Alike { project with
      state := .ready, active_snapshot_id := some draft.id,
      active_graph_version := some graph_version, generation := project.generation + 1 }
      (write project)) : Orderly .polling db' := by
  have hrows (other : String) : snapshots_of db' other =
      (snapshots_of db other).map promote ++ if next.project_id = other then [next] else [] := by
    have hpromoted' := @snapshots_of_map db { db with snapshots := snapshots } other promote
      hpromote.project_id hpromoted
    rw [@snapshots_of_insert { db with snapshots := snapshots } db' other next hfree hsnapshots,
      hpromoted']
  have htouches : Touches project.id db db' := by
    refine hprojects.touches hwrite (fun other hother => ?_) fun other hother => ?_
    · rw [hrows, hnext_project, if_neg (Ne.symm hother), List.append_nil]
      exact snapshots_of_other hother fun row hrow hid =>
        hpromote.others row hrow fun hsame => hid (hsame.trans hheld.own)
    · refine (jobs_of_map hfinish.project_id hjobs).trans (jobs_of_other hother fun row hrow hid => ?_)
      exact hfinish.other hrow fun hsame => hid (hsame.trans hheld.project_id)
  refine h.touch htouches ?_ (fun _ _ _ => hprojects.written hwrite hheld.mem_project) ?_ ?_
  · intro project' hproject' hid'
    obtain ⟨row, hrow, hid, rfl⟩ := hprojects.eq_of_mem hproject' hid'
    rw [Table.eq_of_key hrow hheld.mem_project hid, hrows, if_pos hnext_project,
      jobs_of_map hfinish.project_id hjobs]
    refine (h.sound project hheld.mem_project).completed hheld.live hheld.current hpromote.status
      (hpromote.id draft) ?_ hnext hfinish.status
      (fun other hother => hfinish.others other (mem_jobs_of.mp hother).1) halike
    intro row hrow hne
    obtain ⟨hmem, hown⟩ := mem_snapshots_of.mp hrow
    exact hpromote.retired row hmem hne (hown.trans hheld.own.symm)
      (hheld.not_current hmem hown hne)
  · intro upload hupload hopen snapshot hsnapshot hid
    rw [huploads] at hupload
    rw [hsnapshots, mem_insert_of_get hfree] at hsnapshot
    obtain hold | rfl := hsnapshot
    · rw [← Table.mem_rows, hpromoted, List.mem_map] at hold
      obtain ⟨row, hrow, rfl⟩ := hold
      rw [hpromote.id] at hid
      obtain ⟨heditable, hown⟩ := h.uploads upload hupload hopen row hrow hid
      by_cases hsame : row.project_id = draft.project_id
      · have hcurrent : row.status.current = true := by
          rw [heditable]
          rfl
        have hdraft := eq_of_current hheld.current
          (mem_snapshots_of.mpr ⟨hrow, hsame.trans hheld.own⟩) hcurrent
        rw [hdraft, hheld.sealed] at heditable
        cases heditable
      · rw [hpromote.others row hrow hsame]
        exact ⟨heditable, hown⟩
    · exact absurd hid.symm (hfresh upload hupload)
  · exact building_ended hheld hfinish (by decide) hjobs

/-- What becomes of a snapshot when a build is ready. -/
def SnapshotRow.promoted (project_id draft_id : String) (row : SnapshotRow) : SnapshotRow :=
  if row.id = draft_id then { row with status := .active }
  else if row.project_id = project_id ∧ row.status = .active then { row with status := .validated }
  else row

theorem promoted_rows (t : Table SnapshotRow) (project_id draft_id : String) :
    let retired := t.update
      (t.matching fun row => row.project_id = project_id && row.status = .active)
      (fun row => { row with status := .validated }) fun _ => rfl
    (retired.update (retired.matching (·.id = draft_id)) (fun row => { row with status := .active })
      fun _ => rfl).rows = t.rows.map (·.promoted project_id draft_id) := by
  intro retired
  have hretired : retired.rows = t.rows.map fun row =>
      if (row.project_id = project_id && row.status = .active) = true then
        { row with status := .validated } else row := map_matching
  refine map_matching.trans ?_
  rw [hretired, List.map_map]
  refine List.map_congr_left fun row _ => ?_
  unfold SnapshotRow.promoted
  by_cases hid : row.id = draft_id
  · by_cases hactive : row.project_id = project_id ∧ row.status = .active
    · simp [hid, hactive]
    · simp [hid, hactive]
  · by_cases hactive : row.project_id = project_id ∧ row.status = .active
    · simp [hid, hactive]
    · simp [hid, hactive]

theorem promotes_promoted (hdraft : draft ∈ db.snapshots) :
    Promotes db draft (·.promoted draft.project_id draft.id) where
  status := by simp [SnapshotRow.promoted]
  id row := by
    unfold SnapshotRow.promoted
    split
    · rfl
    · split
      · rfl
      · rfl
  project_id row := by
    unfold SnapshotRow.promoted
    split
    · rfl
    · split
      · rfl
      · rfl
  retired row hrow hne hown hnot := by
    have hid : row.id ≠ draft.id := fun hid => hne (Table.eq_of_key hrow hdraft hid)
    unfold SnapshotRow.promoted
    rw [if_neg hid]
    cases hstatus : row.status with
    | editable | sealed =>
      rw [hstatus] at hnot
      cases hnot
    | active => simp [hown]
    | validated => simp [hstatus]
  others row hrow hother := by
    have hid : row.id ≠ draft.id := by
      intro hid
      rw [Table.eq_of_key hrow hdraft hid] at hother
      exact hother rfl
    unfold SnapshotRow.promoted
    rw [if_neg hid, if_neg]
    exact fun hactive => hother hactive.1

theorem complete_build_orderly {graph_version draft_id : String} {document_count : Nat}
    {new_ids : Nat → String} {now : Moment} (h : Orderly (.holding build) db)
    (hfresh : ∀ upload ∈ db.uploads, upload.snapshot_id ≠ draft_id) :
    KeepsOrder .polling (complete_build build graph_version document_count draft_id new_ids now)
      db := by
  obtain ⟨project, draft, job, hheld⟩ := h.held
  unfold complete_build
  refine project_for_update_bind fun row hrow hid => Yields.raiseIf_bind fun _ => ?_
  obtain rfl : row = project :=
    Option.some.inj ((Table.get_eq_some.mpr ⟨hrow, hid⟩).symm.trans hheld.get_project)
  refine Yields.select_bind (Yields.select_bind ?_)
  rw [hheld.get_job, hheld.get_snapshot]
  refine Yields.orRaise_bind fun _ hjob => Yields.orRaise_bind fun _ hdraft => ?_
  cases hjob
  cases hdraft
  refine Yields.raiseIf_bind fun _ => Yields.execute_bind (Yields.execute_bind (Yields.execute_bind
    (update_job_bind (add_row_bind fun hfree => Yields.select_bind ?_))))
  refine KeepsOrder.bind (Yields.forEach ?_ fun _ _ _ h => add_file_orderly h)
    fun _ _ h => mark_files_orderly h
  refine h.completed hheld rfl (promoted_rows _ _ _) hfree rfl rfl rfl ?_ ?_ rfl rfl hfresh
    (fun _ => rfl) ⟨rfl, rfl, rfl, rfl, rfl⟩
  · rw [← hheld.own]
    exact promotes_promoted hheld.mem_draft
  · exact moves_update hheld.mem_job rfl rfl rfl (fun _ => rfl) fun _ => rfl

theorem add_row_raises {ρ : Type} [Keyed ρ String] {table : Database → Table ρ}
    {put : Database → Table ρ → Database} {row : ρ} (db : Database) :
    Raises (· = .IntegrityError) (add_row table put row) db := by
  unfold add_row
  refine Raises.acquire_bind (Raises.select_bind ?_)
  unfold raiseIf
  split
  · exact rfl
  · exact trivial

/-- The build that the worker holds is still the one to be completed. -/
theorem complete_build_raises {graph_version draft_id : String} {document_count : Nat}
    {new_ids : Nat → String} {now : Moment} (h : Orderly (.holding build) db) :
    Raises (· = .IntegrityError)
      (complete_build build graph_version document_count draft_id new_ids now) db := by
  obtain ⟨project, draft, job, hheld⟩ := h.held
  unfold complete_build project_for_update
  simp only [bind_bind]
  refine Raises.acquire_bind (Raises.select_bind (Raises.orRaise_bind hheld.get_project ?_))
  refine Raises.raiseIf_bind ?_ (Raises.select_bind (Raises.select_bind ?_))
  · rw [not_not, hheld.of.expected_generation, hheld.expected_generation]
  refine Raises.orRaise_bind hheld.get_job (Raises.orRaise_bind hheld.get_snapshot ?_)
  refine Raises.raiseIf_bind (not_not.mpr hheld.status) (Raises.execute_bind (Raises.execute_bind
    (Raises.execute_bind (Raises.bind trivial fun _ db => ?_))))
  refine Raises.bind (add_row_raises db) fun _ db => Raises.select_bind ?_
  exact Raises.bind (Raises.forEach fun _ _ db => add_row_raises db) fun _ _ => trivial

/-- The build has failed. -/
theorem Orderly.failed {finish : BuildJobRow → BuildJobRow} {recast : SnapshotRow → SnapshotRow}
    {write : ProjectRow → ProjectRow} {state : ProjectState} (h : Orderly (.holding build) db)
    (hheld : Held db build project draft job) (hprojects : WritesProject project.id write db db')
    (hsnapshots : db'.snapshots.rows = db.snapshots.rows.map recast)
    (hjobs : db'.jobs.rows = db.jobs.rows.map finish) (huploads : db'.uploads = db.uploads)
    (hrecast : Reseals db draft .editable recast) (hfinish : Moves db job .failed finish)
    (hstate : state.pending = false) (hwrite : ∀ row, (write row).id = row.id)
    (halike : ProjectRow.Alike { project with state := state } (write project)) :
    Orderly .polling db' := by
  have htouches : Touches project.id db db' := by
    refine hprojects.touches hwrite (fun other hother => ?_) fun other hother => ?_
    · exact (snapshots_of_map hrecast.project_id hsnapshots).trans
        (snapshots_of_other hother fun _ => hrecast.other hheld.own)
    · refine (jobs_of_map hfinish.project_id hjobs).trans (jobs_of_other hother fun row hrow hid => ?_)
      exact hfinish.other hrow fun hsame => hid (hsame.trans hheld.project_id)
  refine h.touch htouches ?_ (fun _ _ _ => hprojects.written hwrite hheld.mem_project) ?_ ?_
  · intro project' hproject' hid'
    obtain ⟨row, hrow, hid, rfl⟩ := hprojects.eq_of_mem hproject' hid'
    rw [Table.eq_of_key hrow hheld.mem_project hid, snapshots_of_map hrecast.project_id hsnapshots,
      jobs_of_map hfinish.project_id hjobs]
    exact (h.sound project hheld.mem_project).failed hheld.live hheld.current hrecast.recast
      hfinish.status (fun other hother => hfinish.others other (mem_jobs_of.mp hother).1) hstate
      halike
  · intro upload hupload hopen snapshot hsnapshot hid
    rw [huploads] at hupload
    rw [← Table.mem_rows, hsnapshots, List.mem_map] at hsnapshot
    obtain ⟨row, hrow, rfl⟩ := hsnapshot
    rw [hrecast.id] at hid
    obtain ⟨heditable, hown⟩ := h.uploads upload hupload hopen row hrow hid
    rw [hrecast.project_id]
    refine ⟨?_, hown⟩
    by_cases hsame : row = draft
    · rw [hsame]
      exact hrecast.status
    · rw [hrecast.others row hrow hsame]
      exact heditable
  · exact building_ended hheld hfinish (by decide) hjobs

theorem fail_build_orderly {error_code : String} {now : Moment} (h : Orderly (.holding build) db) :
    KeepsOrder .polling (fail_build build error_code now) db := by
  obtain ⟨project, draft, job, hheld⟩ := h.held
  unfold fail_build
  refine Yields.select_bind (Yields.select_bind (project_for_update_bind fun row hrow hid => ?_))
  obtain rfl : row = project :=
    Option.some.inj ((Table.get_eq_some.mpr ⟨hrow, hid⟩).symm.trans hheld.get_project)
  rw [hheld.get_job, hheld.get_snapshot]
  refine update_job_bind (Yields.execute_bind (Yields.execute_bind ?_))
  refine h.failed hheld rfl map_matching rfl rfl (reseals_update hheld.mem_draft rfl (fun _ => rfl)
    fun _ => rfl) (moves_update hheld.mem_job rfl rfl rfl (fun _ => rfl) fun _ => rfl) ?_
    (fun _ => rfl) ⟨rfl, rfl, rfl, rfl, rfl⟩
  split
  · rfl
  · rfl

theorem fail_build_raises {error_code : String} {now : Moment} (h : Orderly (.holding build) db) :
    Raises (fun _ => False) (fail_build build error_code now) db := by
  obtain ⟨project, draft, job, hheld⟩ := h.held
  unfold fail_build project_for_update
  simp only [bind_bind]
  refine Raises.select_bind (Raises.select_bind (Raises.acquire_bind (Raises.select_bind
    (Raises.orRaise_bind hheld.get_project ?_))))
  rw [hheld.get_job, hheld.get_snapshot]
  exact Raises.bind trivial fun _ db => Raises.execute_bind (Raises.execute_bind trivial)

/-- A project that is not pending is archived or restored. -/
theorem Orderly.rested {write : ProjectRow → ProjectRow} {state : ProjectState}
    (h : Orderly worker db) (hprojects : WritesProject project.id write db db')
    (hsnapshots : db'.snapshots = db.snapshots) (hjobs : db'.jobs = db.jobs)
    (huploads : db'.uploads = db.uploads) (hproject : project ∈ db.projects)
    (hpending : project.state.pending = false) (hstate : state.pending = false)
    (hwrite : ∀ row, (write row).id = row.id)
    (halike : ProjectRow.Alike { project with state := state } (write project)) :
    Orderly worker db' := by
  have hsame (other : String) : snapshots_of db' other = snapshots_of db other ∧
      jobs_of db' other = jobs_of db other := by
    rw [snapshots_of, snapshots_of, jobs_of, jobs_of, hsnapshots, hjobs]
    exact ⟨rfl, rfl⟩
  have htouches : Touches project.id db db' :=
    hprojects.touches hwrite (fun other _ => (hsame other).1) fun other _ => (hsame other).2
  refine h.touch htouches ?_ (fun _ _ _ => hprojects.written hwrite hproject) ?_ ?_
  · intro project' hproject' hid'
    obtain ⟨row, hrow, hid, rfl⟩ := hprojects.eq_of_mem hproject' hid'
    rw [Table.eq_of_key hrow hproject hid, (hsame _).1, (hsame _).2]
    exact (h.sound project hproject).rested hpending hstate halike
  · rw [hsnapshots, huploads]
    exact h.uploads
  · rw [building_jobs, hjobs]
    exact h.building

theorem archive_orderly {now : Moment} (h : Orderly worker db) :
    KeepsOrder worker (archive project_id now) db := by
  unfold archive
  refine project_for_update_bind fun row hrow hid => Yields.raiseIf_bind fun hpending => ?_
  refine h.rested rfl rfl rfl rfl hrow ?_ rfl (fun _ => rfl) ⟨rfl, rfl, rfl, rfl, rfl⟩
  cases hstate : row.state with
  | queued | building => simp [hstate] at hpending
  | draft | ready | failed | archived => rfl

theorem restored_not_pending (row : ProjectRow) : (restored_state row).pending = false := by
  unfold restored_state
  split
  · rfl
  · rfl

theorem restore_orderly {retention now : Moment} (h : Orderly worker db) :
    KeepsOrder worker (restore project_id retention now) db := by
  unfold restore
  refine project_for_update_bind fun row hrow hid => ?_
  split
  · trivial
  refine Yields.raiseIf_bind fun harchived => Yields.raiseIf_bind fun _ => ?_
  refine h.rested rfl rfl rfl rfl hrow ?_ (restored_not_pending row) (fun _ => rfl)
    ⟨rfl, rfl, rfl, rfl, rfl⟩
  rw [not_not.mp harchived]
  rfl

/-- Every job that was being built waits again, with its project. -/
theorem Orderly.recovered {move : BuildJobRow → BuildJobRow} {write : ProjectRow → ProjectRow}
    (h : Orderly .stopped db)
    (hprojects : db'.projects.rows = db.projects.rows.map fun row =>
      if ((building_jobs db).map (·.project_id)).contains row.id = true then write row else row)
    (hsnapshots : db'.snapshots = db.snapshots)
    (hjobs : db'.jobs.rows = db.jobs.rows.map fun row =>
      if decide (row.status = .building) = true then move row else row)
    (huploads : db'.uploads = db.uploads) (hmove : ∀ row, (move row).status = .queued)
    (hsame : ∀ row, (move row).id = row.id ∧ (move row).project_id = row.project_id ∧
      (move row).snapshot_id = row.snapshot_id ∧
      (move row).expected_generation = row.expected_generation)
    (hwrite : ∀ row, (write row).id = row.id)
    (halike : ∀ project, ProjectRow.Alike { project with state := .queued } (write project)) :
    Orderly .polling db' := by
  have hlength : (building_jobs db).length ≤ 1 := h.building
  have hnone : building_jobs db' = [] := by
    rw [building_jobs, hjobs]
    refine filter_map_none fun row _ => ?_
    by_cases hstatus : row.status = .building
    · rw [if_pos (decide_eq_true hstatus), hmove]
      rfl
    · rw [if_neg (by simpa using hstatus), decide_eq_false hstatus]
  rcases hbuilding : building_jobs db with _ | ⟨job, _ | ⟨other, rest⟩⟩
  · -- nothing was being built, and nothing is written
    have hprojects' : db'.projects = db.projects := by
      apply Table.ext_rows
      rw [hprojects, hbuilding]
      simp
    have hjobs' : db'.jobs = db.jobs := by
      apply Table.ext_rows
      rw [hjobs]
      refine (List.map_congr_left fun row hrow => ?_).trans (List.map_id _)
      rw [building_jobs, List.filter_eq_nil_iff] at hbuilding
      exact if_neg (hbuilding row hrow)
    exact Orderly.quiet ⟨h.sound, h.owned, h.uploads, hbuilding⟩
      (quiet_of_same hprojects' hsnapshots hjobs' huploads)
  · obtain ⟨hjob, hstatus⟩ := of_filter_singleton hbuilding
    have hprojects' : WritesProject job.project_id write db db' := by
      rw [WritesProject, hprojects, hbuilding]
      simp
    refine h.moved hprojects' hsnapshots hjobs huploads hjob ?_ ⟨?_, ?_, ?_, ?_, ?_, ?_⟩ rfl rfl hwrite
      halike hnone
    · rw [of_decide_eq_true hstatus]
      rfl
    · rw [if_pos hstatus, hmove]
    · rw [if_pos hstatus, (hsame job).2.2.1]
    · rw [if_pos hstatus, (hsame job).2.2.2]
    · intro row
      split
      · exact (hsame row).1
      · rfl
    · intro row
      split
      · exact (hsame row).2.1
      · rfl
    · intro row hrow hne
      refine if_neg fun hrow' => hne ?_
      have hmem : row ∈ building_jobs db := List.mem_filter.mpr ⟨hrow, hrow'⟩
      rw [hbuilding, List.mem_singleton] at hmem
      exact hmem
  · rw [hbuilding] at hlength
    simp at hlength

/-- The worker starts: a build that was left behind waits again. -/
theorem recover_builds_orderly (h : Orderly .stopped db) : KeepsOrder .polling recover_builds db := by
  unfold recover_builds
  refine Yields.select_bind (Yields.execute_bind (Yields.execute_bind ?_))
  exact h.recovered map_matching rfl map_matching rfl (fun _ => rfl) (fun _ => ⟨rfl, rfl, rfl, rfl⟩)
    (fun _ => rfl) fun _ => ⟨rfl, rfl, rfl, rfl, rfl⟩

section Purge

/-- The rows that are left when those of a project have gone. -/
theorem filter_deleted {ρ : Type} {l : List ρ} {p q : ρ → Bool}
    (h : ∀ r ∈ l, q r = true → p r = false) : (l.filter (!p ·)).filter q = l.filter q := by
  rw [List.filter_filter]
  refine List.filter_congr fun r hr => ?_
  cases hq : q r with
  | false => rfl
  | true => rw [h r hr hq]; rfl

/-- An archived project is purged, with the rows that refer to it or without them. -/
theorem Orderly.purged {gone : BuildJobRow → Bool} (h : Orderly worker db)
    (hproject : project ∈ db.projects) (hpending : project.state.pending = false)
    (hprojects : db'.projects = db.projects.delete (·.id = project.id))
    (hsnapshots : ∀ other, other ≠ project.id → snapshots_of db' other = snapshots_of db other)
    (hkept : ∀ snapshot ∈ db'.snapshots, snapshot ∈ db.snapshots)
    (hjobs : db'.jobs = db.jobs.delete gone)
    (hgone : ∀ job ∈ db.jobs, gone job = true → job.project_id = project.id)
    (huploads : ∀ upload ∈ db'.uploads, upload ∈ db.uploads) : Orderly worker db' := by
  have hno_build : ∀ job ∈ db.jobs, job.project_id = project.id → job.status.live = false := by
    intro job hjob hid
    have hnone := (h.sound project hproject).no_build hpending
    rw [List.filter_eq_nil_iff] at hnone
    simpa using hnone job (mem_jobs_of.mpr ⟨hjob, hid⟩)
  have htouches : Touches project.id db db' := by
    refine ⟨fun other hother _ => ?_, fun other hother hid => ?_, hsnapshots, fun other hother => ?_⟩
    · rw [hprojects] at hother
      exact (Table.mem_delete.mp hother).1
    · rw [hprojects]
      exact Table.mem_delete.mpr ⟨hother, by simpa using hid⟩
    · rw [jobs_of, hjobs]
      refine filter_deleted fun job hjob hid => ?_
      rw [← Bool.not_eq_true]
      exact fun hgone' => hother ((of_decide_eq_true hid).symm.trans (hgone job hjob hgone'))
  refine h.touch htouches ?_ ?_ ?_ ?_
  · intro other hother hid
    rw [hprojects] at hother
    have hnot := (Table.mem_delete.mp hother).2
    simp [hid] at hnot
  · intro job hjob hlive
    obtain ⟨hjob, hid⟩ := mem_jobs_of.mp hjob
    rw [hjobs] at hjob
    rw [hno_build job (Table.mem_delete.mp hjob).1 hid] at hlive
    cases hlive
  · intro upload hupload hopen snapshot hsnapshot hid
    exact h.uploads upload (huploads upload hupload) hopen snapshot (hkept snapshot hsnapshot) hid
  · have hsame : building_jobs db' = building_jobs db := by
      rw [building_jobs, hjobs]
      refine filter_deleted fun job hjob hstatus => ?_
      rw [← Bool.not_eq_true]
      intro hgone'
      have hlive := hno_build job hjob (hgone job hjob hgone')
      rw [of_decide_eq_true hstatus] at hlive
      cases hlive
    rw [hsame]
    exact h.building

theorem purge_expired_orderly {enforced : Bool} {retention now : Moment} (h : Orderly worker db)
    (hfits : ∀ job ∈ db.jobs, Fits db job.snapshot_id job.project_id) :
    KeepsOrder worker (purge_expired enforced project_id retention now) db := by
  unfold purge_expired
  refine project_for_update_bind fun row hrow hid => ?_
  subst hid
  split
  · trivial
  refine Yields.raiseIf_bind fun harchived => Yields.execute_bind ?_
  have hpending : row.state.pending = false := by
    rw [not_or, not_not] at harchived
    rw [harchived.1]
    rfl
  cases enforced with
  | false =>
    have hnone (db : Database) : db.jobs = db.jobs.delete fun _ => false := by
      apply Table.ext_rows
      simp [Table.delete]
    exact h.purged hrow hpending rfl (fun _ _ => rfl) (fun _ hmem => hmem) (hnone db)
      (fun _ _ hgone => absurd hgone Bool.false_ne_true) fun _ hmem => hmem
  | true =>
    refine h.purged hrow hpending rfl (fun other hother => ?_)
      (fun _ hmem => (Table.mem_delete.mp hmem).1) rfl (fun job hjob hgone => ?_)
      fun _ hmem => (Table.mem_delete.mp hmem).1
    · refine filter_deleted fun snapshot _ hown => decide_eq_false fun hid => ?_
      exact hother ((of_decide_eq_true hown).symm.trans hid)
    · rw [Bool.or_eq_true] at hgone
      cases hgone with
      | inl hown => exact of_decide_eq_true hown
      | inr hsnapshot =>
        obtain ⟨snapshot, hmem, hsnapshot⟩ := List.any_eq_true.mp hsnapshot
        rw [Bool.and_eq_true, decide_eq_true_eq, decide_eq_true_eq] at hsnapshot
        exact (hfits job hjob snapshot hmem hsnapshot.1).symm.trans hsnapshot.2

end Purge

end lagraph.registry
