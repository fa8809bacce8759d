import LaGraph.Projects.Snapshots

open foundation foundation.Tx

namespace lagraph.registry

section

/-- A project has one snapshot of such a status at a time. -/
def SnapshotStatus.current : SnapshotStatus → Bool
  | .editable | .sealed => true
  | .active | .validated => false

/-- A build that has not ended. -/
def BuildState.live : BuildState → Bool
  | .queued | .building => true
  | .ready | .failed => false

/-- A project whose snapshot is being built or about to be. -/
def ProjectState.pending : ProjectState → Bool
  | .queued | .building => true
  | .draft | .ready | .failed | .archived => false

/-- The live builds of a project in that state. -/
def ProjectState.builds : ProjectState → List BuildState
  | .queued => [.queued]
  | .building => [.building]
  | .draft | .ready | .failed | .archived => []

def snapshots_of (db : Database) (project_id : String) : List SnapshotRow :=
  db.snapshots.rows.filter (·.project_id = project_id)

def jobs_of (db : Database) (project_id : String) : List BuildJobRow :=
  db.jobs.rows.filter (·.project_id = project_id)

def building_jobs (db : Database) : List BuildJobRow :=
  db.jobs.rows.filter (·.status = .building)

/-- What a project's row says about its snapshots and jobs: one snapshot is current, sealed
while the one live build of it is pending; the active one is named with its version; and the
generation counts the builds that are ready. -/
structure Sound (project : ProjectRow) (snapshots : List SnapshotRow) (jobs : List BuildJobRow) :
    Prop where
  draft : ∃ draft, snapshots.filter (·.status.current) = [draft] ∧
    (draft.status = .sealed ↔ project.state.pending = true) ∧
    ∀ job ∈ jobs, job.status.live = true →
      job.snapshot_id = draft.id ∧ job.expected_generation = project.generation
  builds : (jobs.filter (·.status.live)).map (·.status) = project.state.builds
  active : (snapshots.filter (·.status = .active)).map (·.id) = project.active_snapshot_id.toList
  version : project.active_graph_version.isSome = project.active_snapshot_id.isSome
  generation : project.generation = jobs.countP (·.status = .ready)

/-- The only worker: it is not running, it polls, or it has claimed a build. -/
inductive Worker
  | stopped
  | polling
  | holding (build : BuildRecord)
  deriving DecidableEq, Repr

/-- The record that a claim of the job gives. -/
structure BuildRecord.Of (build : BuildRecord) (job : BuildJobRow) : Prop where
  id : build.id = job.id
  project_id : build.project_id = job.project_id
  snapshot_id : build.snapshot_id = job.snapshot_id
  expected_generation : build.expected_generation = job.expected_generation

/-- Which jobs are being built. -/
def Worker.Builds (jobs : List BuildJobRow) : Worker → Prop
  | .stopped => jobs.length ≤ 1
  | .polling => jobs = []
  | .holding build => ∃ job, jobs = [job] ∧ build.Of job

structure Orderly (worker : Worker) (db : Database) : Prop where
  sound : ∀ project ∈ db.projects, Sound project (snapshots_of db project.id) (jobs_of db project.id)
  owned : ∀ job ∈ db.jobs, job.status.live = true →
    ∃ project ∈ db.projects, project.id = job.project_id
  uploads : ∀ upload ∈ db.uploads, upload.state = .opened →
    ∀ snapshot ∈ db.snapshots, snapshot.id = upload.snapshot_id →
      snapshot.status = .editable ∧ snapshot.project_id = upload.project_id
  building : worker.Builds (building_jobs db)

/-- What is written of other projects: nothing. -/
structure Touches (project_id : String) (db db' : Database) : Prop where
  projects : ∀ project ∈ db'.projects, project.id ≠ project_id → project ∈ db.projects
  kept : ∀ project ∈ db.projects, project.id ≠ project_id → project ∈ db'.projects
  snapshots : ∀ other, other ≠ project_id → snapshots_of db' other = snapshots_of db other
  jobs : ∀ other, other ≠ project_id → jobs_of db' other = jobs_of db other

variable {db db' : Database} {worker worker' : Worker} {project_id : String}

theorem mem_snapshots_of {snapshot : SnapshotRow} : snapshot ∈ snapshots_of db project_id ↔
    snapshot ∈ db.snapshots ∧ snapshot.project_id = project_id := by
  rw [snapshots_of, List.mem_filter, decide_eq_true_eq]
  rfl

theorem mem_jobs_of {job : BuildJobRow} : job ∈ jobs_of db project_id ↔
    job ∈ db.jobs ∧ job.project_id = project_id := by
  rw [jobs_of, List.mem_filter, decide_eq_true_eq]
  rfl

section Rows

variable {ρ κ : Type} [Keyed ρ κ] [DecidableEq κ] {t : Table ρ} {p q : ρ → Bool} {f : ρ → ρ}
  {row : ρ}

omit [DecidableEq κ] in
/-- The rows of an owner after a change that leaves the owners as they are. -/
theorem filter_map_same {l : List ρ} (hq : ∀ r, q (f r) = q r) :
    (l.map f).filter q = (l.filter q).map f := by
  have hkept : q ∘ f = q := funext hq
  rw [List.filter_map, hkept]

theorem map_matching : (t.rows.map fun r => if t.matching p r then f r else r) =
    t.rows.map fun r => if p r then f r else r := by
  refine List.map_congr_left fun r hr => ?_
  rw [Table.matching_of_mem hr]

theorem filter_insert (hfresh : t.get (Keyed.key row) = none) :
    (t.insert row).rows.filter q = t.rows.filter q ++ if q row then [row] else [] := by
  rw [Table.insert_of_fresh (Table.get_eq_none.mp hfresh), List.filter_append, List.filter_singleton,
    Bool.cond_eq_ite]

theorem mem_insert_of_get (hfresh : t.get (Keyed.key row) = none) {r : ρ} :
    r ∈ t.insert row ↔ r ∈ t ∨ r = row :=
  Table.mem_insert_of_fresh (Table.get_eq_none.mp hfresh)

theorem filter_key (hrow : row ∈ t) :
    t.rows.filter (fun r => Keyed.key r = Keyed.key row) = [row] := by
  obtain ⟨before, after, hrows, hothers⟩ := Table.split_key hrow
  have hnone {l : List ρ} (hl : ∀ r ∈ l, r ∈ before ++ after) :
      l.filter (fun r => Keyed.key r = Keyed.key row) = [] := by
    rw [List.filter_eq_nil_iff]
    intro r hr
    simpa using hothers r (hl r hr)
  rw [hrows, List.filter_append, hnone fun r hr => List.mem_append_left _ hr, List.nil_append,
    List.filter_cons, if_pos (decide_eq_true rfl), hnone fun r hr => List.mem_append_right _ hr]

end Rows

section Writes

variable {other : String}

theorem snapshots_of_map {f : SnapshotRow → SnapshotRow}
    (hproject : ∀ row, (f row).project_id = row.project_id)
    (hwrite : db'.snapshots.rows = db.snapshots.rows.map f) :
    snapshots_of db' other = (snapshots_of db other).map f := by
  rw [snapshots_of, hwrite, filter_map_same fun row => by rw [hproject]]
  rfl

theorem snapshots_of_insert {row : SnapshotRow} (hfree : db.snapshots.get row.id = none)
    (hwrite : db'.snapshots = db.snapshots.insert row) :
    snapshots_of db' other =
      snapshots_of db other ++ if row.project_id = other then [row] else [] := by
  rw [snapshots_of, hwrite, filter_insert hfree]
  simp only [decide_eq_true_eq]
  rfl

theorem jobs_of_map {f : BuildJobRow → BuildJobRow}
    (hproject : ∀ row, (f row).project_id = row.project_id)
    (hwrite : db'.jobs.rows = db.jobs.rows.map f) :
    jobs_of db' other = (jobs_of db other).map f := by
  rw [jobs_of, hwrite, filter_map_same fun row => by rw [hproject]]
  rfl

theorem jobs_of_insert {row : BuildJobRow} (hfree : db.jobs.get row.id = none)
    (hwrite : db'.jobs = db.jobs.insert row) :
    jobs_of db' other = jobs_of db other ++ if row.project_id = other then [row] else [] := by
  rw [jobs_of, hwrite, filter_insert hfree]
  simp only [decide_eq_true_eq]
  rfl

/-- The rows of other projects are passed over. -/
theorem snapshots_of_other {f : SnapshotRow → SnapshotRow} (hother : other ≠ project_id)
    (hf : ∀ row ∈ db.snapshots, row.project_id ≠ project_id → f row = row) :
    (snapshots_of db other).map f = snapshots_of db other := by
  refine (List.map_congr_left fun row hrow => ?_).trans (List.map_id _)
  obtain ⟨hmem, hproject⟩ := mem_snapshots_of.mp hrow
  exact hf row hmem fun hid => hother (hproject.symm.trans hid)

theorem jobs_of_other {f : BuildJobRow → BuildJobRow} (hother : other ≠ project_id)
    (hf : ∀ row ∈ db.jobs, row.project_id ≠ project_id → f row = row) :
    (jobs_of db other).map f = jobs_of db other := by
  refine (List.map_congr_left fun row hrow => ?_).trans (List.map_id _)
  obtain ⟨hmem, hproject⟩ := mem_jobs_of.mp hrow
  exact hf row hmem fun hid => hother (hproject.symm.trans hid)

section Project

variable {f : ProjectRow → ProjectRow} {project : ProjectRow}

/-- One project is written. -/
def WritesProject (project_id : String) (f : ProjectRow → ProjectRow) (db db' : Database) : Prop :=
  db'.projects.rows = db.projects.rows.map fun row =>
    if decide (row.id = project_id) = true then f row else row

theorem WritesProject.of_mem (h : WritesProject project_id f db db') (hf : ∀ row, (f row).id = row.id)
    (hproject : project ∈ db'.projects) (hid : project.id ≠ project_id) :
    project ∈ db.projects := by
  rw [← Table.mem_rows, h, List.mem_map] at hproject
  obtain ⟨row, hrow, rfl⟩ := hproject
  split at hid
  · rename_i hrow'
    rw [hf] at hid
    exact absurd (of_decide_eq_true hrow') hid
  · rename_i hrow'
    rw [if_neg hrow']
    exact hrow

theorem WritesProject.eq_of_mem (h : WritesProject project_id f db db')
    (hproject : project ∈ db'.projects) (hid : project.id = project_id) :
    ∃ row ∈ db.projects, row.id = project_id ∧ project = f row := by
  rw [← Table.mem_rows, h, List.mem_map] at hproject
  obtain ⟨row, hrow, rfl⟩ := hproject
  split at hid
  · rename_i hrow'
    rw [if_pos hrow']
    exact ⟨row, hrow, of_decide_eq_true hrow', rfl⟩
  · rename_i hrow'
    exact absurd (decide_eq_true hid) hrow'

theorem WritesProject.kept (h : WritesProject project_id f db db')
    (hproject : project ∈ db.projects) (hid : project.id ≠ project_id) :
    project ∈ db'.projects := by
  rw [← Table.mem_rows, h, List.mem_map]
  exact ⟨project, hproject, by rw [if_neg (by simpa using hid)]⟩

theorem WritesProject.written (h : WritesProject project.id f db db')
    (hf : ∀ row, (f row).id = row.id) (hproject : project ∈ db.projects) :
    ∃ project' ∈ db'.projects, project'.id = project.id := by
  refine ⟨f project, ?_, hf project⟩
  rw [← Table.mem_rows, h, List.mem_map]
  exact ⟨project, hproject, by rw [if_pos (decide_eq_true rfl)]⟩

/-- Everything that is written belongs to the project. -/
theorem WritesProject.touches (h : WritesProject project_id f db db')
    (hf : ∀ row, (f row).id = row.id)
    (hsnapshots : ∀ other, other ≠ project_id → snapshots_of db' other = snapshots_of db other)
    (hjobs : ∀ other, other ≠ project_id → jobs_of db' other = jobs_of db other) :
    Touches project_id db db' where
  projects _ := h.of_mem hf
  kept _ := h.kept
  snapshots := hsnapshots
  jobs := hjobs

end Project

end Writes

theorem Sound.draft_of {project : ProjectRow} {snapshots : List SnapshotRow}
    {jobs : List BuildJobRow} {draft : SnapshotRow} (h : Sound project snapshots jobs)
    (hdraft : draft ∈ snapshots) (hcurrent : draft.status.current = true) :
    snapshots.filter (·.status.current) = [draft] ∧
      (draft.status = .sealed ↔ project.state.pending = true) ∧
      ∀ job ∈ jobs, job.status.live = true →
        job.snapshot_id = draft.id ∧ job.expected_generation = project.generation := by
  obtain ⟨other, hother, hrest⟩ := h.draft
  have hmem : draft ∈ snapshots.filter (·.status.current) := List.mem_filter.mpr ⟨hdraft, hcurrent⟩
  rw [hother, List.mem_singleton] at hmem
  rw [hmem]
  exact ⟨hother, hrest⟩

theorem Sound.no_build {project : ProjectRow} {snapshots : List SnapshotRow}
    {jobs : List BuildJobRow} (h : Sound project snapshots jobs)
    (hpending : project.state.pending = false) : jobs.filter (·.status.live) = [] := by
  have hbuilds := h.builds
  cases hstate : project.state with
  | queued => rw [hstate] at hpending; cases hpending
  | building => rw [hstate] at hpending; cases hpending
  | draft | ready | failed | archived =>
    rw [hstate, ProjectState.builds, List.map_eq_nil_iff] at hbuilds
    exact hbuilds

/-- What others see of a project that one operation writes to. -/
theorem Orderly.touch (h : Orderly worker db) (htouches : Touches project_id db db')
    (hsound : ∀ project ∈ db'.projects, project.id = project_id →
      Sound project (snapshots_of db' project_id) (jobs_of db' project_id))
    (howned : ∀ job ∈ jobs_of db' project_id, job.status.live = true →
      ∃ project ∈ db'.projects, project.id = project_id)
    (huploads : ∀ upload ∈ db'.uploads, upload.state = .opened →
      ∀ snapshot ∈ db'.snapshots, snapshot.id = upload.snapshot_id →
        snapshot.status = .editable ∧ snapshot.project_id = upload.project_id)
    (hbuilding : worker'.Builds (building_jobs db')) : Orderly worker' db' where
  sound project hproject := by
    by_cases hid : project.id = project_id
    · rw [hid]
      exact hsound project hproject hid
    · rw [htouches.snapshots _ hid, htouches.jobs _ hid]
      exact h.sound project (htouches.projects project hproject hid)
  owned job hjob hlive := by
    by_cases hid : job.project_id = project_id
    · rw [hid]
      exact howned job (mem_jobs_of.mpr ⟨hjob, hid⟩) hlive
    · have hmem : job ∈ jobs_of db' job.project_id := mem_jobs_of.mpr ⟨hjob, rfl⟩
      rw [htouches.jobs _ hid] at hmem
      obtain ⟨project, hproject, hsame⟩ := h.owned job (mem_jobs_of.mp hmem).1 hlive
      exact ⟨project, htouches.kept project hproject (hsame ▸ hid), hsame⟩
  uploads := huploads
  building := hbuilding

/-- The columns of a project that its lifecycle is about are as they were. -/
structure ProjectRow.Alike (project project' : ProjectRow) : Prop where
  id : project'.id = project.id
  state : project'.state = project.state
  generation : project'.generation = project.generation
  active_snapshot_id : project'.active_snapshot_id = project.active_snapshot_id
  active_graph_version : project'.active_graph_version = project.active_graph_version

theorem ProjectRow.Alike.refl (project : ProjectRow) : project.Alike project :=
  ⟨rfl, rfl, rfl, rfl, rfl⟩

theorem Sound.alike {project project' : ProjectRow} {snapshots : List SnapshotRow}
    {jobs : List BuildJobRow} (h : Sound project snapshots jobs) (halike : project.Alike project') :
    Sound project' snapshots jobs where
  draft := by
    rw [halike.state, halike.generation]
    exact h.draft
  builds := by
    rw [halike.state]
    exact h.builds
  active := by
    rw [halike.active_snapshot_id]
    exact h.active
  version := by
    rw [halike.active_snapshot_id, halike.active_graph_version]
    exact h.version
  generation := by
    rw [halike.generation]
    exact h.generation

/-- Nothing is written that the lifecycle is about, but that sessions may close. -/
structure Quiet (db db' : Database) : Prop where
  projects : ∀ project' ∈ db'.projects, ∃ project ∈ db.projects, project.Alike project'
  kept : ∀ project ∈ db.projects, ∃ project' ∈ db'.projects, project'.id = project.id
  snapshots : db'.snapshots = db.snapshots
  jobs : db'.jobs = db.jobs
  uploads : ∀ upload' ∈ db'.uploads, upload'.state = .opened → ∃ upload ∈ db.uploads,
    upload.state = .opened ∧ upload.snapshot_id = upload'.snapshot_id ∧
      upload.project_id = upload'.project_id

theorem Quiet.refl (db : Database) : Quiet db db :=
  ⟨fun project h => ⟨project, h, .refl project⟩, fun project h => ⟨project, h, rfl⟩, rfl, rfl,
    fun upload h hopen => ⟨upload, h, hopen, rfl, rfl⟩⟩

theorem Orderly.quiet (h : Orderly worker db) (hquiet : Quiet db db') : Orderly worker db' where
  sound project' hproject' := by
    obtain ⟨project, hproject, halike⟩ := hquiet.projects project' hproject'
    rw [snapshots_of, jobs_of, hquiet.snapshots, hquiet.jobs, halike.id]
    exact (h.sound project hproject).alike halike
  owned job hjob hlive := by
    rw [hquiet.jobs] at hjob
    obtain ⟨project, hproject, hid⟩ := h.owned job hjob hlive
    obtain ⟨project', hproject', hid'⟩ := hquiet.kept project hproject
    exact ⟨project', hproject', hid'.trans hid⟩
  uploads upload' hupload' hopen snapshot hsnapshot hid := by
    rw [hquiet.snapshots] at hsnapshot
    obtain ⟨upload, hupload, hopen, hsame, hproject⟩ := hquiet.uploads upload' hupload' hopen
    rw [← hproject]
    exact h.uploads upload hupload hopen snapshot hsnapshot (hid.trans hsame.symm)
  building := by
    rw [building_jobs, hquiet.jobs]
    exact h.building

end

/-- The rows that satisfy a condition after each row has been changed. -/
theorem filter_map_of {α β : Type} {l : List α} {g : α → β} {p : α → Bool} {q : β → Bool}
    (h : ∀ a ∈ l, q (g a) = p a) : (l.map g).filter q = (l.filter p).map g := by
  rw [List.filter_map]
  exact congrArg (List.map g) (List.filter_congr h)

/-- The one row that satisfies a condition is a row, and satisfies it. -/
theorem of_filter_singleton {α : Type} {l : List α} {p : α → Bool} {a : α}
    (h : l.filter p = [a]) : a ∈ l ∧ p a = true := by
  have hmem : a ∈ l.filter p := h ▸ List.mem_singleton_self a
  exact List.mem_filter.mp hmem

theorem filter_map_none {α β : Type} {l : List α} {g : α → β} {q : β → Bool}
    (h : ∀ a ∈ l, q (g a) = false) : (l.map g).filter q = [] := by
  rw [List.filter_eq_nil_iff]
  intro b hb
  obtain ⟨a, ha, rfl⟩ := List.mem_map.mp hb
  simp [h a ha]

section Changes

variable {project project' : ProjectRow} {snapshots : List SnapshotRow} {jobs : List BuildJobRow}
  {draft : SnapshotRow} {recast : SnapshotRow → SnapshotRow} {status : SnapshotStatus}
  {job : BuildJobRow}

theorem eq_of_current (h : snapshots.filter (·.status.current) = [draft]) {snapshot : SnapshotRow}
    (hsnapshot : snapshot ∈ snapshots) (hcurrent : snapshot.status.current = true) :
    snapshot = draft := by
  have hmem : snapshot ∈ snapshots.filter (·.status.current) :=
    List.mem_filter.mpr ⟨hsnapshot, hcurrent⟩
  rw [h, List.mem_singleton] at hmem
  exact hmem

theorem eq_of_live (h : jobs.filter (·.status.live) = [job]) {other : BuildJobRow}
    (hother : other ∈ jobs) (hlive : other.status.live = true) : other = job := by
  have hmem : other ∈ jobs.filter (·.status.live) := List.mem_filter.mpr ⟨hother, hlive⟩
  rw [h, List.mem_singleton] at hmem
  exact hmem

/-- A change of the current snapshot only, which stays current. -/
structure Recast (snapshots : List SnapshotRow) (draft : SnapshotRow) (status : SnapshotStatus)
    (recast : SnapshotRow → SnapshotRow) : Prop where
  status : (recast draft).status = status
  id : (recast draft).id = draft.id
  others : ∀ snapshot ∈ snapshots, snapshot ≠ draft → recast snapshot = snapshot

theorem Recast.current (h : Recast snapshots draft status recast)
    (hdraft : snapshots.filter (·.status.current) = [draft]) (hstatus : status.current = true) :
    (snapshots.map recast).filter (·.status.current) = [recast draft] := by
  have hcurrent : draft.status.current = true := (of_filter_singleton hdraft).2
  rw [filter_map_of (p := (·.status.current)), hdraft, List.map_singleton]
  intro snapshot hsnapshot
  by_cases hsame : snapshot = draft
  · rw [hsame, h.status, hstatus, hcurrent]
  · rw [h.others snapshot hsnapshot hsame]

theorem Recast.active (h : Recast snapshots draft status recast)
    (hdraft : snapshots.filter (·.status.current) = [draft]) (hstatus : status.current = true) :
    ((snapshots.map recast).filter (·.status = .active)).map (·.id) =
      (snapshots.filter (·.status = .active)).map (·.id) := by
  have hcurrent : draft.status.current = true := (of_filter_singleton hdraft).2
  have hnot {status : SnapshotStatus} (hstatus : status.current = true) : status ≠ .active := by
    rintro rfl
    cases hstatus
  rw [filter_map_of (p := (·.status = .active)), List.map_map]
  · refine List.map_congr_left fun snapshot hsnapshot => ?_
    by_cases hsame : snapshot = draft
    · rw [Function.comp, hsame, h.id]
    · rw [Function.comp, h.others snapshot (List.mem_filter.mp hsnapshot).1 hsame]
  · intro snapshot hsnapshot
    by_cases hsame : snapshot = draft
    · rw [hsame, h.status, decide_eq_false (hnot hstatus), decide_eq_false (hnot hcurrent)]
    · rw [h.others snapshot hsnapshot hsame]

/-- A build is queued for the current snapshot, which is sealed. -/
theorem Sound.submitted (h : Sound project snapshots jobs) (hpending : project.state.pending = false)
    (hdraft : draft ∈ snapshots) (hcurrent : draft.status.current = true)
    (hsealed : Recast snapshots draft .sealed recast) (hstatus : job.status = .queued)
    (hsnapshot : job.snapshot_id = draft.id)
    (hgeneration : job.expected_generation = project.generation)
    (halike : ProjectRow.Alike { project with state := .queued } project') :
    Sound project' (snapshots.map recast) (jobs ++ [job]) := by
  obtain ⟨hdrafts, -, -⟩ := h.draft_of hdraft hcurrent
  have hnone := h.no_build hpending
  suffices hsound : Sound { project with state := .queued } (snapshots.map recast) (jobs ++ [job])
    from hsound.alike halike
  refine ⟨⟨recast draft, hsealed.current hdrafts rfl, ?_, ?_⟩, ?_, ?_, h.version, ?_⟩
  · simp [hsealed.status, ProjectState.pending]
  · intro other hother hlive
    rw [hsealed.id]
    cases List.mem_append.mp hother with
    | inl hold =>
      rw [List.filter_eq_nil_iff] at hnone
      exact absurd hlive (hnone other hold)
    | inr hnew =>
      rw [List.mem_singleton.mp hnew]
      exact ⟨hsnapshot, hgeneration⟩
  · rw [List.filter_append, hnone, List.nil_append]
    simp [hstatus, BuildState.live, ProjectState.builds]
  · rw [hsealed.active hdrafts rfl]
    exact h.active
  · rw [List.countP_append, List.countP_singleton, hstatus]
    exact h.generation

/-- The live build of a pending project. -/
theorem Sound.live_job (h : Sound project snapshots jobs) (hjob : job ∈ jobs)
    (hlive : job.status.live = true) : jobs.filter (·.status.live) = [job] ∧
      project.state.builds = [job.status] := by
  have hbuilds := h.builds
  have hmem : job ∈ jobs.filter (·.status.live) := List.mem_filter.mpr ⟨hjob, hlive⟩
  have hone : (jobs.filter (·.status.live)).length ≤ 1 := by
    rw [← List.length_map (·.status), hbuilds]
    cases project.state with
    | queued | building => exact Nat.le_refl 1
    | draft | ready | failed | archived => exact Nat.zero_le 1
  obtain ⟨other, hother⟩ := List.length_eq_one_iff.mp
    (Nat.le_antisymm hone (List.length_pos_of_mem hmem))
  rw [hother, List.mem_singleton] at hmem
  rw [← hbuilds, hother, hmem]
  exact ⟨rfl, rfl⟩

theorem pending_of_builds {state : ProjectState} {status : BuildState}
    (h : state.builds = [status]) : state.pending = true := by
  cases state with
  | queued | building => rfl
  | draft | ready | failed | archived => cases h

/-- The live build changes from queued to being built, or back. -/
theorem Sound.moved {move : BuildJobRow → BuildJobRow} {state : ProjectState} {status : BuildState}
    (h : Sound project snapshots jobs) (hlive : jobs.filter (·.status.live) = [job])
    (hpending : project.state.pending = true) (hstate : state.builds = [status])
    (hstatus : status.live = true) (hmove : (move job).status = status)
    (hsnapshot : (move job).snapshot_id = job.snapshot_id)
    (hgeneration : (move job).expected_generation = job.expected_generation)
    (hothers : ∀ other ∈ jobs, other ≠ job → move other = other)
    (halike : ProjectRow.Alike { project with state := state } project') :
    Sound project' snapshots (jobs.map move) := by
  have hpending' : state.pending = true := pending_of_builds hstate
  have hjob : job ∈ jobs ∧ job.status.live = true := of_filter_singleton hlive
  have hnot {status : BuildState} (hstatus : status.live = true) : status ≠ .ready := by
    rintro rfl
    cases hstatus
  obtain ⟨draft, hdrafts, hsealed, hjobs⟩ := h.draft
  suffices hsound : Sound { project with state := state } snapshots (jobs.map move) from
    hsound.alike halike
  refine ⟨⟨draft, hdrafts, ?_, ?_⟩, ?_, h.active, h.version, ?_⟩
  · rw [hsealed, hpending]
    exact iff_of_true rfl hpending'
  · intro other' hother' hlive'
    obtain ⟨other, hother, rfl⟩ := List.mem_map.mp hother'
    by_cases hsame : other = job
    · rw [hsame, hsnapshot, hgeneration]
      exact hjobs job hjob.1 hjob.2
    · rw [hothers other hother hsame] at hlive' ⊢
      exact hjobs other hother hlive'
  · rw [filter_map_of (p := (·.status.live)), hlive]
    · rw [List.map_singleton, List.map_singleton, hmove]
      exact hstate.symm
    · intro other hother
      by_cases hsame : other = job
      · rw [hsame, hmove, hstatus, hjob.2]
      · rw [hothers other hother hsame]
  · rw [List.countP_map]
    refine h.generation.trans (List.countP_congr fun other hother => ?_)
    by_cases hsame : other = job
    · simp [hsame, hmove, hnot hstatus, hnot hjob.2]
    · simp [hothers other hother hsame]

/-- The end of the live build: it has the status, and the project has another state. -/
theorem live_ended {finish : BuildJobRow → BuildJobRow} {status : BuildState}
    (hlive : jobs.filter (·.status.live) = [job]) (hstatus : status.live = false)
    (hfinish : (finish job).status = status)
    (hothers : ∀ other ∈ jobs, other ≠ job → finish other = other) :
    (jobs.map finish).filter (·.status.live) = [] ∧
      (jobs.map finish).countP (·.status = .ready) =
        jobs.countP (·.status = .ready) + if status = .ready then 1 else 0 := by
  have hjob : job ∈ jobs ∧ job.status.live = true := of_filter_singleton hlive
  have hnot : job.status ≠ .ready := by
    intro hready
    rw [hready] at hjob
    cases hjob.2
  constructor
  · refine filter_map_none fun other hother => ?_
    by_cases hsame : other = job
    · rw [hsame, hfinish, hstatus]
    · rw [hothers other hother hsame, ← Bool.not_eq_true]
      exact fun hother' => hsame (eq_of_live hlive hother hother')
  · obtain ⟨before, after, rfl⟩ := List.append_of_mem hjob.1
    have hcount : ∀ l : List BuildJobRow, (∀ other ∈ l, other ≠ job) →
        (∀ other ∈ l, other ∈ before ++ job :: after) →
        (l.map finish).countP (·.status = .ready) = l.countP (·.status = .ready) := by
      intro l hne hmem
      rw [List.countP_map]
      refine List.countP_congr fun other hother => ?_
      rw [Function.comp, hothers other (hmem other hother) (hne other hother)]
    rw [List.filter_append, List.filter_cons, if_pos hjob.2] at hlive
    have hone : before.filter (·.status.live) = [] ∧ after.filter (·.status.live) = [] := by
      rw [← List.singleton_append] at hlive
      have hlength := congrArg List.length hlive
      simp only [List.length_append, List.length_singleton] at hlength
      exact ⟨List.length_eq_zero_iff.mp (by omega), List.length_eq_zero_iff.mp (by omega)⟩
    have hne : ∀ l : List BuildJobRow, l.filter (·.status.live) = [] → ∀ other ∈ l, other ≠ job := by
      intro l hl other hother hsame
      rw [List.filter_eq_nil_iff] at hl
      exact hl other hother (hsame ▸ hjob.2)
    rw [List.map_append, List.map_cons, List.countP_append, List.countP_append, List.countP_cons,
      List.countP_cons, hcount before (hne before hone.1) (fun _ => List.mem_append_left _),
      hcount after (hne after hone.2)
        (fun _ h => List.mem_append_right _ (List.mem_cons_of_mem _ h)), hfinish]
    simp only [hnot, decide_false, Bool.false_eq_true, if_false, decide_eq_true_eq]
    omega

theorem builds_of_not_pending {state : ProjectState} (h : state.pending = false) :
    state.builds = [] := by
  cases state with
  | queued | building => cases h
  | draft | ready | failed | archived => rfl

/-- The build is ready: its snapshot is the active one, and there is a new draft. -/
theorem Sound.completed {finish : BuildJobRow → BuildJobRow} {next : SnapshotRow}
    {graph_version : String} (h : Sound project snapshots jobs)
    (hlive : jobs.filter (·.status.live) = [job])
    (hdraft : snapshots.filter (·.status.current) = [draft])
    (hstatus : (recast draft).status = .active) (hid : (recast draft).id = draft.id)
    (hretired : ∀ snapshot ∈ snapshots, snapshot ≠ draft → (recast snapshot).status = .validated)
    (hnext : next.status = .editable) (hfinish : (finish job).status = .ready)
    (hothers : ∀ other ∈ jobs, other ≠ job → finish other = other)
    (halike : ProjectRow.Alike { project with
      state := .ready, active_snapshot_id := some draft.id,
      active_graph_version := some graph_version, generation := project.generation + 1 } project') :
    Sound project' (snapshots.map recast ++ [next]) (jobs.map finish) := by
  obtain ⟨hended, hready⟩ := live_ended hlive rfl hfinish hothers
  have hcurrent : (snapshots.map recast).filter (·.status.current) = [] := by
    refine filter_map_none fun snapshot hsnapshot => ?_
    by_cases hsame : snapshot = draft
    · rw [hsame, hstatus]
      rfl
    · rw [hretired snapshot hsnapshot hsame]
      rfl
  suffices hsound : Sound { project with
      state := .ready, active_snapshot_id := some draft.id,
      active_graph_version := some graph_version, generation := project.generation + 1 }
      (snapshots.map recast ++ [next]) (jobs.map finish) from hsound.alike halike
  refine ⟨⟨next, ?_, ?_, ?_⟩, ?_, ?_, rfl, ?_⟩
  · rw [List.filter_append, hcurrent, List.nil_append]
    simp [hnext, SnapshotStatus.current]
  · simp [hnext, ProjectState.pending]
  · intro other hother hother'
    rw [List.filter_eq_nil_iff] at hended
    exact absurd hother' (hended other hother)
  · rw [hended]
    rfl
  · rw [List.filter_append, filter_map_of (p := (·.status.current)), hdraft]
    · simp [hnext, hid]
    · intro snapshot hsnapshot
      by_cases hsame : snapshot = draft
      · have hcurrent : draft.status.current = true := (of_filter_singleton hdraft).2
        rw [hsame, hstatus, hcurrent]
        rfl
      · have hnot : snapshot.status.current = false := by
          rw [← Bool.not_eq_true]
          exact fun hcurrent => hsame (eq_of_current hdraft hsnapshot hcurrent)
        rw [hretired snapshot hsnapshot hsame, hnot]
        rfl
  · rw [hready, if_pos rfl, ← h.generation]

/-- The build has failed: its snapshot can be edited again. -/
theorem Sound.failed {finish : BuildJobRow → BuildJobRow} {state : ProjectState}
    (h : Sound project snapshots jobs) (hlive : jobs.filter (·.status.live) = [job])
    (hdraft : snapshots.filter (·.status.current) = [draft])
    (hrecast : Recast snapshots draft .editable recast) (hfinish : (finish job).status = .failed)
    (hothers : ∀ other ∈ jobs, other ≠ job → finish other = other)
    (hpending : state.pending = false)
    (halike : ProjectRow.Alike { project with state := state } project') :
    Sound project' (snapshots.map recast) (jobs.map finish) := by
  obtain ⟨hended, hready⟩ := live_ended hlive rfl hfinish hothers
  suffices hsound : Sound { project with state := state } (snapshots.map recast) (jobs.map finish)
    from hsound.alike halike
  refine ⟨⟨recast draft, hrecast.current hdraft rfl, ?_, ?_⟩, ?_, ?_, h.version, ?_⟩
  · simp [hrecast.status, hpending]
  · intro other hother hother'
    rw [List.filter_eq_nil_iff] at hended
    exact absurd hother' (hended other hother)
  · rw [hended, builds_of_not_pending hpending]
    rfl
  · rw [hrecast.active hdraft rfl]
    exact h.active
  · rw [hready]
    exact h.generation

/-- A project that is not pending gets another such state. -/
theorem Sound.rested {state : ProjectState} (h : Sound project snapshots jobs)
    (hpending : project.state.pending = false) (hstate : state.pending = false)
    (halike : ProjectRow.Alike { project with state := state } project') :
    Sound project' snapshots jobs := by
  obtain ⟨draft, hdraft, hsealed, hjobs⟩ := h.draft
  suffices hsound : Sound { project with state := state } snapshots jobs from hsound.alike halike
  refine ⟨⟨draft, hdraft, ?_, hjobs⟩, ?_, h.active, h.version, h.generation⟩
  · rw [hsealed, hpending, hstate]
  · rw [h.builds, builds_of_not_pending hpending, builds_of_not_pending hstate]

/-- A new project with its draft. -/
theorem sound_new (hstatus : draft.status = .editable) (hstate : project.state.pending = false)
    (hactive : project.active_snapshot_id = none) (hversion : project.active_graph_version = none)
    (hgeneration : project.generation = 0) : Sound project [draft] [] where
  draft := ⟨draft, by simp [hstatus, SnapshotStatus.current], by simp [hstatus, hstate], by simp⟩
  builds := by
    rw [builds_of_not_pending hstate]
    rfl
  active := by simp [hstatus, hactive]
  version := by rw [hactive, hversion]
  generation := hgeneration

end Changes

end lagraph.registry
