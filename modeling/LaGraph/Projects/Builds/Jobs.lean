import LaGraph.Foundation.Interleaving.Sessions
import LaGraph.Foundation.SortedSets
import LaGraph.Projects.Builds

open foundation foundation.Tx

namespace lagraph.registry

section

/-- The jobs that wait to be built. -/
def queued (rows : List BuildJobRow) : List BuildJobRow :=
  rows.filter (·.status = .queued)

/-- The queued job with that identifier is older than those before it in the table, and no
younger than those after it. -/
def FirstQueued (id : String) (rows : List BuildJobRow) : Prop :=
  ∃ before row after, queued rows = before ++ row :: after ∧ row.id = id ∧
    (∀ other ∈ before, row.created_at < other.created_at) ∧
    ∀ other ∈ after, row.created_at ≤ other.created_at

variable {d d' : Database} {id : String} {row : BuildJobRow} {rows : List BuildJobRow}
  {g : BuildJobRow → BuildJobRow}

theorem next_queued_eq_argmin :
    next_queued = fun db => (queued db.jobs.rows).argmin (·.created_at) := by
  funext db
  exact sorted.head_mergeSort_eq_argmin BuildJobRow.created_at _

theorem firstQueued_of_next (h : next_queued d = some row) : FirstQueued row.id d.jobs.rows := by
  obtain ⟨before, after, hrows, hbefore, hafter⟩ := sorted.head_mergeSort (fun a b c hab hbc => by
    simp only [decide_eq_true_eq] at hab hbc ⊢
    exact le_trans hab hbc) (fun a b => by
    simp only [Bool.or_eq_true, decide_eq_true_eq]
    exact le_total _ _) h
  refine ⟨before, row, after, hrows, rfl, fun other hother => ?_, fun other hother => ?_⟩
  · have hyounger := hbefore other hother
    simp only [decide_eq_false_iff_not] at hyounger
    exact not_le.mp hyounger
  · have holder := hafter other hother
    simpa using holder

/-- There is one first job. -/
theorem FirstQueued.unique {id' : String} (h : FirstQueued id rows) (h' : FirstQueued id' rows) :
    id = id' := by
  obtain ⟨before, row, after, hrows, rfl, hbefore, hafter⟩ := h
  obtain ⟨before', row', after', hrows', rfl, hbefore', hafter'⟩ := h'
  have hsplit := hrows.symm.trans hrows'
  rw [List.append_eq_append_iff] at hsplit
  rcases hsplit with ⟨between, hbetween, hrest⟩ | ⟨between, hbetween, hrest⟩
  · cases between with
    | nil => rw [(List.cons.inj hrest).1]
    | cons first between =>
      obtain ⟨rfl, rfl⟩ := List.cons.inj hrest
      have hyounger := hbefore' row (by rw [hbetween]; simp)
      have holder := hafter row' (by simp)
      exact absurd holder (not_le.mpr hyounger)
  · cases between with
    | nil => rw [(List.cons.inj hrest).1]
    | cons first between =>
      obtain ⟨rfl, rfl⟩ := List.cons.inj hrest
      have hyounger := hbefore row' (by rw [hbetween]; simp)
      have holder := hafter' row (by simp)
      exact absurd holder (not_le.mpr hyounger)

/-- While no job is queued again, the first one stays first as long as it is queued. -/
theorem FirstQueued.shrink (h : FirstQueued id rows) (hnodup : (rows.map (·.id)).Nodup)
    (hkeys : ∀ row ∈ rows, (g row).id = row.id ∧ (g row).created_at = row.created_at)
    (hshrink : ∀ row ∈ rows, (g row).status = .queued → row.status = .queued)
    (hqueued : ∃ row ∈ rows.map g, row.id = id ∧ row.status = .queued) :
    FirstQueued id (rows.map g) := by
  obtain ⟨before, row, after, hrows, rfl, hbefore, hafter⟩ := h
  have hmem (other : BuildJobRow) (hother : other ∈ before ++ row :: after) : other ∈ rows :=
    List.mem_of_mem_filter (hrows ▸ hother)
  have hrow : row ∈ rows := hmem row (by simp)
  obtain ⟨row', hrow', hid, hstatus⟩ := hqueued
  obtain ⟨source, hsource, rfl⟩ := List.mem_map.mp hrow'
  have hsame : source = row := by
    refine List.inj_on_of_nodup_map hnodup hsource hrow ?_
    rw [← hid, (hkeys source hsource).1]
  subst hsame
  have hfilter : queued (rows.map g) =
      ((queued rows).filter fun row => (g row).status = .queued).map g := by
    rw [queued, List.filter_map, queued, List.filter_filter]
    congr 1
    refine List.filter_congr fun other hother => ?_
    have hother' := hshrink other hother
    simp only [Function.comp]
    by_cases hstill : (g other).status = .queued
    · simp [hstill, hother' hstill]
    · simp [hstill]
  rw [FirstQueued, hfilter, hrows, List.filter_append, List.filter_cons, if_pos (by simpa using hstatus),
    List.map_append, List.map_cons]
  refine ⟨_, g source, _, rfl, (hkeys source hsource).1, fun other hother => ?_, fun other hother => ?_⟩
  · obtain ⟨previous, hprevious, rfl⟩ := List.mem_map.mp hother
    have hin := List.mem_of_mem_filter hprevious
    rw [(hkeys source hsource).2, (hkeys previous (hmem previous (by simp [hin]))).2]
    exact hbefore previous hin
  · obtain ⟨previous, hprevious, rfl⟩ := List.mem_map.mp hother
    have hin := List.mem_of_mem_filter hprevious
    rw [(hkeys source hsource).2, (hkeys previous (hmem previous (by simp [hin]))).2]
    exact hafter previous hin

end

/-- What a transaction that may claim `claimed` makes of a job: without its lock nothing,
and it is never queued again. -/
structure JobChange (claimed : Option String) (held : List RowLock)
    (row row' : BuildJobRow) : Prop where
  id : row'.id = row.id
  created_at : row'.created_at = row.created_at
  unlocked : .job row.id ∉ held → row' = row
  status : row'.status = row.status ∨ row'.status = .ready ∨ row'.status = .failed ∨
    row'.status = .building ∧ claimed = some row.id

/-- What such a transaction makes of the jobs. -/
def JobsStep (claimed : Option String) (held : List RowLock) (d d' : Database) : Prop :=
  ∃ g : BuildJobRow → BuildJobRow, d'.jobs.rows = d.jobs.rows.map g ∧
    ∀ row, JobChange claimed held row (g row)

variable {claimed : Option String} {held : List RowLock} {d d' d'' : Database} {id : String}

section Change

variable {row row' row'' : BuildJobRow}

theorem JobChange.refl (row : BuildJobRow) : JobChange claimed held row row :=
  ⟨rfl, rfl, fun _ => rfl, Or.inl rfl⟩

theorem JobChange.trans (h : JobChange claimed held row row')
    (h' : JobChange claimed held row' row'') : JobChange claimed held row row'' where
  id := h'.id.trans h.id
  created_at := h'.created_at.trans h.created_at
  unlocked := fun hfree => by
    have hsame := h.unlocked hfree
    subst hsame
    exact h'.unlocked hfree
  status := by
    have hstatus := h.status
    have hstatus' := h'.status
    have hid := h.id
    grind

theorem JobChange.of_queued (h : JobChange claimed held row row') (hqueued : row'.status = .queued) :
    row.status = .queued := by
  have hstatus := h.status
  grind

theorem JobChange.of_building (h : JobChange claimed held row row')
    (hbuilding : row'.status = .building) : row.status = .building ∨ claimed = some row.id := by
  have hstatus := h.status
  grind

end Change

theorem JobsStep.of_jobs (h : d'.jobs = d.jobs) : JobsStep claimed held d d' := by
  refine ⟨fun row => row, ?_, fun row => .refl row⟩
  rw [h, List.map_id']

theorem jobsStep_bound : Bound (JobsStep claimed) where
  refl := fun held d => JobsStep.of_jobs rfl
  trans := by
    rintro held a b c ⟨g, hrows, hg⟩ ⟨g', hrows', hg'⟩
    exact ⟨g' ∘ g, by rw [hrows', hrows, List.map_map], fun row => (hg row).trans (hg' (g row))⟩
  mono := by
    rintro row held a b ⟨g, hrows, hg⟩
    exact ⟨g, hrows, fun job => ⟨(hg job).id, (hg job).created_at,
      fun hfree => (hg job).unlocked fun hheld => hfree (List.mem_cons_of_mem _ hheld),
      (hg job).status⟩⟩

theorem JobsStep.claim (h : JobsStep none held d d') : JobsStep claimed held d d' := by
  obtain ⟨g, hrows, hg⟩ := h
  refine ⟨g, hrows, fun row => ⟨(hg row).id, (hg row).created_at, (hg row).unlocked, ?_⟩⟩
  have hstatus := (hg row).status
  grind

/-- A write of one job whose lock is held. -/
theorem jobsStep_update {f : BuildJobRow → BuildJobRow} {hf : ∀ row, (f row).id = row.id}
    (hheld : .job id ∈ held) (hcreated : ∀ row, (f row).created_at = row.created_at)
    (hstatus : ∀ row, (f row).status = .ready ∨ (f row).status = .failed ∨
      (f row).status = .building ∧ claimed = some id) :
    JobsStep claimed held d { d with jobs := d.jobs.update (·.id = id) f hf } := by
  refine ⟨fun row => if decide (row.id = id) then f row else row, rfl, fun row => ?_⟩
  by_cases hrow : row.id = id
  · simp only [hrow, decide_true, if_true]
    have hchanged := hstatus row
    exact ⟨hf row, hcreated row, fun hfree => absurd (hrow ▸ hheld) hfree, Or.inr (hrow ▸ hchanged)⟩
  · simp only [hrow, decide_false, Bool.false_eq_true, if_false]
    exact .refl row

theorem JobsStep.mem (h : JobsStep claimed held d d') {row' : BuildJobRow} (hrow : row' ∈ d'.jobs) :
    ∃ row ∈ d.jobs, JobChange claimed held row row' := by
  obtain ⟨g, hrows, hg⟩ := h
  rw [← Table.mem_rows, hrows] at hrow
  obtain ⟨row, hmem, rfl⟩ := List.mem_map.mp hrow
  exact ⟨row, hmem, hg row⟩

/-- A job whose lock is not held stays as it is. -/
theorem JobsStep.get_of_free (h : JobsStep claimed held d d') (hfree : .job id ∉ held) :
    d'.jobs.get id = d.jobs.get id := by
  cases hget : d.jobs.get id with
  | none =>
    rw [Table.get_eq_none]
    intro row' hrow' hkey
    obtain ⟨row, hrow, hchange⟩ := h.mem hrow'
    exact Table.get_eq_none.mp hget row hrow (hchange.id.symm.trans hkey)
  | some row =>
    obtain ⟨hrow, hkey⟩ := Table.get_eq_some.mp hget
    obtain ⟨g, hrows, hg⟩ := h
    have hmem : g row ∈ d'.jobs := by
      rw [← Table.mem_rows, hrows]
      exact List.mem_map_of_mem hrow
    have hsame : g row = row := (hg row).unlocked (by rwa [show row.id = id from hkey])
    rw [hsame] at hmem
    exact Table.get_eq_some.mpr ⟨hmem, hkey⟩

section Programs

variable {α β : Type}

theorem jobs_select {f : Database → α} :
    Changes (JobsStep claimed) (select f : Transaction α) held :=
  .select jobsStep_bound f

/-- A statement that writes other tables. -/
theorem jobs_execute {change : Database → Database → Database}
    (h : ∀ view d, (change view d).jobs = d.jobs) :
    Changes (JobsStep claimed) (execute change : Transaction Unit) held :=
  .execute fun view d => .of_jobs (h view d)

theorem jobs_acquire_bind {row : RowLock} {k : Unit → Transaction α}
    (h : Changes (JobsStep claimed) (k ()) (row :: held)) :
    Changes (JobsStep claimed) (acquire row >>= k) held := h

theorem jobs_add_row {ρ : Type} [Keyed ρ String] {table : Database → Table ρ}
    {put : Database → Table ρ → Database} {row : ρ} (hput : ∀ d t, (put d t).jobs = d.jobs) :
    Changes (JobsStep claimed) (add_row table put row) held :=
  jobs_acquire_bind (.bind jobs_select fun _ _ => .bind (.raiseIf _ _) fun _ _ =>
    jobs_execute fun _ d => hput d _)

theorem jobs_project_for_update {project_id : String} :
    Changes (JobsStep claimed) (project_for_update project_id) held :=
  jobs_acquire_bind (.bind jobs_select fun _ _ => .orRaise _ _)

theorem jobs_update_job {f : BuildJobRow → BuildJobRow} {hf : ∀ row, (f row).id = row.id}
    (hcreated : ∀ row, (f row).created_at = row.created_at)
    (hstatus : ∀ row, (f row).status = .ready ∨ (f row).status = .failed ∨
      (f row).status = .building ∧ claimed = some id) :
    Changes (JobsStep claimed) (update_job id f hf) held :=
  jobs_acquire_bind (.execute fun _ _ =>
    jobsStep_update List.mem_cons_self hcreated hstatus)

/-- A completed build leaves the queue alone. -/
theorem jobs_complete_build {build : BuildRecord} {graph_version draft_id : String}
    {document_count : Nat} {new_ids : Nat → String} {now : Moment} :
    Changes (JobsStep claimed)
      (complete_build build graph_version document_count draft_id new_ids now) held := by
  refine .bind jobs_project_for_update fun project held => ?_
  refine .bind (.raiseIf _ _) fun _ held => .bind jobs_select fun job held => ?_
  refine .bind jobs_select fun snapshot held => .bind (.orRaise _ _) fun job held => ?_
  refine .bind (.orRaise _ _) fun snapshot held => .bind (.raiseIf _ _) fun _ held => ?_
  refine .bind (jobs_execute fun _ _ => rfl) fun _ held => ?_
  refine .bind (jobs_execute fun _ _ => rfl) fun _ held => ?_
  refine .bind (jobs_execute fun _ _ => rfl) fun _ held => ?_
  refine .bind (jobs_update_job (fun _ => rfl) fun _ => Or.inl rfl) fun _ held => ?_
  refine .bind (jobs_add_row fun _ _ => rfl) fun _ held => .bind jobs_select fun files held => ?_
  refine .bind (.forEach _ fun file held => jobs_add_row fun _ _ => rfl) fun _ held => ?_
  exact jobs_execute fun _ _ => rfl

/-- So does a failed one. -/
theorem jobs_fail_build {build : BuildRecord} {error_code : String} {now : Moment} :
    Changes (JobsStep claimed) (fail_build build error_code now) held := by
  refine .bind jobs_select fun job held => .bind jobs_select fun snapshot held => ?_
  refine .bind jobs_project_for_update fun project held => ?_
  cases job with
  | none =>
    cases snapshot with
    | none => exact jobs_execute fun _ _ => rfl
    | some snapshot =>
      exact .bind (jobs_execute fun _ _ => rfl) fun _ held =>
        .bind (jobs_execute fun _ _ => rfl) fun _ held => jobs_execute fun _ _ => rfl
  | some job =>
    refine .bind (jobs_update_job (fun _ => rfl) fun _ => Or.inr (Or.inl rfl)) fun _ held => ?_
    cases snapshot with
    | none => exact jobs_execute fun _ _ => rfl
    | some snapshot =>
      exact .bind (jobs_execute fun _ _ => rfl) fun _ held =>
        .bind (jobs_execute fun _ _ => rfl) fun _ held => jobs_execute fun _ _ => rfl

end Programs

end lagraph.registry
