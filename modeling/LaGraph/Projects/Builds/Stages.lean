import LaGraph.Foundation.Interleaving.Rely
import LaGraph.Projects.Builds.Jobs

open foundation foundation.Tx

namespace lagraph.registry

section

/-- A job waits to be built. -/
def Waits (id : String) (d : Database) : Prop :=
  ∃ row ∈ d.jobs, row.id = id ∧ row.status = .queued

/-- As long as the job waits, it is the first, and no job is being built. -/
def Front (id : String) (d : Database) : Prop :=
  Waits id d → FirstQueued id d.jobs.rows ∧ ∀ row ∈ d.jobs, row.status ≠ .building

/-- What others commit while a transaction holds its locks. -/
def OthersBuild (held : List RowLock) (d d' : Database) : Prop :=
  ∀ id, .job id ∈ held → d'.jobs.get id = d.jobs.get id

theorem others_build_rely : Rely OthersBuild where
  refl := fun _ _ _ _ => rfl
  trans := fun _ _ _ _ h h' id hid => (h' id hid).trans (h id hid)

/-- What a claim that has chosen a job commits. -/
inductive Claimed (id : String) :
    Option BuildRecord → List RowLock → (Database → Database) → Database → Prop
  | none {held : List RowLock} {pending : Database → Database} {d : Database}
    (hjobs : (pending d).jobs = d.jobs) : Claimed id none held pending d
  | some {held : List RowLock} {pending : Database → Database} {d : Database}
    {build : BuildRecord} (hid : build.id = id) (hwaits : Waits id d)
    (hbuilding : ∀ row ∈ (pending d).jobs, row.id = id → row.status = .building) :
    Claimed id (some build) held pending d

variable {worker_id id : String} {now : Moment} {d d' view view' : Database}
  {row : BuildJobRow} {pending : Database → Database} {held : List RowLock}

theorem waits_iff_get : Waits id d ↔ (d.jobs.get id).any (·.status = .queued) = true := by
  constructor
  · rintro ⟨row, hrow, hid, hstatus⟩
    rw [Table.get_eq_some.mpr ⟨hrow, hid⟩]
    simpa using hstatus
  · intro h
    cases hget : d.jobs.get id with
    | none => simp [hget] at h
    | some row =>
      obtain ⟨hrow, hid⟩ := Table.get_eq_some.mp hget
      rw [hget] at h
      exact ⟨row, hrow, hid, by simpa using h⟩

/-- The rest of a claim that has counted no job and chosen one is safe. -/
theorem claim_safe (hcount : view.jobs.count (·.status = .building) = 0)
    (hnext : next_queued view' = some row) (hpending : ∀ d, (pending d).jobs = d.jobs) :
    (((claim_build worker_id now).after view).after view').Safe OthersBuild (Claimed row.id) []
      pending d := by
  rw [claim_build, after_select_bind, if_neg (not_not.mpr hcount), after_select_bind, hnext]
  refine Safe.acquire_bind fun d₁ _ => ?_
  refine Safe.select_bind fun d₂ _ => ?_
  rw [hpending d₂]
  by_cases hmatched : (d₂.jobs.get row.id).any (·.status = .queued) = true
  · rw [if_neg (by simp [hmatched])]
    refine Safe.select_bind fun d₃ h₃ => Safe.execute_bind fun d₄ h₄ => ?_
    rw [update_job, bind_bind]
    refine Safe.acquire_bind fun d₅ h₅ => Safe.execute_bind fun d₆ h₆ => ?_
    refine Safe.acquire_bind fun d₇ h₇ => Safe.execute_bind fun d₈ h₈ => ?_
    refine Safe.execute_bind fun d₉ h₉ => Safe.ret fun d' h' => ?_
    have hlock : ∀ {a b : Database} {held : List RowLock}, .job row.id ∈ held →
        OthersBuild held a b → b.jobs.get row.id = a.jobs.get row.id := fun hheld h => h _ hheld
    have hget : d'.jobs.get row.id = d₂.jobs.get row.id := by
      rw [hlock (by simp) h', hlock (by simp) h₉, hlock (by simp) h₈, hlock (by simp) h₇,
        hlock (by simp) h₆, hlock (by simp) h₅, hlock (by simp) h₄, hlock (by simp) h₃]
    refine .some rfl ?_ fun written hwritten hid => ?_
    · rw [waits_iff_get, hget]
      exact hmatched
    · obtain ⟨source, -, rfl⟩ := List.mem_map.mp hwritten
      by_cases hsource : source.id = row.id
      · simp [hsource]
      · rw [if_neg (by simpa using hsource)] at hid
        exact absurd hid hsource
  · rw [if_pos (by simpa using hmatched)]
    exact Safe.ret fun d' _ => .none (hpending d')

/-- The rest of such a claim changes the chosen job only. -/
theorem jobs_claim (hcount : view.jobs.count (·.status = .building) = 0)
    (hnext : next_queued view' = some row) :
    Changes (JobsStep (some row.id)) (((claim_build worker_id now).after view).after view') held := by
  rw [claim_build, after_select_bind, if_neg (not_not.mpr hcount), after_select_bind, hnext]
  refine jobs_acquire_bind (.bind jobs_select fun matched held => ?_)
  by_cases hmatched : matched = false
  · rw [if_pos hmatched]
    trivial
  · rw [if_neg hmatched]
    refine .bind jobs_select fun claim held => .bind (jobs_execute fun _ _ => rfl) fun _ held => ?_
    refine .bind (jobs_update_job (fun _ => rfl) fun _ => Or.inr (Or.inr ⟨rfl, rfl⟩))
      fun _ held => ?_
    refine jobs_acquire_bind (.bind (jobs_execute fun _ _ => rfl) fun _ held => ?_)
    exact .bind (jobs_execute fun _ _ => rfl) fun _ held => trivial

end

/-- The transactions of the workers. -/
inductive BuildCall
  | claim (worker_id : String) (now : Moment)
  | complete (build : BuildRecord) (graph_version : String) (document_count : Nat)
    (draft_id : String) (new_ids : Nat → String) (now : Moment)
  | fail (build : BuildRecord) (error_code : String) (now : Moment)

/-- What the worker receives when the transaction commits. -/
def BuildCall.perform : BuildCall → Transaction (Option BuildRecord)
  | .claim worker_id now => claim_build worker_id now
  | .complete build graph_version document_count draft_id new_ids now => do
    complete_build build graph_version document_count draft_id new_ids now
    pure none
  | .fail build error_code now => do
    fail_build build error_code now
    pure none

def BuildCall.isClaim : BuildCall → Bool
  | .claim _ _ => true
  | .complete .. | .fail .. => false

/-- The transactions of a run with what is committed. -/
abbrev Builds := System Database RowLock ProjectError (Option BuildRecord) BuildCall

/-- A transaction of a run. -/
abbrev BuildSession := Session Database RowLock ProjectError (Option BuildRecord) BuildCall

/-- How far a transaction has come. -/
inductive Stage (d : Database) (x : BuildSession) : Prop
  | fresh (worker_id : String) (now : Moment) (hcall : x.call = .claim worker_id now)
    (hprogram : x.program = claim_build worker_id now)
    (hpending : ∀ d, (x.pending d).jobs = d.jobs) (hheld : x.held = []) (hexecuted : x.executed = 0)
  | counted (worker_id : String) (now : Moment) (view : Database)
    (hcall : x.call = .claim worker_id now)
    (hprogram : x.program = (claim_build worker_id now).after view)
    (hpending : ∀ d, (x.pending d).jobs = d.jobs) (hheld : x.held = []) (hexecuted : x.executed = 1)
  | idle (hprogram : x.program = .ret none) (hpending : ∀ d, (x.pending d).jobs = d.jobs)
  | chosen (id : String) (hwithin : x.Within (JobsStep (some id))) (hfront : Front id d)
    (hsafe : x.program.Safe OthersBuild (Claimed id) x.held x.pending d)
  | other (hcall : x.call.isClaim = false) (hwithin : x.Within (JobsStep none))

/-- What a transaction commits. -/
inductive Committed (call : BuildCall) (held : List RowLock) (d d' : Database) :
    Option BuildRecord → Prop
  | kept (a : Option BuildRecord) (ha : a = none ∨ call.isClaim = false)
    (hjobs : JobsStep none held d d') : Committed call held d d' a
  | claimed (build : BuildRecord) (hwaits : Waits build.id d) (hfront : Front build.id d)
    (hjobs : JobsStep (some build.id) held d d')
    (hbuilding : ∀ row ∈ d'.jobs, row.id = build.id → row.status = .building) :
    Committed call held d d' (some build)

/-- A claim that selects a queued job does so while no job is being built. -/
def selects_idle (s : Builds) : Event BuildCall → Bool
  | .advance i => s.sessions[i]?.all fun x =>
      !x.call.isClaim || x.executed ≠ 1 || x.ready || (next_queued s.committed).isNone ||
        s.committed.jobs.count (·.status = .building) = 0
  | .start _ | .abort _ => true

variable {d d' : Database} {x : BuildSession} {a : Option BuildRecord}
  {worker_id : String} {now : Moment} {view : Database}

theorem claim_build_counts : claim_build worker_id now =
    .stmt (fun _ d => d) fun view => (claim_build worker_id now).after view := rfl

theorem claim_build_selects (hcount : view.jobs.count (·.status = .building) = 0) :
    (claim_build worker_id now).after view =
      .stmt (fun _ d => d) fun view' => ((claim_build worker_id now).after view).after view' := by
  rw [claim_build, after_select_bind, if_neg (not_not.mpr hcount)]
  rfl

theorem claim_build_gives_up (hcount : view.jobs.count (·.status = .building) ≠ 0) :
    (claim_build worker_id now).after view = .ret none := by
  rw [claim_build, after_select_bind, if_pos hcount]
  rfl

theorem claim_build_finds_none {view' : Database}
    (hcount : view.jobs.count (·.status = .building) = 0) (hnext : next_queued view' = none) :
    ((claim_build worker_id now).after view).after view' = .ret none := by
  rw [claim_build, after_select_bind, if_neg (not_not.mpr hcount), after_select_bind, hnext]
  rfl

theorem next_queued_of_jobs (h : d'.jobs = d.jobs) : next_queued d' = next_queued d := by
  rw [next_queued, next_queued, h]

/-- A transaction that starts. -/
theorem Stage.start (call : BuildCall) : Stage d (.of BuildCall.perform call) := by
  cases call with
  | claim worker_id now => exact .fresh worker_id now rfl rfl (fun _ => rfl) rfl rfl
  | complete build graph_version document_count draft_id new_ids now =>
    exact .other rfl (.of jobsStep_bound (.bind jobs_complete_build fun _ _ => trivial))
  | fail build error_code now =>
    exact .other rfl (.of jobsStep_bound (.bind jobs_fail_build fun _ _ => trivial))

/-- A transaction that takes a lock. -/
theorem Stage.lock {row : RowLock} {next : Transaction (Option BuildRecord)} (h : Stage d x)
    (hprogram : x.program = .lock row next) : Stage d (x.lock row next) := by
  cases h with
  | fresh worker_id now _ hfresh => cases hprogram.symm.trans hfresh
  | counted worker_id now view hcall hcounted =>
    by_cases hcount : view.jobs.count (·.status = .building) = 0
    · rw [claim_build_selects hcount] at hcounted
      cases hprogram.symm.trans hcounted
    · rw [claim_build_gives_up hcount] at hcounted
      cases hprogram.symm.trans hcounted
  | idle hidle => cases hprogram.symm.trans hidle
  | chosen id hwithin hfront hsafe =>
    rw [hprogram] at hsafe
    exact .chosen id (hwithin.lock jobsStep_bound hprogram) hfront
      (hsafe d (others_build_rely.refl _ _))
  | other hcall hwithin => exact .other hcall (hwithin.lock jobsStep_bound hprogram)

/-- A transaction that executes a statement. -/
theorem Stage.execute {change : Database → Database → Database}
    {next : Database → Transaction (Option BuildRecord)} (h : Stage d x)
    (hprogram : x.program = .stmt change next)
    (hidle : x.call.isClaim = true → x.executed = 1 → next_queued d ≠ none →
      ∀ row ∈ d.jobs, row.status ≠ .building) :
    Stage d (x.execute d change next) := by
  cases h with
  | fresh worker_id now hcall hfresh hpending hheld hexecuted =>
    rw [claim_build_counts] at hfresh
    cases hprogram.symm.trans hfresh
    exact .counted worker_id now (x.pending d) hcall rfl hpending hheld (by simp [hexecuted])
  | counted worker_id now view hcall hcounted hpending hheld hexecuted =>
    by_cases hcount : view.jobs.count (·.status = .building) = 0
    case neg =>
      rw [claim_build_gives_up hcount] at hcounted
      cases hprogram.symm.trans hcounted
    case pos =>
      rw [claim_build_selects hcount] at hcounted
      cases hprogram.symm.trans hcounted
      cases hnext : next_queued (x.pending d) with
      | none => exact .idle (claim_build_finds_none hcount hnext) hpending
      | some row =>
        rw [next_queued_of_jobs (hpending d)] at hnext
        refine .chosen row.id ⟨fun d' => .of_jobs (hpending d'), ?_⟩ (fun _ => ?_) ?_
        · exact jobs_claim hcount (by rw [next_queued_of_jobs (hpending d), hnext])
        · refine ⟨firstQueued_of_next hnext, hidle (by rw [hcall]; rfl) hexecuted ?_⟩
          simp [hnext]
        · rw [Session.execute_program, Session.execute_held, hheld]
          exact claim_safe hcount (by rw [next_queued_of_jobs (hpending d), hnext]) hpending
  | idle hdone => cases hprogram.symm.trans hdone
  | chosen id hwithin hfront hsafe =>
    rw [hprogram] at hsafe
    exact .chosen id (hwithin.execute jobsStep_bound hprogram d) hfront
      (hsafe d (others_build_rely.refl _ _))
  | other hcall hwithin => exact .other hcall (hwithin.execute jobsStep_bound hprogram d)

/-- A transaction that commits. -/
theorem Stage.commit (h : Stage d x) (hprogram : x.program = .ret a) :
    Committed x.call x.held d (x.pending d) a := by
  cases h with
  | fresh worker_id now _ hfresh => cases hprogram.symm.trans hfresh
  | counted worker_id now view hcall hcounted hpending =>
    by_cases hcount : view.jobs.count (·.status = .building) = 0
    · rw [claim_build_selects hcount] at hcounted
      cases hprogram.symm.trans hcounted
    · rw [claim_build_gives_up hcount] at hcounted
      cases hprogram.symm.trans hcounted
      exact .kept none (Or.inl rfl) (.of_jobs (hpending d))
  | idle hidle hpending =>
    cases hprogram.symm.trans hidle
    exact .kept none (Or.inl rfl) (.of_jobs (hpending d))
  | chosen id hwithin hfront hsafe =>
    rw [hprogram] at hsafe
    cases hsafe d (others_build_rely.refl _ _) with
    | none hjobs => exact .kept none (Or.inl rfl) (.of_jobs hjobs)
    | some hid hwaits hbuilding =>
      subst hid
      exact .claimed _ hwaits hfront (hwithin.pending d) hbuilding
  | other hcall hwithin => exact .kept a (Or.inr hcall) (hwithin.pending d)

end lagraph.registry
