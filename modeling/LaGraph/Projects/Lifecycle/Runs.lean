import LaGraph.Projects.Lifecycle.Ends
import LaGraph.Projects.Snapshots.Runs

open foundation foundation.Tx

namespace lagraph.registry

/-- The projects and the worker that builds them. -/
structure Service where
  db : Database
  worker : Worker

def Service.initial : Service where
  db := .empty
  worker := .stopped

inductive ServiceEvent
  | perform (operation : ProjectOperation) (now : Moment)
  /-- The worker's process ends, between its transactions. -/
  | crash

/-- What the worker does in its place in `run_forever` and `_process`; everybody else does
anything. -/
def Worker.admits (worker : Worker) : ProjectOperation → Bool
  | .recover_builds => worker = .stopped
  | .claim_build _ => worker = .polling
  | .update_file_lifecycle snapshot_id _ _ =>
    match worker with
    | .holding build => build.snapshot_id = snapshot_id
    | .stopped | .polling => false
  | .complete_build build _ _ _ _ | .fail_build build _ => worker = .holding build
  | _ => true

/-- A build that could not be completed is failed yet; other exceptions end the process. -/
def Worker.next (worker : Worker) :
    ProjectOperation → Except ProjectError (Option BuildRecord) → Worker
  | .recover_builds, .ok _ | .complete_build .., .ok _ | .fail_build .., .ok _ => .polling
  | .claim_build _, .ok record => .claimed record
  | .recover_builds, .error _ | .claim_build _, .error _ | .fail_build .., .error _ => .stopped
  | _, _ => worker

def Service.step (s : Service) : ServiceEvent → Option Service
  | .crash => some { s with worker := .stopped }
  | .perform operation now =>
    if s.worker.admits operation then
      let outcome := (operation.perform now).transact s.db
      some { db := outcome.2, worker := s.worker.next operation outcome.1 }
    else none

def Worker.records : Worker → List BuildRecord
  | .holding build => [build]
  | .stopped | .polling => []

/-- No row of files, sessions or builds names the identifier as a snapshot's. -/
def Service.unnamed (s : Service) (id : String) : Bool :=
  decide ((∀ file ∈ s.db.files, file.snapshot_id ≠ id) ∧
    (∀ upload ∈ s.db.uploads, upload.snapshot_id ≠ id) ∧ ∀ job ∈ s.db.jobs, job.snapshot_id ≠ id) &&
  s.worker.records.all (·.snapshot_id ≠ id)

/-- The identifiers drawn for projects and snapshots are new. -/
def Service.draws_new (s : Service) : ServiceEvent → Bool
  | .perform (.create_project ids _ _ _ _) _ =>
    s.unnamed ids.snapshot &&
      decide ((∀ snapshot ∈ s.db.snapshots, snapshot.project_id ≠ ids.project) ∧
        (∀ job ∈ s.db.jobs, job.project_id ≠ ids.project) ∧
          ∀ file ∈ s.db.files, file.project_id ≠ ids.project)
  | .perform (.complete_build _ _ _ draft_id _) _ => s.unnamed draft_id
  | _ => true

variable {s s' : Service} {operation : ProjectOperation} {now : Moment} {id : String}

theorem Service.unnamed_iff (h : s.unnamed id = true) : Unnamed s.worker.records s.db id := by
  rw [Service.unnamed, Bool.and_eq_true, decide_eq_true_eq, List.all_eq_true] at h
  obtain ⟨⟨hfiles, huploads, hjobs⟩, hrecords⟩ := h
  exact ⟨hfiles, huploads, hjobs, fun record hrecord => of_decide_eq_true (hrecords record hrecord)⟩

theorem Orderly.crash (h : Orderly s.worker s.db) : Orderly .stopped s.db := by
  refine ⟨h.sound, h.owned, h.uploads, ?_⟩
  have hbuilding := h.building
  revert hbuilding
  cases s.worker with
  | stopped => exact id
  | polling =>
    intro hnone
    rw [show building_jobs s.db = [] from hnone]
    exact Nat.zero_le 1
  | holding build =>
    rintro ⟨job, hone, -⟩
    rw [hone]
    exact Nat.le_refl 1

theorem Service.new_project {ids : ProjectIds} {subject username tenant_id key : String}
    (h : s.draws_new (.perform (.create_project ids subject username tenant_id key) now) = true) :
    NewProject s.db ids := by
  rw [Service.draws_new, Bool.and_eq_true, decide_eq_true_eq] at h
  exact ⟨h.2.1, h.2.2.1, (Service.unnamed_iff h.1).uploads⟩

/-- An operation that returns, by whoever may ask for it now. -/
theorem perform_orderly (h : Orderly s.worker s.db)
    (hfits : ∀ job ∈ s.db.jobs, Fits s.db job.snapshot_id job.project_id)
    (hadmits : s.worker.admits operation = true)
    (hdraws : s.draws_new (.perform operation now) = true) :
    Yields (fun record => Orderly (s.worker.next operation (.ok record))) (operation.perform now)
      s.db := by
  have hthen {α : Type} {t : Transaction α} {worker : Worker} (ht : KeepsOrder worker t s.db) :
      Yields (fun _ => Orderly worker) (t >>= fun _ => (pure none : Transaction (Option BuildRecord)))
        s.db := KeepsOrder.bind ht fun _ _ h => h
  cases operation with
  | create_project => exact hthen (create_project_orderly h (Service.new_project hdraws))
  | create_upload_session => exact hthen (create_upload_session_orderly h)
  | mark_part_uploaded => exact hthen (mark_part_uploaded_orderly h)
  | finalize_upload => exact hthen (finalize_upload_orderly h)
  | delete_file => exact hthen (delete_file_orderly h)
  | cleanup_expired_uploads => exact hthen (cleanup_expired_uploads_orderly h)
  | submit_build => exact hthen (submit_build_orderly h)
  | claim_build =>
    have hworker : s.worker = .polling := of_decide_eq_true hadmits
    rw [hworker] at h
    exact claim_build_orderly h
  | update_file_lifecycle => exact hthen (mark_files_orderly h)
  | complete_build build graph_version document_count draft_id new_ids =>
    have hworker : s.worker = .holding build := of_decide_eq_true hadmits
    rw [hworker] at h
    exact hthen (complete_build_orderly h (Service.unnamed_iff hdraws).uploads)
  | fail_build =>
    have hworker := of_decide_eq_true hadmits
    rw [hworker] at h
    exact hthen (fail_build_orderly h)
  | recover_builds =>
    have hworker : s.worker = .stopped := of_decide_eq_true hadmits
    rw [hworker] at h
    exact hthen (recover_builds_orderly h)
  | archive => exact hthen (archive_orderly h)
  | restore => exact hthen (restore_orderly h)
  | purge_expired => exact hthen (purge_expired_orderly h hfits)

theorem next_orderly (h : Orderly s.worker s.db) (operation : ProjectOperation) (e : ProjectError) :
    Orderly (s.worker.next operation (.error e)) s.db := by
  cases operation with
  | recover_builds | claim_build | fail_build => exact h.crash
  | _ => exact h

theorem Linked.fewer {records records' : List BuildRecord} {db : Database}
    (h : Linked records db) (hrecords : ∀ record ∈ records', record ∈ records) :
    Linked records' db where
  __ := h
  records record hrecord := h.records record (hrecords record hrecord)

/-- The records of the worker after an operation: those it had and the one it was given. -/
theorem next_records (worker : Worker) (operation : ProjectOperation)
    (outcome : Except ProjectError (Option BuildRecord)) (record : BuildRecord)
    (h : record ∈ (worker.next operation outcome).records) :
    record ∈ worker.records ∨ ∃ claimed, outcome = .ok (some claimed) ∧ record = claimed := by
  unfold Worker.next at h
  split at h
  · cases h
  · cases h
  · cases h
  · rename_i claimed
    cases claimed with
    | none => cases h
    | some claimed => exact Or.inr ⟨claimed, rfl, List.mem_singleton.mp h⟩
  · cases h
  · cases h
  · cases h
  · exact Or.inl h

theorem claimed_of_admits (h : s.worker.admits operation = true) :
    operation.claimed s.worker.records = true := by
  cases operation with
  | complete_build build | fail_build build =>
    have hworker := of_decide_eq_true h
    rw [hworker]
    exact decide_eq_true (List.mem_singleton_self _)
  | _ => rfl

theorem draws_unused {registry : Registry} (h : s.draws_new (.perform operation now) = true) :
    DrawsUnused ⟨⟨s.db, s.worker.records⟩, (operation, now), registry⟩ := by
  cases operation with
  | create_project =>
    rw [Service.draws_new, Bool.and_eq_true, decide_eq_true_eq] at h
    exact ⟨Service.unnamed_iff h.1, h.2.2.2⟩
  | complete_build => exact Service.unnamed_iff h
  | _ => trivial

/-- What is in order and linked stays so. -/
structure Service.Good (s : Service) : Prop where
  orderly : Orderly s.worker s.db
  linked : Linked s.worker.records s.db

theorem Service.Good.step {event : ServiceEvent} (h : s.Good) (hstep : s.step event = some s')
    (hdraws : s.draws_new event = true) : s'.Good := by
  cases event with
  | crash =>
    cases hstep
    exact ⟨h.orderly.crash, h.linked.fewer fun _ hrecord => nomatch hrecord⟩
  | perform operation now =>
    unfold Service.step at hstep
    dsimp only at hstep
    split at hstep
    case isFalse => cases hstep
    case isTrue hadmits =>
      have horderly := perform_orderly h.orderly h.linked.jobs hadmits hdraws
      have hlinked := @perform_yields ⟨s.db, s.worker.records⟩ ⟨s.db, s.worker.records⟩ operation now
        h.linked (claimed_of_admits hadmits) (draws_unused hdraws)
      cases hstep
      cases hrun : (operation.perform now).run s.db with
      | ok result =>
        rw [transact_ok hrun]
        refine ⟨horderly.run hrun, (hlinked.run hrun).fewer fun record hrecord => ?_⟩
        rw [List.mem_append]
        obtain hold | ⟨claimed, houtcome, rfl⟩ := next_records _ _ _ _ hrecord
        · exact Or.inl hold
        · rw [Except.ok.inj houtcome]
          exact Or.inr (List.mem_singleton_self _)
      | error e =>
        rw [transact_error hrun]
        refine ⟨next_orderly h.orderly operation e, h.linked.fewer fun record hrecord => ?_⟩
        obtain hold | ⟨claimed, houtcome, -⟩ := next_records _ _ _ _ hrecord
        · exact hold
        · cases houtcome

theorem Service.initial_good : Service.initial.Good := by
  refine ⟨⟨?_, ?_, ?_, Nat.zero_le 1⟩, Linked.empty⟩
  · exact fun _ h => absurd h Table.not_mem_empty
  · exact fun _ h => absurd h Table.not_mem_empty
  · exact fun _ h => absurd h Table.not_mem_empty

/-- The states of a run are good. -/
theorem Service.run_good {trace : List (Transition Service ServiceEvent)}
    (hrun : Run (fun a event b => a.step event = some b) .initial trace s)
    (hdraws : ∀ e ∈ trace, e.before.draws_new e.label = true) :
    s.Good ∧ ∀ e ∈ trace, e.before.Good ∧ e.before.step e.label = some e.after :=
  hrun.invariant Service.initial_good hdraws fun _ _ _ hstep hdraws hgood => hgood.step hstep hdraws

/-- With one worker, and crashes between transactions only, everything is in order in every state
reached. What the worker has claimed it can complete, but for an identifier that is taken, and
always fail. -/
theorem service_stays_orderly {trace : List (Transition Service ServiceEvent)}
    (hrun : Run (fun a event b => a.step event = some b) .initial trace s)
    (hdraws : ∀ e ∈ trace, e.before.draws_new e.label = true) :
    Orderly s.worker s.db ∧ ∀ build, s.worker = .holding build → ∀ now,
      (∀ graph_version document_count draft_id new_ids error,
        (complete_build build graph_version document_count draft_id new_ids now).run s.db =
          .error error → error = .IntegrityError) ∧
      ∀ error_code error, (fail_build build error_code now).run s.db ≠ .error error := by
  have hgood := (Service.run_good hrun hdraws).1
  refine ⟨hgood.orderly, fun build hworker now => ⟨?_, ?_⟩⟩
  · intro graph_version document_count draft_id new_ids error herror
    exact (complete_build_raises (hworker ▸ hgood.orderly)).run herror
  · intro error_code error herror
    exact (fail_build_raises (hworker ▸ hgood.orderly)).run herror

/-- A project whose draft is built, edited on and built again. -/
def build_and_edit : List ServiceEvent :=
  [.perform .recover_builds 0,
    .perform (.create_project ⟨"p", "m", "d"⟩ "u" "n" "t" "k") 0,
    .perform (.create_upload_session "s" "p" [⟨"part", "law.md", "text/markdown", 2, "h"⟩] "u" "k"
      100) 1,
    .perform (.mark_part_uploaded "part" "tmp" 2) 2,
    .perform (.finalize_upload "p" "s" [("part", "blobs/h")] (fun _ => "f") "u" "k") 3,
    .perform (.submit_build "b" "p" "u" "k") 4, .perform (.claim_build "w") 5, .crash,
    .perform .recover_builds 6, .perform (.claim_build "w") 7,
    .perform (.complete_build ⟨"b", "p", "d", 0, "u", 1⟩ "v" 1 "d2" (fun _ => "f2")) 8,
    .perform (.submit_build "b2" "p" "u" "k2") 9, .perform (.claim_build "w") 10]

/-- The worker holds the second build when the first is active. -/
theorem service_stays_orderly_twice :
    ∃ trace s, Run (fun a event b => Service.step a event = some b) .initial trace s ∧
      s.worker = .holding ⟨"b2", "p", "d2", 1, "u", 2⟩ ∧ Orderly s.worker s.db := by
  have hfollow : ∃ path ∈ Run.follow Service.step .initial build_and_edit,
      path.2.worker = .holding ⟨"b2", "p", "d2", 1, "u", 2⟩ ∧
        ∀ e ∈ path.1, e.before.draws_new e.label = true := by
    decide +kernel
  obtain ⟨⟨trace, s⟩, hpath, hworker, hdraws⟩ := hfollow
  have hrun := Run.of_follow hpath
  exact ⟨trace, s, hrun, hworker, (service_stays_orderly hrun hdraws).1⟩

end lagraph.registry
