import LaGraph.Projects.Builds.Stages

open foundation foundation.Tx

namespace lagraph.registry

/-- At most one job is being built. -/
def OneBuilding (d : Database) : Prop :=
  ∀ row ∈ d.jobs, ∀ other ∈ d.jobs, row.status = .building → other.status = .building →
    row.id = other.id

/-- The jobs that claims have returned to their workers. -/
def claimed_jobs (s : Builds) : List String :=
  s.returned.filterMap fun result =>
    if result.1.isClaim then result.2.map (·.id) else none

/-- The single build, and each job for one worker. -/
structure SingleBuild (s : Builds) : Prop where
  one : OneBuilding s.committed
  once : (claimed_jobs s).Nodup

variable {claimed : Option String} {held : List RowLock} {d d' : Database} {id : String}
  {call : BuildCall} {a : Option BuildRecord} {s s' : Builds} {e : Event BuildCall}

theorem Waits.of_step (hjobs : JobsStep claimed held d d') (h : Waits id d') : Waits id d := by
  obtain ⟨row', hrow', hid, hqueued⟩ := h
  obtain ⟨row, hrow, hchange⟩ := hjobs.mem hrow'
  exact ⟨row, hrow, hchange.id.symm.trans hid, hchange.of_queued hqueued⟩

/-- The first job stays first when nothing is claimed. -/
theorem Front.of_step (hjobs : JobsStep none held d d') (h : Front id d) : Front id d' := by
  intro hwaits
  obtain ⟨hfirst, hidle⟩ := h (hwaits.of_step hjobs)
  refine ⟨?_, fun row' hrow' hbuilding => ?_⟩
  · obtain ⟨g, hrows, hg⟩ := hjobs
    obtain ⟨row, hrow, hwaiting⟩ := hwaits
    rw [← Table.mem_rows, hrows] at hrow
    rw [hrows]
    exact hfirst.shrink d.jobs.nodup (fun row _ => ⟨(hg row).id, (hg row).created_at⟩)
      (fun row _ => (hg row).of_queued) ⟨row, hrow, hwaiting⟩
  · obtain ⟨row, hrow, hchange⟩ := hjobs.mem hrow'
    cases hchange.of_building hbuilding with
    | inl hbuilding => exact hidle row hrow hbuilding
    | inr hnone => cases hnone

/-- A claim that has chosen a job commits that one or none. -/
theorem Committed.front (hcommitted : Committed call held d d' a) (h : Front id d) :
    Front id d' := by
  cases hcommitted with
  | kept a ha hjobs => exact h.of_step hjobs
  | claimed build hwaits hfront hjobs hbuilding =>
    intro hwaiting
    have hsame : id = build.id :=
      (h (hwaiting.of_step hjobs)).1.unique (hfront hwaits).1
    obtain ⟨row, hrow, hid, hqueued⟩ := hwaiting
    cases hqueued.symm.trans (hbuilding row hrow (hid.trans hsame))

theorem Committed.waits (hcommitted : Committed call held d d' a) (h : Waits id d') :
    Waits id d := by
  cases hcommitted with
  | kept a ha hjobs => exact h.of_step hjobs
  | claimed build hwaits hfront hjobs hbuilding => exact h.of_step hjobs

/-- A job whose lock is not held is not written. -/
theorem Committed.others {held' : List RowLock} (hcommitted : Committed call held d d' a)
    (hapart : ∀ row ∈ held, row ∉ held') : OthersBuild held' d d' := by
  intro id hheld
  have hfree : RowLock.job id ∉ held := fun hlocked => hapart _ hlocked hheld
  cases hcommitted with
  | kept a ha hjobs => exact hjobs.get_of_free hfree
  | claimed build hwaits hfront hjobs hbuilding => exact hjobs.get_of_free hfree

/-- Nothing is being built when a claim commits. -/
theorem Committed.one (hcommitted : Committed call held d d' a) (h : OneBuilding d) :
    OneBuilding d' := by
  intro row' hrow' other' hother' hbuilding hbuilding'
  cases hcommitted with
  | kept a ha hjobs =>
    obtain ⟨row, hrow, hchange⟩ := hjobs.mem hrow'
    obtain ⟨other, hother, hchange'⟩ := hjobs.mem hother'
    rw [hchange.id, hchange'.id]
    refine h row hrow other hother ?_ ?_
    · exact (hchange.of_building hbuilding).resolve_right fun hnone => by cases hnone
    · exact (hchange'.of_building hbuilding').resolve_right fun hnone => by cases hnone
  | claimed build hwaits hfront hjobs _ =>
    have hidle := (hfront hwaits).2
    have hclaimed {row' : BuildJobRow} (hrow' : row' ∈ d'.jobs)
        (hbuilding : row'.status = .building) : row'.id = build.id := by
      obtain ⟨row, hrow, hchange⟩ := hjobs.mem hrow'
      have hid := (hchange.of_building hbuilding).resolve_left (hidle row hrow)
      rw [hchange.id, ← Option.some.inj hid]
    rw [hclaimed hrow' hbuilding, hclaimed hother' hbuilding']

/-- What holds of the workers in every state of a run. -/
structure BuildsInv (s : Builds) : Prop where
  exclusive : s.Exclusive
  stages : ∀ x ∈ s.sessions, Stage s.committed x
  single : SingleBuild s
  taken : ∀ id ∈ claimed_jobs s, ¬ Waits id s.committed

theorem Stage.of_commit {x : BuildSession} (h : Stage d x) (hcommitted : Committed call held d d' a)
    (hapart : ∀ row ∈ held, row ∉ x.held) : Stage d' x := by
  cases h with
  | fresh worker_id now hcall hprogram hpending hheld hexecuted =>
    exact .fresh worker_id now hcall hprogram hpending hheld hexecuted
  | counted worker_id now view hcall hprogram hpending hheld hexecuted =>
    exact .counted worker_id now view hcall hprogram hpending hheld hexecuted
  | idle hprogram hpending => exact .idle hprogram hpending
  | chosen id hwithin hfront hsafe =>
    exact .chosen id hwithin (hcommitted.front hfront)
      (hsafe.rely others_build_rely (hcommitted.others hapart))
  | other hcall hwithin => exact .other hcall hwithin

theorem building_of_selects_idle {i : Nat} {x : BuildSession}
    {change : Database → Database → Database}
    {next : Database → Transaction (Option BuildRecord)}
    (h : selects_idle s (.advance i) = true) (hx : s.sessions[i]? = some x)
    (hprogram : x.program = .stmt change next) :
    x.call.isClaim = true → x.executed = 1 → next_queued s.committed ≠ none →
      ∀ row ∈ s.committed.jobs, row.status ≠ .building := by
  intro hclaim hexecuted hnext
  have hready : x.ready = false := by
    rw [Session.ready, hprogram]
  rw [selects_idle, hx, Option.all_some, hclaim, hexecuted, hready] at h
  have hcount : s.committed.jobs.count (·.status = .building) = 0 := by
    simpa [hnext] using h
  intro row hrow
  have hnone := List.countP_eq_zero.mp hcount row hrow
  simpa using hnone

theorem claimed_jobs_append {result : BuildCall × Option BuildRecord} {x : List BuildSession} :
    claimed_jobs ⟨d, x, s.returned ++ [result]⟩ =
      claimed_jobs s ++ (if result.1.isClaim then result.2.map (·.id) else none).toList := by
  rw [claimed_jobs, List.filterMap_append, claimed_jobs]
  rfl

/-- A commit returns a job that waited. -/
theorem BuildsInv.committed (hs : BuildsInv s) (hcommitted : Committed call held s.committed d' a)
    {sessions : List BuildSession} :
    SingleBuild ⟨d', sessions, s.returned ++ [(call, a)]⟩ ∧
      ∀ id ∈ claimed_jobs ⟨d', sessions, s.returned ++ [(call, a)]⟩, ¬ Waits id d' := by
  have hone := hcommitted.one hs.single.one
  have htaken : ∀ id ∈ claimed_jobs s, ¬ Waits id d' :=
    fun id hid hwaits => hs.taken id hid (hcommitted.waits hwaits)
  have hnone : (if call.isClaim then a.map (·.id) else none) = none →
      SingleBuild ⟨d', sessions, s.returned ++ [(call, a)]⟩ ∧
        ∀ id ∈ claimed_jobs ⟨d', sessions, s.returned ++ [(call, a)]⟩, ¬ Waits id d' := by
    intro hnone
    have hsame : claimed_jobs ⟨d', sessions, s.returned ++ [(call, a)]⟩ = claimed_jobs s := by
      rw [claimed_jobs_append, hnone, Option.toList_none, List.append_nil]
    refine ⟨⟨hone, ?_⟩, ?_⟩
    · rw [hsame]
      exact hs.single.once
    · rw [hsame]
      exact htaken
  cases hcommitted with
  | kept a ha hjobs =>
    refine hnone ?_
    cases ha with
    | inl ha => simp [ha]
    | inr hcall => simp [hcall]
  | claimed build hwaits hfront hjobs hbuilding =>
    by_cases hcall : call.isClaim = true
    case neg => exact hnone (if_neg hcall)
    case pos =>
      have happend : claimed_jobs ⟨d', sessions, s.returned ++ [(call, some build)]⟩ =
          claimed_jobs s ++ [build.id] := by
        rw [claimed_jobs_append, if_pos hcall]
        rfl
      refine ⟨⟨hone, ?_⟩, ?_⟩
      · rw [happend, List.nodup_append]
        refine ⟨hs.single.once, List.nodup_singleton _, fun id hid id' hid' hsame => ?_⟩
        rw [hsame, List.mem_singleton.mp hid'] at hid
        exact hs.taken build.id hid hwaits
      · rw [happend]
        intro id hid
        cases List.mem_append.mp hid with
        | inl hid => exact htaken id hid
        | inr hid =>
          rw [List.mem_singleton.mp hid]
          rintro ⟨row, hrow, hid, hqueued⟩
          cases hqueued.symm.trans (hbuilding row hrow hid)

theorem builds_inv_step (h : System.Step BuildCall.perform s e s')
    (hidle : selects_idle s e = true) (hs : BuildsInv s) : BuildsInv s' := by
  have hexclusive := h.exclusive hs.exclusive
  have hstages : ∀ x ∈ s'.sessions, Stage s'.committed x := by
    refine h.sessions hs.stages (fun call _ => .start call)
      (fun x row next hx hprogram => (hs.stages x hx).lock hprogram) ?_ ?_
    · intro i before x after change next he hat hprogram
      subst he
      have hx : x ∈ s.sessions := List.mem_of_getElem? hat.getElem?
      exact (hs.stages x hx).execute hprogram
        (building_of_selects_idle hidle hat.getElem? hprogram)
    · intro i before x after a _ hat hprogram y hy
      have hx : x ∈ s.sessions := List.mem_of_getElem? hat.getElem?
      have hy' : y ∈ s.sessions := by
        rw [hat.sessions, List.mem_append, List.mem_cons]
        rw [List.mem_append] at hy
        exact hy.imp_right Or.inr
      exact (hs.stages y hy').of_commit ((hs.stages x hx).commit hprogram)
        ((hat.exclusive_iff.mp hs.exclusive).1 y hy)
  cases h with
  | start call => exact ⟨hexclusive, hstages, ⟨hs.single.one, hs.single.once⟩, hs.taken⟩
  | @commit i before after x a hat hprogram =>
    have hx : x ∈ s.sessions := List.mem_of_getElem? hat.getElem?
    obtain ⟨hsingle, htaken⟩ := hs.committed ((hs.stages x hx).commit hprogram)
    exact ⟨hexclusive, hstages, hsingle, htaken⟩
  | roll_back _ _ => exact ⟨hexclusive, hstages, ⟨hs.single.one, hs.single.once⟩, hs.taken⟩
  | lock _ _ _ => exact ⟨hexclusive, hstages, ⟨hs.single.one, hs.single.once⟩, hs.taken⟩
  | execute _ _ => exact ⟨hexclusive, hstages, ⟨hs.single.one, hs.single.once⟩, hs.taken⟩

/-- In every run whose claims select a queued job only while no job is being built, there
is one build at a time, and no job goes to two workers. -/
theorem single_build_while_idle
    (hrun : System.Run BuildCall.perform (fun s e => selects_idle s e = true) (System.empty d) s)
    (hone : OneBuilding d) : SingleBuild s := by
  have hstart : BuildsInv (System.empty d) :=
    ⟨List.Pairwise.nil, fun _ hx => absurd hx List.not_mem_nil, ⟨hone, List.nodup_nil⟩,
      fun _ hid => absurd hid List.not_mem_nil⟩
  exact (hrun.invariant (fun _ _ _ hidle h hs => builds_inv_step h hidle hs) hstart).single

/-- A project with one file in its draft, and its build. -/
def queue_build (project_id build_id : String) (now : Moment) : Transaction Unit := do
  let _ ← create_project ⟨project_id, project_id ++ "_owner", project_id ++ "_draft"⟩ "lea" "Lea"
    "west" project_id now
  create_upload_session (project_id ++ "_upload") project_id
    [⟨project_id ++ "_part", "one.txt", "text/plain", 2, "2"⟩] "lea" "upload" 100 now
  mark_part_uploaded (project_id ++ "_part") "/data/uploads/one.txt" 2
  finalize_upload project_id (project_id ++ "_upload") [(project_id ++ "_part", "2")]
    (fun _ => project_id ++ "_file") "lea" "finalize" now
  submit_build build_id project_id "lea" "build" now

/-- Two projects with a queued build each. -/
def two_builds : Database :=
  let setup : Transaction Unit := do
    queue_build "first" "b1" 1
    queue_build "second" "b2" 2
  (setup.transact Database.empty).2

/-- One worker counts, another claims the older job, and the first selects the other. -/
def count_before_claim : List (Event BuildCall) :=
  [.start (.claim "w1" 3), .start (.claim "w2" 3), .advance 0] ++
    List.replicate 12 (.advance 1) ++ List.replicate 11 (.advance 0)

theorem two_builds_idle : OneBuilding two_builds := by
  have hidle : ∀ row ∈ two_builds.jobs, row.status ≠ .building := by decide +kernel
  intro row hrow other _ hbuilding
  exact absurd hbuilding (hidle row hrow)

/-- Neither worker finds a build when it counts, and both jobs are being built. -/
theorem claims_build_twice :
    ¬ ∀ (d : Database) (s : Builds), OneBuilding d →
      System.Run BuildCall.perform (fun _ _ => True) (System.empty d) s → SingleBuild s := by
  intro h
  have hreplay : ∃ s ∈ System.replay BuildCall.perform (System.empty two_builds) count_before_claim,
      (s.committed.jobs.get "b1").any (·.status = .building) ∧
        (s.committed.jobs.get "b2").any (·.status = .building) := by
    delta BuildCall.perform claim_build
    rw [next_queued_eq_argmin]
    decide +kernel
  obtain ⟨s, hs, hfirst, hsecond⟩ := hreplay
  have hone := (h two_builds s two_builds_idle ((System.Run.refl _).of_replay hs)).one
  rw [Option.any_eq_true] at hfirst hsecond
  obtain ⟨row, hrow, hbuilding⟩ := hfirst
  obtain ⟨other, hother, hbuilding'⟩ := hsecond
  obtain ⟨hrow, hid⟩ := Table.get_eq_some.mp hrow
  obtain ⟨hother, hid'⟩ := Table.get_eq_some.mp hother
  have hsame := hone row hrow other hother (by simpa using hbuilding) (by simpa using hbuilding')
  have hname : "b1" = "b2" := hid.symm.trans (hsame.trans hid')
  exact absurd hname (by decide)

/-- The second worker counts when the first one has committed. -/
theorem single_build_while_idle_twice :
    ∃ s : Builds, claimed_jobs s = ["b1"] ∧ SingleBuild s := by
  have hreplay : ∃ s ∈ System.replayWhile BuildCall.perform selects_idle
      (System.empty two_builds) (.start (.claim "w1" 3) :: List.replicate 12 (.advance 0) ++
        [.start (.claim "w2" 3), .advance 0, .advance 0]),
      claimed_jobs s = ["b1"] := by
    delta BuildCall.perform claim_build selects_idle
    rw [next_queued_eq_argmin]
    decide +kernel
  obtain ⟨s, hs, hclaimed⟩ := hreplay
  have hrun := (System.Run.refl _).of_replayWhile hs
  exact ⟨s, hclaimed, single_build_while_idle hrun two_builds_idle⟩

end lagraph.registry
