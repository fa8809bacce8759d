import LaGraph.Projects.Access.Requests.Pending

open foundation foundation.Tx

namespace lagraph.registry

/-- An access request that a subject makes. -/
structure NewRequest where
  id : String
  project_id : String
  tenant_id : String
  requester_id : String
  requester_name : String
  note : Option String
  now : Moment

def NewRequest.create (new : NewRequest) : Transaction AccessRequestRow :=
  create_access_request new.id new.project_id new.tenant_id new.requester_id new.requester_name
    new.note new.now

def NewRequest.request_key (new : NewRequest) : RequestKey :=
  ⟨new.id, new.project_id, new.requester_id⟩

/-- The transactions about access requests, and those that add members. -/
inductive AccessCall
  | create (new : NewRequest)
  | decide (id project_id request_id tenant_id : String) (decision : Decision)
    (role : Option GrantableRole) (actor : String) (now : Moment)
  | cancel (project_id request_id tenant_id requester_id : String) (now : Moment)
  | add (project_id tenant_id : String) (principals : List NewMembership) (role : GrantableRole)
    (now : Moment)

/-- What a transaction does; the row that a creation returns is not looked at. -/
def AccessCall.perform : AccessCall → Transaction Unit
  | .create new => do
    let _ ← new.create
    pure ()
  | .decide id project_id request_id tenant_id decision role actor now =>
    decide_access_request id project_id request_id tenant_id decision role actor now
  | .cancel project_id request_id tenant_id requester_id now =>
    cancel_access_request project_id request_id tenant_id requester_id now
  | .add project_id tenant_id principals role now =>
    add_memberships project_id tenant_id principals role now

/-- The transactions of a run with what is committed. -/
abbrev Accesses := System Database RowLock ProjectError Unit AccessCall

/-- A transaction of a run. -/
abbrev AccessSession := Session Database RowLock ProjectError Unit AccessCall

/-- The project and the subject of a creation that has looked for a pending request and
found none. -/
def inserts_for (x : AccessSession) : Option (String × String) :=
  match x.call with
  | .create new =>
    if x.executed < 2 || (x.executed = 2 && x.program.settled) then none
    else some (new.project_id, new.requester_id)
  | .decide .. | .cancel .. | .add .. => none

/-- A creation that has found no pending request commits only while no other one for the
same project and subject has found none either. -/
def creates_alone (s : Accesses) : Event AccessCall → Bool
  | .advance i => s.sessions[i]?.all fun x =>
      !x.ready || (inserts_for x).isNone ||
        (s.sessions.eraseIdx i).all fun other => inserts_for other ≠ inserts_for x
  | .start _ | .abort _ => true

/-- At most one request of a subject for a project is pending. -/
def OnePending (d : Database) : Prop :=
  ∀ key other, Pending key d → Pending other d → key.project_id = other.project_id →
    key.requester_id = other.requester_id → key = other

/-- No request of the subject for the project is pending. -/
def NonePending (pair : String × String) (d : Database) : Prop :=
  ∀ key, Pending key d → (key.project_id, key.requester_id) ≠ pair

/-- How far a transaction has come. -/
inductive RequestStage (d : Database) (x : AccessSession) : Prop
  | fresh (new : NewRequest) (hcall : x.call = .create new)
    (hprogram : x.program = AccessCall.perform (.create new))
    (hpending : ∀ d, (x.pending d).access_requests = d.access_requests) (hexecuted : x.executed = 0)
  | looking (new : NewRequest) (view : Database) (hcall : x.call = .create new)
    (hprogram : x.program = (AccessCall.perform (.create new)).after view)
    (hpending : ∀ d, (x.pending d).access_requests = d.access_requests) (hexecuted : x.executed = 1)
  | found (hprogram : x.program = .ret ())
    (hpending : ∀ d, (x.pending d).access_requests = d.access_requests)
  | inserting (new : NewRequest)
    (hinserts : inserts_for x = some (new.project_id, new.requester_id))
    (hwithin : x.Within fun _ => PendingStep (some new.request_key))
    (hnone : NonePending (new.project_id, new.requester_id) d)
  | other (hcall : ∀ new, x.call ≠ .create new) (hwithin : x.Within fun _ => PendingStep none)

/-- What a transaction commits. -/
inductive RequestCommit (x : AccessSession) (d d' : Database) : Prop
  | kept (hstep : PendingStep none d d')
  | created (new : NewRequest) (hinserts : inserts_for x = some (new.project_id, new.requester_id))
    (hstep : PendingStep (some new.request_key) d d')
    (hnone : NonePending (new.project_id, new.requester_id) d)

variable {d d' view : Database} {x y : AccessSession} {new : NewRequest} {s s' : Accesses}
  {e : Event AccessCall} {row : RowLock} {rest : Transaction Unit}
  {change : Database → Database → Database} {next : Database → Transaction Unit}

theorem create_looks : AccessCall.perform (.create new) =
    .stmt (fun _ d => d) fun view => (AccessCall.perform (.create new)).after view := rfl

/-- With a project, a creation looks for a pending request. -/
theorem create_looking : (∃ error, (AccessCall.perform (.create new)).after view = .raise error) ∨
    (AccessCall.perform (.create new)).after view = .stmt (fun _ d => d) fun view' =>
      ((AccessCall.perform (.create new)).after view).after view' := by
  rw [AccessCall.perform, NewRequest.create, create_access_request, bind_bind, after_select_bind]
  cases (view.projects.get new.project_id).filter fun row =>
      row.tenant_id = new.tenant_id && row.state ≠ .archived with
  | none => exact Or.inl ⟨_, rfl⟩
  | some project => exact Or.inr rfl

/-- It ends with the pending request it finds, or inserts one. -/
theorem create_found {view' : Database} {held : List RowLock}
    (hproject : ∀ error, (AccessCall.perform (.create new)).after view ≠ .raise error) :
    ((AccessCall.perform (.create new)).after view).after view' = .ret () ∨
      NonePending (new.project_id, new.requester_id) view' ∧
        (((AccessCall.perform (.create new)).after view).after view').settled = false ∧
        (((AccessCall.perform (.create new)).after view).after view').Changes
          (fun _ => PendingStep (some new.request_key)) held := by
  rw [AccessCall.perform, NewRequest.create, create_access_request, bind_bind,
    after_select_bind] at hproject ⊢
  cases hrow : (view.projects.get new.project_id).filter fun row =>
      row.tenant_id = new.tenant_id && row.state ≠ .archived with
  | none =>
    rw [hrow] at hproject
    exact absurd rfl (hproject _)
  | some project =>
    rw [orRaise_some_bind, bind_bind, after_select_bind]
    cases hexisting : view'.access_requests.rows.find? fun row =>
        row.project_id = new.project_id && row.requester_id = new.requester_id &&
          row.status = .pending with
    | some existing => exact Or.inl rfl
    | none =>
      refine Or.inr ⟨?_, rfl, .bind (.bind (pending_add_access_request rfl) fun _ _ => trivial)
        fun _ _ => trivial⟩
      rintro key ⟨row, hrow, hpending, rfl⟩ hpair
      obtain ⟨hproject, hrequester⟩ := Prod.mk.inj hpair
      have hother := List.find?_eq_none.mp hexisting row hrow
      simp [AccessRequestRow.request_key] at hproject hrequester
      simp [hproject, hrequester, hpending] at hother

/-- A transaction that starts. -/
theorem RequestStage.start (call : AccessCall) : RequestStage d (.of AccessCall.perform call) := by
  cases call with
  | create new => exact .fresh new rfl rfl (fun _ => rfl) rfl
  | decide id project_id request_id tenant_id decision role actor now =>
    exact .other (fun _ h => by cases h) (.of pendingStep_bound pending_decide)
  | cancel project_id request_id tenant_id requester_id now =>
    exact .other (fun _ h => by cases h) (.of pendingStep_bound pending_cancel)
  | add project_id tenant_id principals role now =>
    exact .other (fun _ h => by cases h) (.of pendingStep_bound pending_add_memberships)

theorem inserts_for_lock (hprogram : x.program = .lock row rest) :
    inserts_for (x.lock row rest) = inserts_for x := by
  rw [inserts_for, inserts_for, Session.lock_call, Session.lock_executed, Session.lock_program,
    hprogram, settled]

/-- A transaction that takes a lock. -/
theorem RequestStage.lock (h : RequestStage d x) (hprogram : x.program = .lock row rest) :
    RequestStage d (x.lock row rest) := by
  cases h with
  | fresh new hcall hfresh =>
    rw [create_looks] at hfresh
    cases hprogram.symm.trans hfresh
  | looking new view hcall hlooking =>
    rcases @create_looking view new with ⟨error, hraise⟩ | hselect
    · cases hprogram.symm.trans (hlooking.trans hraise)
    · cases hprogram.symm.trans (hlooking.trans hselect)
  | found hfound => cases hprogram.symm.trans hfound
  | inserting new hinserts hwithin hnone =>
    exact .inserting new ((inserts_for_lock hprogram).trans hinserts)
      (hwithin.lock pendingStep_bound hprogram) hnone
  | other hcall hwithin => exact .other hcall (hwithin.lock pendingStep_bound hprogram)

theorem inserts_for_execute {pair : String × String} (h : inserts_for x = some pair) :
    inserts_for (x.execute d change next) = some pair := by
  rw [inserts_for] at h ⊢
  rw [Session.execute_call, Session.execute_executed]
  cases hcall : x.call with
  | create new =>
    simp only [hcall] at h ⊢
    split at h
    · cases h
    · rename_i hlooked
      simp only [Bool.or_eq_true, decide_eq_true_eq, not_or] at hlooked
      have hmore : ¬ x.executed + 1 < 2 ∧ x.executed + 1 ≠ 2 := by omega
      simpa [hmore] using h
  | decide => simp [hcall] at h
  | cancel => simp [hcall] at h
  | add => simp [hcall] at h

/-- A transaction that executes a statement. -/
theorem RequestStage.execute (h : RequestStage d x) (hprogram : x.program = .stmt change next) :
    RequestStage d (x.execute d change next) := by
  cases h with
  | fresh new hcall hfresh hpending hexecuted =>
    rw [create_looks] at hfresh
    cases hprogram.symm.trans hfresh
    exact .looking new (x.pending d) hcall rfl hpending (by simp [hexecuted])
  | looking new view hcall hlooking hpending hexecuted =>
    rcases @create_looking view new with ⟨error, hraise⟩ | hselect
    · cases hprogram.symm.trans (hlooking.trans hraise)
    · cases hprogram.symm.trans (hlooking.trans hselect)
      have hproject (error : ProjectError) :
          (AccessCall.perform (.create new)).after view ≠ .raise error := by
        rw [hselect]
        exact fun h => by cases h
      rcases @create_found view new (x.pending d) _ hproject with hret | ⟨hnone, hopen, hchanges⟩
      · exact .found hret hpending
      · refine .inserting new ?_ ⟨fun d' => .of_requests (hpending d'), ?_⟩ ?_
        · rw [inserts_for, Session.execute_call, hcall, Session.execute_executed, hexecuted,
            Session.execute_program, hopen]
          rfl
        · exact hchanges
        · intro key hkey
          refine hnone key ?_
          rw [Pending, hpending d]
          exact hkey
  | found hfound => cases hprogram.symm.trans hfound
  | inserting new hinserts hwithin hnone =>
    exact .inserting new (inserts_for_execute hinserts)
      (hwithin.execute pendingStep_bound hprogram d) hnone
  | other hcall hwithin => exact .other hcall (hwithin.execute pendingStep_bound hprogram d)

/-- A transaction that commits. -/
theorem RequestStage.commit (h : RequestStage d x) (hprogram : x.program = .ret ()) :
    RequestCommit x d (x.pending d) := by
  cases h with
  | fresh new hcall hfresh =>
    rw [create_looks] at hfresh
    cases hprogram.symm.trans hfresh
  | looking new view hcall hlooking =>
    rcases @create_looking view new with ⟨error, hraise⟩ | hselect
    · cases hprogram.symm.trans (hlooking.trans hraise)
    · cases hprogram.symm.trans (hlooking.trans hselect)
  | found _ hpending => exact .kept (.of_requests (hpending d))
  | inserting new hinserts hwithin hnone =>
    exact .created new hinserts (hwithin.pending d) hnone
  | other hcall hwithin => exact .kept (hwithin.pending d)

theorem NonePending.of_commit {pair : String × String} (hcommit : RequestCommit x d d')
    (hother : inserts_for x ≠ some pair) (h : NonePending pair d) : NonePending pair d' := by
  intro key hpending
  cases hcommit with
  | kept hstep =>
    cases hstep key hpending with
    | inl hpending => exact h key hpending
    | inr hnone => cases hnone
  | created new hinserts hstep hnone =>
    cases hstep key hpending with
    | inl hpending => exact h key hpending
    | inr hnew =>
      cases hnew
      exact fun hpair => hother (hinserts.trans (congrArg some hpair))

/-- The new request is the only one of its subject for its project. -/
theorem OnePending.of_commit (hcommit : RequestCommit x d d') (h : OnePending d) :
    OnePending d' := by
  intro key other hkey hother hproject hrequester
  cases hcommit with
  | kept hstep =>
    have hkey' := (hstep key hkey).resolve_right fun hnone => by cases hnone
    have hother' := (hstep other hother).resolve_right fun hnone => by cases hnone
    exact h key other hkey' hother' hproject hrequester
  | created new hinserts hstep hnone =>
    rcases hstep key hkey with hkey | hnew
    · rcases hstep other hother with hother | hnew
      · exact h key other hkey hother hproject hrequester
      · cases hnew
        exact absurd (Prod.ext hproject hrequester) (hnone key hkey)
    · cases hnew
      rcases hstep other hother with hother | hnew
      · exact absurd (Prod.ext hproject.symm hrequester.symm) (hnone other hother)
      · exact Option.some.inj hnew

theorem RequestStage.of_commit (hcommit : RequestCommit x d d')
    (hother : inserts_for x = none ∨ inserts_for y ≠ inserts_for x) (h : RequestStage d y) :
    RequestStage d' y := by
  cases h with
  | fresh new hcall hprogram hpending hexecuted =>
    exact .fresh new hcall hprogram hpending hexecuted
  | looking new view hcall hprogram hpending hexecuted =>
    exact .looking new view hcall hprogram hpending hexecuted
  | found hprogram hpending => exact .found hprogram hpending
  | inserting new hinserts hwithin hnone =>
    refine .inserting new hinserts hwithin (hnone.of_commit hcommit fun hsame => ?_)
    cases hother with
    | inl hother => cases hother.symm.trans hsame
    | inr hother => exact hother (hinserts.trans hsame.symm)
  | other hcall hwithin => exact .other hcall hwithin

/-- What an admitted commit finds of the other transactions. -/
theorem others_of_creates_alone {i : Nat} {before after : List AccessSession}
    (h : creates_alone s (.advance i) = true) (hat : s.At i before x after)
    (hprogram : x.program = .ret ()) :
    ∀ y ∈ before ++ after, inserts_for x = none ∨ inserts_for y ≠ inserts_for x := by
  intro y hy
  have hready : x.ready = true := by
    rw [Session.ready, hprogram]
  rw [creates_alone, hat.getElem?, Option.all_some, hready, hat.eraseIdx] at h
  simp only [Bool.not_true, Bool.false_or, Bool.or_eq_true, Option.isNone_iff_eq_none,
    List.all_eq_true, decide_eq_true_eq] at h
  exact h.imp id fun hall => hall y hy

theorem access_requests_step (h : System.Step AccessCall.perform s e s')
    (halone : creates_alone s e = true)
    (hs : (∀ x ∈ s.sessions, RequestStage s.committed x) ∧ OnePending s.committed) :
    (∀ x ∈ s'.sessions, RequestStage s'.committed x) ∧ OnePending s'.committed := by
  refine ⟨?_, ?_⟩
  · refine h.sessions hs.1 (fun call _ => .start call)
      (fun x row next hx hprogram => (hs.1 x hx).lock hprogram) ?_ ?_
    · intro i before x after change next _ hat hprogram
      exact (hs.1 x (List.mem_of_getElem? hat.getElem?)).execute hprogram
    · intro i before x after a he hat hprogram y hy
      subst he
      have hy' : y ∈ s.sessions := by
        rw [hat.sessions, List.mem_append, List.mem_cons]
        rw [List.mem_append] at hy
        exact hy.imp_right Or.inr
      exact (hs.1 y hy').of_commit ((hs.1 x (List.mem_of_getElem? hat.getElem?)).commit hprogram)
        (others_of_creates_alone halone hat hprogram y hy)
  · cases h with
    | start call => exact hs.2
    | @commit i before after x a hat hprogram =>
      exact hs.2.of_commit ((hs.1 x (List.mem_of_getElem? hat.getElem?)).commit hprogram)
    | roll_back _ _ => exact hs.2
    | lock _ _ _ => exact hs.2
    | execute _ _ => exact hs.2

/-- In every run whose creations commit alone, a subject has at most one pending request
for a project. -/
theorem one_pending_while_alone
    (hrun : System.Run AccessCall.perform (fun s e => creates_alone s e = true) (System.empty d) s)
    (hone : OnePending d) : OnePending s.committed := by
  have hstart : (∀ x ∈ (System.empty d : Accesses).sessions, RequestStage d x) ∧ OnePending d :=
    ⟨fun _ hx => absurd hx List.not_mem_nil, hone⟩
  exact (hrun.invariant (fun _ _ _ halone h hs => access_requests_step h halone hs) hstart).2

/-- A project that its owner has created. -/
def new_project : Database :=
  ((create_project ⟨"p", "owner", "draft"⟩ "lea" "Lea" "west" "k" 0).transact Database.empty).2

/-- A request of another subject. -/
def ask (id : String) : AccessCall :=
  .create ⟨id, "p", "west", "max", "Max", none, 1⟩

theorem new_project_one_pending : OnePending new_project := by
  rintro key other ⟨row, hrow, -⟩
  cases hrow

/-- Both requests look before either commits. -/
theorem requests_twice_pending :
    ¬ ∀ (d : Database) (s : Accesses), OnePending d →
      System.Run AccessCall.perform (fun _ _ => True) (System.empty d) s →
      OnePending s.committed := by
  intro h
  have hreplay : ∃ s ∈ System.replay AccessCall.perform (System.empty new_project)
      ([.start (ask "r1"), .start (ask "r2")] ++ List.replicate 2 (.advance 0) ++
        List.replicate 6 (.advance 1) ++ List.replicate 4 (.advance 0)),
      (s.committed.access_requests.get "r1").any (fun row => row.status = .pending &&
          row.request_key = ⟨"r1", "p", "max"⟩) = true ∧
        (s.committed.access_requests.get "r2").any (fun row => row.status = .pending &&
          row.request_key = ⟨"r2", "p", "max"⟩) = true := by decide +kernel
  obtain ⟨s, hs, hfirst, hsecond⟩ := hreplay
  have hpending {key : RequestKey} (hany : (s.committed.access_requests.get key.id).any
      (fun row => row.status = .pending && row.request_key = key) = true) :
      Pending key s.committed := by
    rw [Option.any_eq_true] at hany
    obtain ⟨row, hrow, hkey⟩ := hany
    rw [Bool.and_eq_true, decide_eq_true_eq, decide_eq_true_eq] at hkey
    exact ⟨row, (Table.get_eq_some.mp hrow).1, hkey⟩
  have hsame := h new_project s new_project_one_pending ((System.Run.refl _).of_replay hs)
    ⟨"r1", "p", "max"⟩ ⟨"r2", "p", "max"⟩ (hpending hfirst) (hpending hsecond) rfl rfl
  exact absurd hsame (by decide)

/-- The second request looks when the first one has committed. -/
theorem one_pending_while_alone_twice :
    ∃ s : Accesses, s.committed.access_requests.rows.map (·.id) = ["r1"] ∧
      OnePending s.committed := by
  have hreplay : ∃ s ∈ System.replayWhile AccessCall.perform creates_alone
      (System.empty new_project) (.start (ask "r1") :: List.replicate 6 (.advance 0) ++
        .start (ask "r2") :: List.replicate 3 (.advance 0)),
      s.committed.access_requests.rows.map (·.id) = ["r1"] ∧ s.sessions.length = 0 := by
    decide +kernel
  obtain ⟨s, hs, hrows, -⟩ := hreplay
  have hrun := (System.Run.refl _).of_replayWhile hs
  exact ⟨s, hrows, one_pending_while_alone hrun new_project_one_pending⟩

end lagraph.registry
