import LaGraph.Conversations.Records
import LaGraph.Foundation.Runs

open foundation

namespace lagraph.conversations

/-- How far a request to send a message has come. -/
inductive Phase
  /-- The request is accepted and has not read the clock. -/
  | accepted
  /-- The clock is read for the update that acquires the lease. -/
  | acquiring (now : Nat)
  /-- The lease was granted; the answer is under way. -/
  | in_flight (lease_expires_at : Nat)
  /-- The request was refused, has released its lease or is gone without doing so. -/
  | ended
  deriving DecidableEq, Repr

structure MessageRequest where
  request_id : String
  phase : Phase
  deriving DecidableEq, Repr

/-- One conversation's row, the clock, and the requests in the order of their
arrival. -/
structure Channel where
  row : ConversationRow
  now : Nat
  requests : List MessageRequest

/-- What can happen; requests are named by their position. -/
inductive ChannelEvent
  | tick (elapsed : Nat)
  | arrive (request_id : String)
  | read_clock (i : Nat)
  | acquire (i : Nat)
  | release (i : Nat)
  /-- The process goes away, or the response is dropped before it is started. -/
  | vanish (i : Nat)
  deriving DecidableEq, Repr

def Channel.put (s : Channel) (i : Nat) (request_id : String) (phase : Phase) : Channel :=
  { s with requests := s.requests.set i { request_id, phase } }

/-- The conditional update of `acquire_request`, for the clock read before it; a
request whose update changes no row is refused. -/
def Channel.acquire (lease : Nat) (s : Channel) (i : Nat) (request_id : String) (now : Nat) :
    Channel :=
  if s.row.acquirable request_id now then
    { s.put i request_id (.in_flight (now + lease)) with
      row := s.row.leased request_id (now + lease) }
  else s.put i request_id .ended

/-- The update of `release_request`. -/
def Channel.release (s : Channel) (i : Nat) (request_id : String) : Channel :=
  { s.put i request_id .ended with
    row := if s.row.active_request_id = some request_id then s.row.unleased else s.row }

/-- The event, if it can happen. -/
def Channel.step (lease : Nat) (s : Channel) : ChannelEvent → Option Channel
  | .tick elapsed => some { s with now := s.now + elapsed }
  | .arrive request_id =>
    some { s with requests := s.requests ++ [{ request_id, phase := .accepted }] }
  | .read_clock i =>
    match s.requests[i]? with
    | some ⟨request_id, .accepted⟩ => some (s.put i request_id (.acquiring s.now))
    | _ => none
  | .acquire i =>
    match s.requests[i]? with
    | some ⟨request_id, .acquiring now⟩ => some (s.acquire lease i request_id now)
    | _ => none
  | .release i =>
    match s.requests[i]? with
    | some ⟨request_id, .in_flight _⟩ => some (s.release i request_id)
    | _ => none
  | .vanish i =>
    match s.requests[i]? with
    | some ⟨request_id, _⟩ => some (s.put i request_id .ended)
    | none => none

/-- The request at `i` is in flight on a lease that is granted until a moment. -/
def Channel.InFlight (s : Channel) (i : Nat) (request_id : String) (expires_at : Nat) : Prop :=
  s.requests[i]? = some ⟨request_id, .in_flight expires_at⟩

/-- The row carries the lease of a request. -/
def ConversationRow.Carries (row : ConversationRow) (request_id : String) (expires_at : Nat) :
    Prop :=
  row.active_request_id = some request_id ∧ row.lease_expires_at = some expires_at

/-- No two requests in flight hold leases that have not expired. -/
def Channel.Exclusive (s : Channel) : Prop :=
  ∀ i j request_id other_id expires_at other_expires_at,
    s.InFlight i request_id expires_at → s.InFlight j other_id other_expires_at →
      s.now < expires_at → s.now < other_expires_at → i = j

/-- A release leaves the lease of every other request in flight in the row. -/
def FreesOwn (e : Transition Channel ChannelEvent) : Prop :=
  ∀ i, e.label = .release i → ∀ j request_id expires_at, j ≠ i →
    e.before.InFlight j request_id expires_at → e.before.row.Carries request_id expires_at →
      e.after.row.Carries request_id expires_at

/-- A request asks for the lease under an id that no other request in flight
has. -/
def AsksApart (e : Transition Channel ChannelEvent) : Prop :=
  ∀ i, e.label = .acquire i → ∀ r, e.before.requests[i]? = some r →
    ∀ j other_id expires_at, j ≠ i → e.before.InFlight j other_id expires_at →
      other_id ≠ r.request_id

/-- What holds along a run: ids in flight are apart, a lease that has not expired
is the one in the row, and clocks were read in the past. -/
structure LeaseInv (s : Channel) : Prop where
  apart : ∀ i j request_id other_id expires_at other_expires_at, i ≠ j →
    s.InFlight i request_id expires_at → s.InFlight j other_id other_expires_at →
      other_id ≠ request_id
  carried : ∀ i request_id expires_at, s.InFlight i request_id expires_at →
    s.now < expires_at → s.row.Carries request_id expires_at
  clock : ∀ (i : Nat) (r : MessageRequest) (now : Nat), s.requests[i]? = some r →
    r.phase = .acquiring now → now ≤ s.now

theorem LeaseInv.exclusive {s : Channel} (h : LeaseInv s) : s.Exclusive := by
  intro i j request_id other_id expires_at other_expires_at hi hj hnow hother
  by_contra hne
  have hcarried := h.carried i request_id expires_at hi hnow
  have hcarried' := h.carried j other_id other_expires_at hj hother
  apply h.apart i j request_id other_id expires_at other_expires_at hne hi hj
  exact Option.some.inj (hcarried'.1.symm.trans hcarried.1)

section Put

variable {s : Channel} {i j : Nat} {r : MessageRequest} {request_id other_id : String}
  {phase : Phase} {expires_at : Nat}

/-- After a request is put back, it is the one at its place, and the others are
where they were. -/
theorem put_requests (hr : s.requests[i]? = some r) (request_id : String) (phase : Phase)
    (j : Nat) :
    (s.put i request_id phase).requests[j]? =
      if i = j then some ⟨request_id, phase⟩ else s.requests[j]? := by
  have hlt : i < s.requests.length := (List.getElem?_eq_some_iff.mp hr).1
  by_cases h : i = j
  · rw [Channel.put, List.getElem?_set, if_pos h, if_pos h, if_pos (h ▸ hlt)]
  · rw [Channel.put, List.getElem?_set, if_neg h, if_neg h]

/-- A request in flight after another was put back was in flight before, unless
it is that one. -/
theorem inFlight_put (hr : s.requests[i]? = some r)
    (h : (s.put i request_id phase).InFlight j other_id expires_at) :
    (j = i ∧ other_id = request_id ∧ phase = .in_flight expires_at) ∨
      (j ≠ i ∧ s.InFlight j other_id expires_at) := by
  rw [Channel.InFlight, put_requests hr] at h
  split at h
  · rename_i hij
    simp only [Option.some.injEq, MessageRequest.mk.injEq] at h
    exact Or.inl ⟨hij.symm, h.1.symm, h.2⟩
  · rename_i hij
    exact Or.inr ⟨fun hji => hij hji.symm, h⟩

/-- A request that ends or waits keeps the invariant, as long as the row keeps the
leases of the others. -/
theorem LeaseInv.put {row : ConversationRow} (h : LeaseInv s) (hr : s.requests[i]? = some r)
    (hphase : ∀ expires_at, phase ≠ .in_flight expires_at)
    (hclock : ∀ now, phase = .acquiring now → now ≤ s.now)
    (hrow : ∀ j other_id expires_at, j ≠ i → s.InFlight j other_id expires_at →
      s.row.Carries other_id expires_at → row.Carries other_id expires_at) :
    LeaseInv { s.put i request_id phase with row := row } where
  apart := by
    intro j k id_j id_k e_j e_k hne hj hk
    rcases inFlight_put hr hj with ⟨-, -, hbad⟩ | ⟨-, hj⟩
    · exact absurd hbad (hphase e_j)
    · rcases inFlight_put hr hk with ⟨-, -, hbad⟩ | ⟨-, hk⟩
      · exact absurd hbad (hphase e_k)
      · exact h.apart j k id_j id_k e_j e_k hne hj hk
  carried := by
    intro j id_j e_j hj hnow
    rcases inFlight_put hr hj with ⟨-, -, hbad⟩ | ⟨hne, hj⟩
    · exact absurd hbad (hphase e_j)
    · exact hrow j id_j e_j hne hj (h.carried j id_j e_j hj hnow)
  clock := by
    intro j other now hj hother
    have hrequests := put_requests hr request_id phase j
    rw [hrequests] at hj
    split at hj
    · cases hj
      exact hclock now hother
    · exact h.clock j other now hj hother

/-- A lease that has not expired keeps every other id from acquiring. -/
theorem not_acquirable {row : ConversationRow} {now current : Nat}
    (hcarries : row.Carries other_id expires_at) (hclock : now ≤ current)
    (hunexpired : current < expires_at) (hne : other_id ≠ request_id) :
    row.acquirable request_id now = false := by
  have hnow : ¬ expires_at ≤ now := by omega
  simp [ConversationRow.acquirable, hcarries.1, hcarries.2, hnow, hne]

end Put

/-- What the events do to the invariant. -/
theorem LeaseInv.step {lease : Nat} {s s' : Channel} {e : ChannelEvent} (h : LeaseInv s)
    (hstep : s.step lease e = some s') (happart : AsksApart ⟨s, e, s'⟩) : LeaseInv s' := by
  cases e with
  | tick elapsed =>
    cases hstep
    refine ⟨h.apart, fun i request_id expires_at hi hnow => ?_, fun i r now hr hphase => ?_⟩
    · simp only at hnow
      exact h.carried i request_id expires_at hi (by omega)
    · have hread := h.clock i r now hr hphase
      simp only
      omega
  | arrive request_id =>
    cases hstep
    have hold : ∀ {j : Nat} {r : MessageRequest}, r.phase ≠ .accepted →
        (s.requests ++ [⟨request_id, .accepted⟩])[j]? = some r → s.requests[j]? = some r := by
      intro j r hphase hj
      rw [List.getElem?_append] at hj
      split at hj
      · exact hj
      · obtain ⟨hlt, hget⟩ := List.getElem?_eq_some_iff.mp hj
        simp only [List.getElem_singleton] at hget
        rw [← hget] at hphase
        exact absurd rfl hphase
    refine ⟨fun i j id_i id_j e_i e_j hne hi hj => ?_, fun i id_i e_i hi hnow => ?_,
      fun i r now hr hphase => ?_⟩
    · exact h.apart i j id_i id_j e_i e_j hne (hold (by simp) hi) (hold (by simp) hj)
    · exact h.carried i id_i e_i (hold (by simp) hi) hnow
    · exact h.clock i r now (hold (by simp [hphase]) hr) hphase
  | read_clock i =>
    simp only [Channel.step] at hstep
    split at hstep
    · rename_i request_id hr
      cases hstep
      refine h.put hr (fun _ hbad => by cases hbad) (fun now hnow => ?_) fun _ _ _ _ _ hc => hc
      cases hnow
      exact Nat.le_refl _
    · cases hstep
  | acquire i =>
    simp only [Channel.step] at hstep
    split at hstep
    · rename_i request_id now hr
      cases hstep
      unfold Channel.acquire
      split
      · rename_i hacquirable
        have hothers : ∀ j other_id expires_at, j ≠ i → s.InFlight j other_id expires_at →
            ¬ s.now < expires_at := by
          intro j other_id expires_at hne hj hunexpired
          have hcarries := h.carried j other_id expires_at hj hunexpired
          have hfalse := not_acquirable hcarries (h.clock i _ now hr rfl) hunexpired
            (happart i rfl _ hr j other_id expires_at hne hj)
          rw [hfalse] at hacquirable
          cases hacquirable
        have hapart : ∀ j other_id expires_at, j ≠ i → s.InFlight j other_id expires_at →
            other_id ≠ request_id := happart i rfl _ hr
        refine ⟨fun j k id_j id_k e_j e_k hne hj hk => ?_, fun j id_j e_j hj hnow => ?_,
          fun j other t hj hother => ?_⟩
        · rcases inFlight_put hr hj with ⟨hji, hid, -⟩ | ⟨hji, hj⟩
          · rcases inFlight_put hr hk with ⟨hki, -, -⟩ | ⟨hki, hk⟩
            · exact absurd (hji.trans hki.symm) hne
            · rw [hid]
              exact hapart k id_k e_k hki hk
          · rcases inFlight_put hr hk with ⟨-, hid, -⟩ | ⟨-, hk⟩
            · rw [hid]
              exact (hapart j id_j e_j hji hj).symm
            · exact h.apart j k id_j id_k e_j e_k hne hj hk
        · rcases inFlight_put hr hj with ⟨-, hid, hgranted⟩ | ⟨hji, hj⟩
          · cases hgranted
            rw [hid]
            exact ⟨rfl, rfl⟩
          · exact absurd hnow (hothers j id_j e_j hji hj)
        · have hrequests := put_requests hr request_id (.in_flight (now + lease)) j
          rw [hrequests] at hj
          split at hj
          · cases hj
            cases hother
          · exact h.clock j other t hj hother
      · exact h.put hr (fun _ hbad => by cases hbad) (fun _ hbad => by cases hbad)
          fun _ _ _ _ _ hc => hc
    · cases hstep
  | release i =>
    simp only [Channel.step] at hstep
    split at hstep
    · rename_i request_id granted hr
      cases hstep
      refine h.put hr (fun _ hbad => by cases hbad) (fun _ hbad => by cases hbad) ?_
      intro j other_id expires_at hne hj hcarries
      have hapart := h.apart i j request_id other_id granted expires_at hne.symm hr hj
      rw [if_neg fun hsame => hapart (Option.some.inj (hcarries.1.symm.trans hsame))]
      exact hcarries
    · cases hstep
  | vanish i =>
    simp only [Channel.step] at hstep
    split at hstep
    · rename_i request_id phase hr
      cases hstep
      exact h.put hr (fun _ hbad => by cases hbad) (fun _ hbad => by cases hbad)
        fun _ _ _ _ _ hc => hc
    · cases hstep

/-- Ids that are apart keep a release from touching another request's lease. -/
theorem LeaseInv.frees_own {lease : Nat} {s s' : Channel} {e : ChannelEvent} (h : LeaseInv s)
    (hstep : s.step lease e = some s') : FreesOwn ⟨s, e, s'⟩ := by
  intro i hi j other_id expires_at hne hj hcarries
  simp only at hi hj hcarries ⊢
  rw [hi, Channel.step] at hstep
  split at hstep
  · rename_i request_id granted hr
    cases hstep
    have hapart := h.apart i j request_id other_id granted expires_at hne.symm hr hj
    simp only [Channel.release]
    rw [if_neg fun hsame => hapart (Option.some.inj (hcarries.1.symm.trans hsame))]
    exact hcarries
  · cases hstep

/-- The lease is exclusive, and released by its holder only, in every run whose
requests ask for it under ids apart from those in flight. -/
theorem leases_exclusive {lease : Nat} {s s' : Channel}
    {trace : List (Transition Channel ChannelEvent)} (hstart : s.requests = [])
    (hrun : Run (fun a e b => a.step lease e = some b) s trace s')
    (happart : ∀ e ∈ trace, AsksApart e) :
    s'.Exclusive ∧ ∀ e ∈ trace, e.before.Exclusive ∧ FreesOwn e := by
  have hnone : ∀ {i : Nat} {r : MessageRequest}, s.requests[i]? ≠ some r := by
    intro i r
    simp [hstart]
  have hinv : LeaseInv s :=
    ⟨fun _ _ _ _ _ _ _ hi => absurd hi hnone, fun _ _ _ hi => absurd hi hnone,
      fun _ _ _ hr => absurd hr hnone⟩
  obtain ⟨hend, hall⟩ := hrun.invariant hinv happart fun _ _ _ hstep hc hi => hi.step hstep hc
  refine ⟨hend.exclusive, fun e he => ?_⟩
  obtain ⟨hbefore, hstep⟩ := hall e he
  exact ⟨hbefore.exclusive, hbefore.frees_own hstep⟩

/-- A conversation nobody has asked anything in. -/
def idle_channel : Channel where
  row :=
    { id := "c", project_id := "p", graph_version := none, created_by := "u", name := none,
      created_at := 0, updated_at := 0, archived_at := none, active_request_id := none,
      lease_expires_at := none }
  now := 0
  requests := []

/-- Two messages sent under the ids given; the first answer ends. -/
def two_messages (first second : String) : List ChannelEvent :=
  [.arrive first, .read_clock 0, .acquire 0, .arrive second, .read_clock 1, .acquire 1,
    .release 0]

/-- Two clients that send the same request id are both answered at once, and the
first to end frees the lease of the other. -/
theorem shared_id_frees_lease :
    ∃ trace s', Run (fun a e b => Channel.step 120 a e = some b) idle_channel trace s' ∧
      ∃ e ∈ trace, ¬ e.before.Exclusive ∧ ¬ FreesOwn e := by
  refine ⟨_, _, @Run.of_follow _ _ _ _ _ _ (two_messages "r" "r") rfl, _,
    @List.mem_of_getElem? _ _ 6 _ rfl, fun h => ?_, fun h => ?_⟩
  · have hsame := h 0 1 "r" "r" 120 120 rfl rfl (by decide) (by decide)
    omega
  · have hfreed := h 0 rfl 1 "r" 120 (by decide) rfl ⟨rfl, rfl⟩
    cases hfreed.1

/-- A check of the ids in flight when a request asks. -/
def Channel.admits (s : Channel) : ChannelEvent → Bool
  | .acquire i =>
    s.requests[i]?.all fun r => s.requests.zipIdx.all fun x =>
      match x.1.phase with
      | .in_flight _ => x.2 = i ∨ x.1.request_id ≠ r.request_id
      | _ => true
  | _ => true

theorem asksApart_of_admits {e : Transition Channel ChannelEvent}
    (h : e.before.admits e.label = true) : AsksApart e := by
  intro i hi r hr j other_id expires_at hne hj
  rw [hi, Channel.admits, hr, Option.all_some, List.all_eq_true] at h
  have hcheck := h (⟨other_id, .in_flight expires_at⟩, j)
    (List.mem_zipIdx_iff_getElem?.mpr hj)
  simp only [decide_eq_true_eq] at hcheck
  exact hcheck.resolve_left hne

/-- Two messages under ids of their own: the second is refused. -/
theorem leases_exclusive_two :
    ∃ trace s', Run (fun a e b => Channel.step 120 a e = some b) idle_channel trace s' ∧
      s'.Exclusive ∧ ∀ e ∈ trace, e.before.Exclusive ∧ FreesOwn e := by
  have hrun := @Run.of_follow Channel ChannelEvent idle_channel _ _ (Channel.step 120)
    [.arrive "a", .read_clock 0, .acquire 0, .arrive "b", .read_clock 1, .acquire 1] rfl
  refine ⟨_, _, hrun, leases_exclusive rfl hrun fun e he => asksApart_of_admits ?_⟩
  revert e
  decide

end lagraph.conversations
