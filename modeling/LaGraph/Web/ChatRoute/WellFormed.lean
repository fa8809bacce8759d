import LaGraph.Web.ChatRoute.Emitted
import LaGraph.Web.ChatRoute.Frames

open foundation

namespace lagraph.web

variable {upstream : Upstream} {bytes : Sent → List UInt8} {sent : List Sent}
  {rules : agent.TextRules} {ids : agent.StreamIds} {run : agent.GraphRun} {count : Nat}
  {failure : Option agent.StreamFailure} {event : agent.LifecycleEvent}
  {events : List agent.LifecycleEvent} {ending : Ending}

/-- Events of one run that arrive in order, and what `JSON.parse` makes of them. -/
structure Arrival (upstream : Upstream) (ids : agent.StreamIds) (answer : agent.Answer)
    (events : List agent.LifecycleEvent) : Prop where
  emits : ∀ event ∈ events, Emits ids answer event
  sorted : events.Pairwise fun a b => rank a.type ≤ rank b.type
  json : ∀ event ∈ events, upstream.parse (upstream.json event) = some event ∨
    event.type = .message_completed ∧ upstream.parse (upstream.json event) = none

theorem arrival (hsent : sent.flatMap Sent.events = agent.emitted rules ids run count failure)
    (hcarries : upstream.Carries bytes sent) (n : Nat) :
    Arrival upstream ids run.answer (arrived bytes sent n) := by
  have hstart := @arrived_initial bytes sent n
  constructor
  case emits =>
    intro event hevent
    have hemitted := hstart.subset hevent
    rw [hsent] at hemitted
    exact emitted_emits hemitted
  case sorted =>
    rw [hsent] at hstart
    exact emitted_sorted.sublist hstart.sublist
  case json =>
    intro event hevent
    obtain ⟨item, hitem, hmem⟩ := List.mem_flatMap.mp (hstart.subset hevent)
    exact hcarries.json item hitem event hmem

section Parsed

variable {answer : agent.Answer} {parsed : StreamEvent}

/-- What passes has passed the schema. -/
theorem Arrival.schema_of_parsed (h : Arrival upstream ids answer events)
    (hevent : event ∈ events) (hparsed : upstream.parsed event = some parsed) :
    stream_event_schema event = some parsed := by
  rcases h.json event hevent with hjson | ⟨-, hjson⟩
  · rwa [Upstream.parsed, hjson] at hparsed
  · rw [Upstream.parsed, hjson] at hparsed
    cases hparsed

theorem Arrival.type_eq (h : Arrival upstream ids answer events) (hevent : event ∈ events)
    (hparsed : upstream.parsed event = some parsed) : parsed.type = event.type :=
  type_of_stream_event_schema (h.schema_of_parsed hevent hparsed)

theorem Arrival.parsed_eq (h : Arrival upstream ids answer events) (hevent : event ∈ events)
    (htype : event.type ≠ .message_completed) :
    upstream.parsed event = stream_event_schema event := by
  rcases h.json event hevent with hjson | ⟨hcompleted, -⟩
  · rw [Upstream.parsed, hjson, Option.bind_some]
  · exact absurd hcompleted htype

/-- Only a citation or a result may not pass. -/
theorem Arrival.type_of_parsed_none (h : Arrival upstream ids answer events)
    (hevent : event ∈ events) (hnone : upstream.parsed event = none) :
    event.type = .citation_available ∨ event.type = .message_completed := by
  by_contra hnot
  rw [not_or] at hnot
  rw [h.parsed_eq hevent hnot.2] at hnone
  cases h.emits event hevent with
  | quiet _ _ _ hschema =>
    rw [hnone] at hschema
    cases hschema
  | delta delta => cases hnone
  | citation citation => exact hnot.1 rfl
  | completed => exact hnot.2 rfl
  | failed failure => cases hnone

/-- Every delta passes. -/
theorem Arrival.delta_iff (h : Arrival upstream ids answer events) (hevent : event ∈ events) :
    event.type = .answer_delta ↔ ∃ delta, upstream.parsed event = some (.answer_delta delta) := by
  constructor
  · intro htype
    have hparsed := h.parsed_eq hevent (by rw [htype]; decide)
    cases h.emits event hevent with
    | quiet _ hrank _ _ =>
      rw [htype] at hrank
      cases hrank
    | delta delta => exact ⟨delta, hparsed⟩
    | citation citation => cases htype
    | completed => cases htype
    | failed failure => cases htype
  · rintro ⟨delta, hparsed⟩
    exact (h.type_eq hevent hparsed).symm

/-- Only deltas carry text. -/
theorem Arrival.parsed_delta (h : Arrival upstream ids answer events) (hevent : event ∈ events) :
    (upstream.parsed event).bind StreamEvent.delta = event.delta := by
  have hother (hnot : event.type ≠ .answer_delta) :
      (upstream.parsed event).bind StreamEvent.delta = none := by
    cases hparsed : upstream.parsed event with
    | none => rfl
    | some parsed =>
      have htype := h.type_eq hevent hparsed
      cases parsed with
      | answer_delta delta => exact absurd htype.symm hnot
      | _ => rfl
  cases h.emits event hevent with
  | quiet _ hrank hdelta _ =>
    rw [hdelta]
    apply hother
    intro htype
    rw [htype] at hrank
    cases hrank
  | delta delta =>
    rw [h.parsed_eq hevent nofun]
    rfl
  | citation citation => exact hother nofun
  | completed => exact hother nofun
  | failed failure => exact hother nofun

end Parsed

section Frames

variable {answer : agent.Answer}

/-- The frames of the events that arrived, and of how the stream ended. -/
def response (upstream : Upstream) (events : List agent.LifecycleEvent) (ending : Ending) :
    List Frame :=
  (on_events upstream false (events.map upstream.json)).2 ++ ending.frames

theorem countP_response : (response upstream events ending).countP Frame.is_text_start ≤ 1 := by
  have hstarts := @countP_on_events_start upstream events false
  rw [response, List.countP_append]
  cases ending <;> exact hstarts

theorem response_done : ∃ before, response upstream events ending = before ++ [.done] ∧
    .done ∉ before := by
  have hnot := @done_not_mem upstream events false
  cases ending with
  | done => exact ⟨_, rfl, hnot⟩
  | interrupted =>
    refine ⟨_, (List.append_assoc _ [_] [_]).symm, ?_⟩
    rw [List.mem_append, not_or]
    exact ⟨hnot, by simp⟩

theorem Arrival.response_text (h : Arrival upstream ids answer events) :
    (response upstream events ending).filterMap Frame.delta = events.filterMap (·.delta) := by
  have hending : ending.frames.filterMap Frame.delta = [] := by cases ending <;> rfl
  rw [response, List.filterMap_append, hending, List.append_nil, filterMap_on_events]
  exact List.filterMap_congr fun event hevent => h.parsed_delta hevent

/-- Without a delta there is no text part. -/
theorem Arrival.start_not_mem (h : Arrival upstream ids answer events)
    (hnone : ∀ event ∈ events, event.type ≠ .answer_delta) :
    Frame.text_start ∉ response upstream events ending := by
  rw [response, List.mem_append, not_or]
  refine ⟨?_, by cases ending <;> simp [Ending.frames]⟩
  rw [mem_on_events_start]
  rintro ⟨-, event, hevent, hdelta⟩
  exact hnone event hevent ((h.delta_iff hevent).mpr hdelta)

theorem Arrival.wellFormed_of_no_delta (h : Arrival upstream ids answer events)
    (hnone : ∀ event ∈ events, event.type ≠ .answer_delta) :
    WellFormed (events.filterMap (·.delta)) (response upstream events ending) := by
  have hstart := @Arrival.start_not_mem _ _ _ ending _ h hnone
  constructor
  case one_start => exact countP_response
  case inside =>
    intro before delta after heq
    have hmem : delta ∈ (response upstream events ending).filterMap Frame.delta := by
      rw [heq, List.filterMap_append, List.mem_append]
      exact Or.inr List.mem_cons_self
    rw [h.response_text, List.mem_filterMap] at hmem
    obtain ⟨event, hevent, hdelta⟩ := hmem
    rw [← h.parsed_delta hevent, Option.bind_eq_some_iff] at hdelta
    obtain ⟨parsed, hparsed, hdelta⟩ := hdelta
    cases parsed <;> cases hdelta
    exact absurd ((h.delta_iff hevent).mpr ⟨_, hparsed⟩) (hnone event hevent)
  case closed =>
    intro before frame after heq _ hmem
    apply absurd _ hstart
    rw [heq]
    exact List.mem_append_left _ hmem
  case done => exact response_done
  case text => rw [h.response_text]

theorem Arrival.append_left {later : List agent.LifecycleEvent}
    (h : Arrival upstream ids answer (events ++ later)) : Arrival upstream ids answer events where
  emits := fun event hevent => h.emits event (List.mem_append_left _ hevent)
  sorted := (List.pairwise_append.mp h.sorted).1
  json := fun event hevent => h.json event (List.mem_append_left _ hevent)

variable {earlier later : List agent.LifecycleEvent} {other : agent.LifecycleEvent}

/-- What comes earlier in a stream arrives earlier. -/
theorem Arrival.mem_earlier (h : Arrival upstream ids answer (earlier ++ event :: later))
    (hother : other ∈ earlier ++ event :: later) (hrank : rank other.type < rank event.type) :
    other ∈ earlier := by
  obtain ⟨-, hsorted, -⟩ := List.pairwise_append.mp h.sorted
  rcases List.mem_append.mp hother with hearlier | hrest
  · exact hearlier
  · cases List.mem_cons.mp hrest with
    | inl heq =>
      rw [heq] at hrank
      exact absurd hrank (Nat.lt_irrefl _)
    | inr hlater =>
      have hle := (List.pairwise_cons.mp hsorted).1 other hlater
      omega

theorem Arrival.mem_later (h : Arrival upstream ids answer (earlier ++ event :: later))
    (hother : other ∈ earlier ++ event :: later) (hrank : rank event.type < rank other.type) :
    other ∈ later := by
  obtain ⟨-, -, hcross⟩ := List.pairwise_append.mp h.sorted
  rcases List.mem_append.mp hother with hearlier | hrest
  · have hle := hcross other hearlier event List.mem_cons_self
    omega
  · cases List.mem_cons.mp hrest with
    | inl heq =>
      rw [heq] at hrank
      exact absurd hrank (Nat.lt_irrefl _)
    | inr hlater => exact hlater

/-- A result that passes has the parsed form of a result. -/
theorem Arrival.parsed_result (h : Arrival upstream ids answer events) (hevent : event ∈ events)
    (htype : event.type = .message_completed) (hsome : (upstream.parsed event).isSome) :
    ∃ result, upstream.parsed event = some (.message_completed result) := by
  obtain ⟨parsed, hparsed⟩ := Option.isSome_iff_exists.mp hsome
  have hsame := h.type_eq hevent hparsed
  rw [htype] at hsame
  cases parsed with
  | message_completed result => exact ⟨result, hparsed⟩
  | _ => cases hsame

variable {delta result : agent.LifecycleEvent}

/-- A result that passes, behind a delta, ends the text part. -/
theorem Arrival.end_mem (h : Arrival upstream ids answer events)
    (hdelta : delta ∈ events) (hdelta_type : delta.type = .answer_delta)
    (hresult : result ∈ events) (hresult_type : result.type = .message_completed)
    (hsome : (upstream.parsed result).isSome) :
    Frame.text_end ∈ (on_events upstream false (events.map upstream.json)).2 := by
  obtain ⟨found, hfound⟩ := h.parsed_result hresult hresult_type hsome
  obtain ⟨earlier, later, rfl⟩ := List.append_of_mem hresult
  have hearlier := h.mem_earlier hdelta (by rw [hdelta_type, hresult_type]; decide)
  have hopen : (on_events upstream false (earlier.map upstream.json)).1 = true := by
    rw [on_events_open]
    exact Or.inr ⟨delta, hearlier, (h.append_left.delta_iff hearlier).mp hdelta_type⟩
  have hend := mem_on_events_end (List.mem_cons_self (l := later)) hfound
  rw [List.map_append, on_events_append, hopen]
  exact List.mem_append_right _ hend

/-- A text part that is started has a delta before it. -/
theorem Arrival.delta_of_start (h : Arrival upstream ids answer events)
    (hstart : Frame.text_start ∈ (on_events upstream false (events.map upstream.json)).2) :
    ∃ delta ∈ events, delta.type = .answer_delta := by
  obtain ⟨-, delta, hdelta, hparsed⟩ := mem_on_events_start.mp hstart
  exact ⟨delta, hdelta, (h.delta_iff hdelta).mpr hparsed⟩

/-- A text delta stands in the text part. -/
theorem Arrival.delta_inside (h : Arrival upstream ids answer events)
    (hresult : result ∈ events) (hresult_type : result.type = .message_completed)
    (hsome : (upstream.parsed result).isSome) {before rest : List Frame} {text : String}
    (hframes : (on_events upstream false (events.map upstream.json)).2 =
      before ++ .text_delta text :: rest) :
    .text_start ∈ before ∧ .text_end ∉ before ∧ .text_end ∈ rest := by
  obtain ⟨earlier, event, later, pre, post, rfl, rfl, hpushed, rfl⟩ := split_on_events hframes
  obtain ⟨hparsed, rfl⟩ := on_event_delta hpushed
  have hmem : event ∈ earlier ++ event :: later := List.mem_append_right _ List.mem_cons_self
  have htype := (h.delta_iff hmem).mpr ⟨text, hparsed⟩
  refine ⟨?_, ?_, ?_⟩
  · rw [List.mem_append]
    cases hopen : (on_events upstream false (earlier.map upstream.json)).1 with
    | false => exact Or.inr List.mem_cons_self
    | true =>
      rw [mem_on_events_start]
      have hstarted := on_events_open.mp hopen
      simpa using hstarted
  · rw [List.mem_append, not_or]
    refine ⟨?_, by split <;> simp⟩
    intro hend
    obtain ⟨found, hfound, answer', hcompleted⟩ := completed_of_mem_end hend
    have hrank := (List.pairwise_append.mp h.sorted).2.2 found hfound event List.mem_cons_self
    rw [htype, ← h.append_left.type_eq hfound hcompleted, StreamEvent.type] at hrank
    exact absurd hrank (by decide)
  · obtain ⟨found, hfound⟩ := h.parsed_result hresult hresult_type hsome
    have hlater := h.mem_later hresult (by rw [htype, hresult_type]; decide)
    rw [on_event_json, hparsed]
    exact List.mem_append_right _ (mem_on_events_end hlater hfound)

/-- A terminal frame that is pushed for an event stands outside of the text part. -/
theorem Arrival.terminal_outside (h : Arrival upstream ids answer events)
    (hresult : result ∈ events) (hresult_type : result.type = .message_completed)
    (hall : ∀ event ∈ events, (upstream.parsed event).isSome) {before rest : List Frame}
    {frame : Frame} (hframes : (on_events upstream false (events.map upstream.json)).2 =
      before ++ frame :: rest) (hterminal : frame.is_terminal = true)
    (hstart : .text_start ∈ before) : .text_end ∈ before := by
  obtain ⟨earlier, event, later, pre, post, rfl, rfl, hpushed, rfl⟩ := split_on_events hframes
  have hmem : event ∈ earlier ++ event :: later := List.mem_append_right _ List.mem_cons_self
  rcases on_event_terminal hpushed hterminal (hall event hmem) with
    ⟨found, -, rfl⟩ | ⟨error, hparsed, rfl⟩
  · have hstarted : Frame.text_start ∈
        (on_events upstream false (earlier.map upstream.json)).2 := by
      rcases List.mem_append.mp hstart with hstarted | hpre
      · exact hstarted
      · split at hpre <;> simp at hpre
    have hopen : (on_events upstream false (earlier.map upstream.json)).1 = true :=
      on_events_open.mpr (Or.inr (mem_on_events_start.mp hstarted).2)
    simp [hopen]
  · have hstarted : Frame.text_start ∈
        (on_events upstream false (earlier.map upstream.json)).2 := by
      rcases List.mem_append.mp hstart with hstarted | hpre
      · exact hstarted
      · simp at hpre
    obtain ⟨delta, hdelta, hdelta_type⟩ := h.append_left.delta_of_start hstarted
    have htype := h.type_eq hmem hparsed
    have hearlier := h.mem_earlier hresult (by rw [hresult_type, ← htype, StreamEvent.type]; decide)
    have hend := h.append_left.end_mem hdelta hdelta_type hearlier hresult_type
      (hall result hresult)
    exact List.mem_append_left _ hend

theorem Arrival.wellFormed_of_result (h : Arrival upstream ids answer events)
    (hresult : result ∈ events) (hresult_type : result.type = .message_completed)
    (hall : ∀ event ∈ events, (upstream.parsed event).isSome) :
    WellFormed (events.filterMap (·.delta)) (response upstream events ending) := by
  constructor
  case one_start => exact countP_response
  case inside =>
    intro before text after heq
    rcases place_of_append heq with ⟨rest, hframes, rfl⟩ | ⟨pre, -, hending⟩
    · obtain ⟨hstart, hnot, hend⟩ :=
        h.delta_inside hresult hresult_type (hall result hresult) hframes
      exact ⟨hstart, hnot, List.mem_append_left _ hend⟩
    · have hmem : Frame.text_delta text ∈ ending.frames := by
        rw [hending]
        exact List.mem_append_right _ List.mem_cons_self
      cases ending <;> simp [Ending.frames] at hmem
  case closed =>
    intro before frame after heq hterminal hstart
    rcases place_of_append heq with ⟨rest, hframes, -⟩ | ⟨pre, rfl, hending⟩
    · exact h.terminal_outside hresult hresult_type hall hframes hterminal hstart
    · have hstarted : Frame.text_start ∈
          (on_events upstream false (events.map upstream.json)).2 := by
        rcases List.mem_append.mp hstart with hstarted | hpre
        · exact hstarted
        · have hmem : Frame.text_start ∈ ending.frames := by
            rw [hending]
            exact List.mem_append_left _ hpre
          cases ending <;> simp [Ending.frames] at hmem
      obtain ⟨delta, hdelta, hdelta_type⟩ := h.delta_of_start hstarted
      exact List.mem_append_left _
        (h.end_mem hdelta hdelta_type hresult hresult_type (hall result hresult))
  case done => exact response_done
  case text => rw [h.response_text]

/-- The text part is started by a delta that arrives. -/
theorem Arrival.start_of_delta (h : Arrival upstream ids answer events)
    (hdelta : delta ∈ events) (hdelta_type : delta.type = .answer_delta) :
    Frame.text_start ∈ (on_events upstream false (events.map upstream.json)).2 :=
  mem_on_events_start.mpr ⟨rfl, delta, hdelta, (h.delta_iff hdelta).mp hdelta_type⟩

/-- There is one result. -/
theorem Arrival.result_eq (h : Arrival upstream ids answer events)
    (hevent : event ∈ events) (htype : event.type = .message_completed)
    (hresult : result ∈ events) (hresult_type : result.type = .message_completed) :
    event = result := by
  have hsame : ∀ found ∈ events, found.type = .message_completed →
      found = { ids.event .message_completed with result := some answer } := by
    intro found hfound hcompleted
    cases h.emits found hfound with
    | quiet _ hrank _ _ =>
      rw [hcompleted] at hrank
      cases hrank
    | delta delta => cases hcompleted
    | citation citation => cases hcompleted
    | completed => rfl
    | failed failure => cases hcompleted
  rw [hsame event hevent htype, hsame result hresult hresult_type]

/-- A text part is closed in time only if the result arrives and every event passes. -/
theorem Arrival.result_of_wellFormed (h : Arrival upstream ids answer events)
    (hdelta : delta ∈ events) (hdelta_type : delta.type = .answer_delta)
    (hformed : WellFormed (events.filterMap (·.delta)) (response upstream events ending)) :
    (∃ event ∈ events, event.type = .message_completed) ∧
      ∀ event ∈ events, (upstream.parsed event).isSome := by
  have hstart := h.start_of_delta hdelta hdelta_type
  constructor
  · obtain ⟨before, heq, -⟩ := hformed.done
    have hbefore : Frame.text_start ∈ before := by
      have hmem : Frame.text_start ∈ response upstream events ending :=
        List.mem_append_left _ hstart
      rw [heq] at hmem
      simpa using hmem
    have hend := hformed.closed before .done [] heq rfl hbefore
    have hmem : Frame.text_end ∈ response upstream events ending := by
      rw [heq]
      exact List.mem_append_left _ hend
    rcases List.mem_append.mp hmem with hpushed | hending
    · obtain ⟨event, hevent, result, hparsed⟩ := completed_of_mem_end hpushed
      exact ⟨event, hevent, (h.type_eq hevent hparsed).symm⟩
    · cases ending <;> simp [Ending.frames] at hending
  · intro event hevent
    by_contra hnot
    rw [Bool.not_eq_true, Option.isSome_eq_false_iff, Option.isNone_iff_eq_none] at hnot
    have htype := h.type_of_parsed_none hevent hnot
    obtain ⟨earlier, later, rfl⟩ := List.append_of_mem hevent
    have hearlier := h.mem_earlier hdelta (by
      rcases htype with htype | htype <;> rw [hdelta_type, htype] <;> decide)
    have hsplit : response upstream (earlier ++ event :: later) ending =
        (on_events upstream false (earlier.map upstream.json)).2 ++
          .error "The response stream could not be validated." ::
            ((on_events upstream (on_events upstream false (earlier.map upstream.json)).1
              (later.map upstream.json)).2 ++ ending.frames) := by
      rw [response, List.map_append, on_events_append, on_events_cons, on_event_json, hnot]
      simp only [List.append_assoc, List.cons_append, List.nil_append]
    have hend := hformed.closed _ _ _ hsplit rfl
      (h.append_left.start_of_delta hearlier hdelta_type)
    obtain ⟨found, hfound, result, hparsed⟩ := completed_of_mem_end hend
    have hcompleted := (h.append_left.type_eq hfound hparsed).symm
    have hmem : found ∈ earlier ++ event :: later := List.mem_append_left _ hfound
    rcases htype with htype | htype
    · have hrank := (List.pairwise_append.mp h.sorted).2.2 found hfound event
        List.mem_cons_self
      rw [htype, hcompleted, StreamEvent.type] at hrank
      exact absurd hrank (by decide)
    · rw [h.result_eq hevent htype hmem hcompleted, hparsed] at hnot
      cases hnot

end Frames

/-- The frames of a stream are well formed if and only if no delta arrives, or the result
arrives and every event that arrives passes the schema. -/
theorem frames_wellFormed_iff
    (hsent : sent.flatMap Sent.events = agent.emitted rules ids run count failure)
    (hcarries : upstream.Carries bytes sent) {chunks : List (List UInt8)}
    (hchunks : chunks.flatten <+: sent.flatMap bytes) (ending : Ending) :
    let events := arrived bytes sent chunks.flatten.length
    WellFormed (events.filterMap (·.delta)) (frames upstream chunks ending) ↔
      (∀ event ∈ events, event.type ≠ .answer_delta) ∨
        (∃ event ∈ events, event.type = .message_completed) ∧
          ∀ event ∈ events, (upstream.parsed event).isSome := by
  intro events
  have h : Arrival upstream ids run.answer events := arrival hsent hcarries _
  rw [frames_eq hcarries hchunks ending]
  constructor
  · intro hformed
    by_cases hnone : ∀ event ∈ events, event.type ≠ .answer_delta
    · exact Or.inl hnone
    · simp only [not_forall, not_not] at hnone
      obtain ⟨delta, hdelta, htype⟩ := hnone
      exact Or.inr (h.result_of_wellFormed hdelta htype hformed)
  · rintro (hnone | ⟨⟨result, hresult, htype⟩, hall⟩)
    · exact h.wellFormed_of_no_delta hnone
    · exact h.wellFormed_of_result hresult htype hall

section Interrupted

def broken_ids : agent.StreamIds := ⟨"r", "c", "m", "t", "2026-08-04T00:00:00Z"⟩

def greeting : agent.Answer where
  answer := "Hola"
  response_type := .clarification
  confidence := .insufficient
  graph_version := none
  citations := []
  graph_evidence := .empty
  warnings := []

def broken_run : agent.GraphRun := .clarification greeting

def started_event : agent.LifecycleEvent :=
  { broken_ids.event .message_started with message_id := some "m" }

def delta_event : agent.LifecycleEvent :=
  { broken_ids.event .answer_delta with delta := some "Hola" }

def started_json : String :=
  "\x7b\"type\":\"message.started\",\"requestId\":\"r\",\"conversationId\":\"c\"," ++
    "\"timestamp\":\"2026-08-04T00:00:00Z\",\"messageId\":\"m\"\x7d"

def delta_json : String :=
  "\x7b\"type\":\"answer.delta\",\"requestId\":\"r\",\"conversationId\":\"c\"," ++
    "\"timestamp\":\"2026-08-04T00:00:00Z\",\"delta\":\"Hola\"\x7d"

def ascii (text : String) : List UInt8 :=
  text.toList.map fun c => UInt8.ofNat c.toNat

/-- A message ends at its blank line; `buffer` holds its bytes so far, the last one first. -/
def message_step (buffer : List UInt8) (byte : UInt8) : List UInt8 × Option String :=
  if byte = 10 ∧ buffer.take 3 = [13, 10, 13] then
    ([], some (String.ofList ((buffer.drop 3).reverse.map
      (fun b => Char.ofNat b.toNat) |>.dropWhile (· ≠ '\x7b'))))
  else (byte :: buffer, none)

def broken_upstream : Upstream where
  json := fun event => if event.type = .answer_delta then delta_json else started_json
  parser := transducers.ofStep [] message_step
  parse := fun data =>
    if data = delta_json then some delta_event
    else if data = started_json then some started_event else none

def message_bytes : Sent → List UInt8
  | .message event =>
    ascii ("event: " ++ event.type.name ++ "\r\ndata: " ++ broken_upstream.json event ++ "\r\n\r\n")
  | .comment text => ascii (": " ++ text ++ "\r\n\r\n")

def broken_sent : List Sent := [.message started_event, .message delta_event]

theorem broken_messages : ∀ event ∈ [started_event, delta_event],
    transducers.steps message_step [] (message_bytes (.message event)) =
        ([], [broken_upstream.json event]) ∧
      (transducers.steps message_step [] (message_bytes (.message event)).dropLast).2 = [] := by
  decide +kernel

theorem broken_carries : broken_upstream.Carries message_bytes broken_sent where
  seamless := transducers.ofStep_seamless _ _
  reads := by
    refine ⟨fun buffer => buffer = ([] : List UInt8), rfl, ?_⟩
    have hreads (event : agent.LifecycleEvent) (hevent : event ∈ [started_event, delta_event]) :
        broken_upstream.parser.Reads (fun buffer => buffer = ([] : List UInt8))
          (message_bytes (.message event)) [broken_upstream.json event] := by
      obtain ⟨hwhole, hpart⟩ := broken_messages event hevent
      exact transducers.reads_of_steps hwhole hpart
    intro item hitem
    rcases List.mem_pair.mp hitem with rfl | rfl
    · exact hreads _ List.mem_cons_self
    · exact hreads _ (List.mem_cons_of_mem _ List.mem_cons_self)
  json := by
    have hne : started_json ≠ delta_json := by decide +kernel
    have hstarted : broken_upstream.parse started_json = some started_event := by
      dsimp only [broken_upstream]
      rw [if_neg hne, if_pos (Eq.refl _)]
    have hdelta : broken_upstream.parse delta_json = some delta_event := by
      dsimp only [broken_upstream]
      rw [if_pos (Eq.refl _)]
    intro item hitem event hevent
    rcases List.mem_pair.mp hitem with rfl | rfl
    · rw [List.mem_singleton.mp hevent]
      exact Or.inl hstarted
    · rw [List.mem_singleton.mp hevent]
      exact Or.inl hdelta

/-- The connection is interrupted behind the only delta. -/
theorem frames_wellFormed_iff_interrupted :
    let events := arrived message_bytes broken_sent
      (broken_sent.map message_bytes).flatten.length
    WellFormed (events.filterMap (·.delta))
        (frames broken_upstream (broken_sent.map message_bytes) .interrupted) ↔
      (∀ event ∈ events, event.type ≠ .answer_delta) ∨
        (∃ event ∈ events, event.type = .message_completed) ∧
          ∀ event ∈ events, (broken_upstream.parsed event).isSome :=
  @frames_wellFormed_iff broken_upstream message_bytes broken_sent agent.plain_rules broken_ids
    broken_run 2 none rfl broken_carries _ (List.prefix_refl _) .interrupted

/-- The text part is never ended. -/
theorem interrupted_text_stays_open : ¬∀ (upstream : Upstream) (bytes : Sent → List UInt8)
    (sent : List Sent) (rules : agent.TextRules) (ids : agent.StreamIds) (run : agent.GraphRun)
    (count : Nat) (failure : Option agent.StreamFailure) (chunks : List (List UInt8))
    (ending : Ending),
    sent.flatMap Sent.events = agent.emitted rules ids run count failure →
    upstream.Carries bytes sent → chunks.flatten <+: sent.flatMap bytes →
    WellFormed ((arrived bytes sent chunks.flatten.length).filterMap (·.delta))
      (frames upstream chunks ending) := by
  intro h
  have hsent : broken_sent.flatMap Sent.events =
      agent.emitted agent.plain_rules broken_ids broken_run 2 none := rfl
  have hstart : (broken_sent.map message_bytes).flatten <+: broken_sent.flatMap message_bytes :=
    List.prefix_refl _
  have hformed := h broken_upstream message_bytes broken_sent agent.plain_rules broken_ids
    broken_run 2 none (broken_sent.map message_bytes) .interrupted hsent broken_carries hstart
  have harrived : arrived message_bytes broken_sent (broken_sent.map message_bytes).flatten.length =
      [started_event, delta_event] := arrived_all
  rw [frames_eq broken_carries hstart, harrived] at hformed
  have harrival := arrival hsent broken_carries (broken_sent.map message_bytes).flatten.length
  rw [harrived] at harrival
  obtain ⟨⟨event, hevent, htype⟩, -⟩ := harrival.result_of_wellFormed
    (List.mem_cons_of_mem _ List.mem_cons_self) rfl hformed
  rcases List.mem_pair.mp hevent with rfl | rfl <;> cases htype

end Interrupted

end lagraph.web
