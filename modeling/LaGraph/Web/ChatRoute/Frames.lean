import LaGraph.Web.ChatRoute
import Mathlib.Data.List.TakeDrop

open foundation

namespace lagraph.web

def Frame.is_text_start : Frame → Bool
  | .text_start => true
  | _ => false

def Frame.is_text_end : Frame → Bool
  | .text_end => true
  | _ => false

def Frame.is_done : Frame → Bool
  | .done => true
  | _ => false

/-- Frames before which a text part must be closed. -/
def Frame.is_terminal : Frame → Bool
  | .finish | .error _ | .done => true
  | _ => false

def Frame.delta : Frame → Option String
  | .text_delta delta => some delta
  | _ => none

/-- The frames of a response are a message stream whose text is that of the upstream deltas. -/
structure WellFormed (deltas : List String) (frames : List Frame) : Prop where
  one_start : frames.countP Frame.is_text_start ≤ 1
  inside : ∀ before delta after, frames = before ++ .text_delta delta :: after →
    .text_start ∈ before ∧ .text_end ∉ before ∧ .text_end ∈ after
  closed : ∀ before frame after, frames = before ++ frame :: after → frame.is_terminal = true →
    .text_start ∈ before → .text_end ∈ before
  done : ∃ before, frames = before ++ [.done] ∧ .done ∉ before
  text : String.join (frames.filterMap Frame.delta) = String.join deltas

/-- What the server writes into its response: an event, or a comment that keeps it alive. -/
inductive Sent
  | message (event : agent.LifecycleEvent)
  | comment (text : String)

def Sent.events : Sent → List agent.LifecycleEvent
  | .message event => [event]
  | .comment _ => []

variable {upstream : Upstream} {bytes : Sent → List UInt8} {sent : List Sent}

/-- The events whose bytes have arrived whole. -/
def arrived (bytes : Sent → List UInt8) : List Sent → Nat → List agent.LifecycleEvent
  | [], _ => []
  | item :: rest, n =>
    if (bytes item).length ≤ n then item.events ++ arrived bytes rest (n - (bytes item).length)
    else []

/-- The parser reads what the server writes, wherever it is cut, and the JSON text of an event
is read back; only a number in a result may have no JSON text. -/
structure Upstream.Carries (upstream : Upstream) (bytes : Sent → List UInt8)
    (sent : List Sent) : Prop where
  seamless : upstream.parser.Seamless
  reads : ∃ idle, idle upstream.parser.start ∧ ∀ item ∈ sent,
    upstream.parser.Reads idle (bytes item) (item.events.map upstream.json)
  json : ∀ item ∈ sent, ∀ event ∈ item.events,
    upstream.parse (upstream.json event) = some event ∨
      event.type = .message_completed ∧ upstream.parse (upstream.json event) = none

/-- The event passes `JSON.parse` and the schema. -/
def Upstream.parsed (upstream : Upstream) (event : agent.LifecycleEvent) : Option StreamEvent :=
  (upstream.parse (upstream.json event)).bind stream_event_schema

section Arrived

/-- What arrives is the beginning of what was sent. -/
theorem arrived_initial (n : Nat) : arrived bytes sent n <+: sent.flatMap Sent.events := by
  induction sent generalizing n with
  | nil => exact List.nil_prefix
  | cons item sent ih =>
    rw [arrived, List.flatMap_cons]
    split_ifs
    · exact List.prefix_append_right_inj _ |>.mpr (ih _)
    · exact List.nil_prefix

/-- Everything arrives that is not cut off. -/
theorem arrived_all : arrived bytes sent (sent.flatMap bytes).length =
    sent.flatMap Sent.events := by
  induction sent with
  | nil => rfl
  | cons item sent ih =>
    rw [List.flatMap_cons, List.flatMap_cons, List.length_append, arrived,
      if_pos (Nat.le_add_right _ _), Nat.add_sub_cancel_left, ih]

theorem received_eq (n : Nat) :
    transducers.received (sent.map fun item => (bytes item, item.events.map upstream.json)) n =
      (arrived bytes sent n).map upstream.json := by
  induction sent generalizing n with
  | nil => rfl
  | cons item sent ih =>
    simp only [List.map_cons, transducers.received, arrived, ih]
    split_ifs
    · exact List.map_append.symm
    · rfl

theorem on_events_append (text_open : Bool) (a b : List String) :
    on_events upstream text_open (a ++ b) =
      ((on_events upstream (on_events upstream text_open a).1 b).1,
        (on_events upstream text_open a).2 ++
          (on_events upstream (on_events upstream text_open a).1 b).2) := by
  induction a generalizing text_open with
  | nil => rfl
  | cons data a ih => simp only [List.cons_append, on_events, ih, List.append_assoc]

theorem read_chunks_eq (state : upstream.parser.State) (text_open : Bool)
    (chunks : List (List UInt8)) :
    read_chunks upstream state text_open chunks =
      (on_events upstream text_open (upstream.parser.run state chunks).2).2 := by
  induction chunks generalizing state text_open with
  | nil => rfl
  | cons chunk chunks ih =>
    rw [read_chunks, transducers.Transducer.run, on_events_append]
    exact congrArg _ (ih _ _)

/-- The frames are those of the events that arrive, wherever the bytes are cut. -/
theorem frames_eq (hcarries : upstream.Carries bytes sent) {chunks : List (List UInt8)}
    (hchunks : chunks.flatten <+: sent.flatMap bytes) (ending : Ending) :
    frames upstream chunks ending =
      (on_events upstream false
        ((arrived bytes sent chunks.flatten.length).map upstream.json)).2 ++ ending.frames := by
  obtain ⟨idle, hidle, hreads⟩ := hcarries.reads
  have hblocks : ∀ block ∈ sent.map fun item => (bytes item, item.events.map upstream.json),
      upstream.parser.Reads idle block.1 block.2 := by
    intro block hblock
    obtain ⟨item, hitem, rfl⟩ := List.mem_map.mp hblock
    exact hreads item hitem
  have hinput : chunks.flatten <+:
      (sent.map fun item => (bytes item, item.events.map upstream.json)).flatMap (·.1) := by
    rw [List.flatMap_map]
    exact hchunks
  rw [frames, read_chunks_eq, hcarries.seamless.run_eq,
    hcarries.seamless.feed_blocks hidle hblocks hinput, received_eq]

end Arrived

section Pushed

variable {events : List agent.LifecycleEvent} {event : agent.LifecycleEvent} {text_open : Bool}

/-- What the route pushes for an event that passes the schema or does not. -/
theorem on_event_json : on_event upstream text_open (upstream.json event) =
    match upstream.parsed event with
    | some parsed => push text_open parsed
    | none => (text_open, [.error "The response stream could not be validated."]) := rfl

theorem on_events_cons : on_events upstream text_open ((event :: events).map upstream.json) =
    ((on_events upstream (on_event upstream text_open (upstream.json event)).1
        (events.map upstream.json)).1,
      (on_event upstream text_open (upstream.json event)).2 ++
        (on_events upstream (on_event upstream text_open (upstream.json event)).1
          (events.map upstream.json)).2) := rfl

theorem on_event_open : (on_event upstream text_open (upstream.json event)).1 = false ↔
    text_open = false ∧ ¬∃ delta, upstream.parsed event = some (.answer_delta delta) := by
  rw [on_event_json]
  cases upstream.parsed event with
  | none => simp
  | some parsed => cases parsed <;> simp [push]

/-- The text part is open from the first delta on. -/
theorem on_events_open : (on_events upstream text_open (events.map upstream.json)).1 = true ↔
    text_open = true ∨ ∃ event ∈ events, ∃ delta,
      upstream.parsed event = some (.answer_delta delta) := by
  induction events generalizing text_open with
  | nil => simp [on_events]
  | cons event events ih =>
    rw [on_events_cons, ih, ← Bool.not_eq_false, on_event_open, ← Bool.not_eq_false,
      List.exists_mem_cons_iff]
    tauto

theorem mem_on_event_start : Frame.text_start ∈ (on_event upstream text_open
    (upstream.json event)).2 ↔
      text_open = false ∧ ∃ delta, upstream.parsed event = some (.answer_delta delta) := by
  rw [on_event_json]
  cases upstream.parsed event with
  | none => simp
  | some parsed => cases parsed <;> cases text_open <;> simp [push]

/-- The text part is started by the first delta. -/
theorem mem_on_events_start : Frame.text_start ∈ (on_events upstream text_open
    (events.map upstream.json)).2 ↔
      text_open = false ∧ ∃ event ∈ events, ∃ delta,
        upstream.parsed event = some (.answer_delta delta) := by
  induction events generalizing text_open with
  | nil => simp [on_events]
  | cons event events ih =>
    rw [on_events_cons, List.mem_append, mem_on_event_start, ih, on_event_open,
      List.exists_mem_cons_iff]
    tauto

/-- The text part is ended by a result only. -/
theorem completed_of_mem_end (h : Frame.text_end ∈ (on_events upstream text_open
    (events.map upstream.json)).2) :
    ∃ event ∈ events, ∃ result, upstream.parsed event = some (.message_completed result) := by
  induction events generalizing text_open with
  | nil => cases h
  | cons event events ih =>
    rw [on_events_cons, List.mem_append] at h
    cases h with
    | inl hhead =>
      refine ⟨event, List.mem_cons_self, ?_⟩
      rw [on_event_json] at hhead
      cases hparsed : upstream.parsed event with
      | none => simp [hparsed] at hhead
      | some parsed =>
        rw [hparsed] at hhead
        cases parsed <;> simp [push] at hhead
        exact ⟨_, rfl⟩
    | inr hrest =>
      obtain ⟨found, hfound, hresult⟩ := ih hrest
      exact ⟨found, List.mem_cons_of_mem _ hfound, hresult⟩

theorem done_not_mem : Frame.done ∉ (on_events upstream text_open (events.map upstream.json)).2 := by
  induction events generalizing text_open with
  | nil => exact List.not_mem_nil
  | cons event events ih =>
    rw [on_events_cons, List.mem_append, not_or]
    refine ⟨?_, ih⟩
    rw [on_event_json]
    cases upstream.parsed event with
    | none => simp
    | some parsed => cases parsed <;> simp [push]

/-- Once the text part is open, a result ends it. -/
theorem mem_on_events_end {result : agent.Answer} (hevent : event ∈ events)
    (hparsed : upstream.parsed event = some (.message_completed result)) :
    Frame.text_end ∈ (on_events upstream true (events.map upstream.json)).2 := by
  obtain ⟨before, after, rfl⟩ := List.append_of_mem hevent
  have hopen := (@on_events_open upstream before true).mpr (Or.inl rfl)
  rw [List.map_append, on_events_append, hopen, on_events_cons, on_event_json, hparsed]
  simp [push]

/-- An element of a concatenation stands in its first or in its second part. -/
theorem place_of_append {α : Type} {a b before after : List α} {x : α}
    (h : a ++ b = before ++ x :: after) :
    (∃ rest, a = before ++ x :: rest ∧ after = rest ++ b) ∨
      ∃ pre, before = a ++ pre ∧ b = pre ++ x :: after := by
  rcases List.append_eq_append_iff.mp h with ⟨rest, hbefore, hrest⟩ | ⟨rest, ha, hrest⟩
  · exact Or.inr ⟨rest, hbefore, hrest⟩
  · cases rest with
    | nil => exact Or.inr ⟨[], by rw [ha, List.append_nil, List.append_nil], hrest.symm⟩
    | cons head rest =>
      obtain ⟨rfl, rfl⟩ := List.cons.inj hrest
      exact Or.inl ⟨rest, ha, rfl⟩

/-- A frame is pushed for an event, after those of the events before it. -/
theorem split_on_events {before after : List Frame} {frame : Frame}
    (h : (on_events upstream text_open (events.map upstream.json)).2 = before ++ frame :: after) :
    ∃ earlier event later pre post, events = earlier ++ event :: later ∧
      before = (on_events upstream text_open (earlier.map upstream.json)).2 ++ pre ∧
      (on_event upstream (on_events upstream text_open (earlier.map upstream.json)).1
        (upstream.json event)).2 = pre ++ frame :: post ∧
      after = post ++ (on_events upstream (on_event upstream
        (on_events upstream text_open (earlier.map upstream.json)).1
          (upstream.json event)).1 (later.map upstream.json)).2 := by
  induction events generalizing text_open before with
  | nil => simp [on_events] at h
  | cons event events ih =>
    rw [on_events_cons] at h
    rcases place_of_append h with ⟨rest, hhead, rfl⟩ | ⟨rest, rfl, hrest⟩
    · exact ⟨[], event, events, before, rest, rfl, rfl, hhead, rfl⟩
    · obtain ⟨earlier, found, later, pre, post, rfl, rfl, hfound, rfl⟩ := ih hrest
      refine ⟨event :: earlier, found, later, pre, post, rfl, ?_, hfound, rfl⟩
      rw [on_events_cons, List.append_assoc]

/-- An element that is not in the first part of a list is the one behind it. -/
theorem init_of_append {α : Type} {init pre post : List α} {last x : α}
    (h : init ++ [last] = pre ++ x :: post) (hnot : x ∉ init) : pre = init ∧ x = last := by
  rcases place_of_append h with ⟨rest, hinit, -⟩ | ⟨rest, hpre, hlast⟩
  · apply absurd _ hnot
    rw [hinit]
    exact List.mem_append_right _ List.mem_cons_self
  · cases rest with
    | nil =>
      rw [List.append_nil] at hpre
      exact ⟨hpre, (List.cons.inj hlast).1.symm⟩
    | cons head rest =>
      have hlength := congrArg List.length hlast
      simp at hlength

/-- A text delta is pushed for a delta, behind the start of the part if that is not open. -/
theorem on_event_delta {pre post : List Frame} {delta : String}
    (h : (on_event upstream text_open (upstream.json event)).2 = pre ++ .text_delta delta :: post) :
    upstream.parsed event = some (.answer_delta delta) ∧
      pre = if text_open then [] else [.text_start] := by
  have hmem : Frame.text_delta delta ∈
      (on_event upstream text_open (upstream.json event)).2 := by
    rw [h]
    exact List.mem_append_right _ List.mem_cons_self
  rw [on_event_json] at h hmem
  cases hparsed : upstream.parsed event with
  | none => simp [hparsed] at hmem
  | some parsed =>
    rw [hparsed] at h hmem
    cases parsed with
    | answer_delta found =>
      obtain ⟨rfl, hdelta⟩ := init_of_append h (by cases text_open <;> simp)
      cases hdelta
      exact ⟨rfl, rfl⟩
    | _ => cases text_open <;> simp [push] at hmem

/-- A terminal frame is pushed for a result, behind the end of the part if that is open, or for
a failure, if the event passes. -/
theorem on_event_terminal {pre post : List Frame} {frame : Frame}
    (h : (on_event upstream text_open (upstream.json event)).2 = pre ++ frame :: post)
    (hterminal : frame.is_terminal = true) (hsome : (upstream.parsed event).isSome) :
    (∃ result, upstream.parsed event = some (.message_completed result) ∧
        pre = (if text_open then [.text_end] else []) ++ [.data_result result]) ∨
      ∃ error, upstream.parsed event = some (.message_failed error) ∧
        pre = [.data_error error] := by
  have hmem : frame ∈ (on_event upstream text_open (upstream.json event)).2 := by
    rw [h]
    exact List.mem_append_right _ List.mem_cons_self
  obtain ⟨parsed, hparsed⟩ := Option.isSome_iff_exists.mp hsome
  rw [on_event_json, hparsed] at h hmem
  cases parsed with
  | message_completed result =>
    have hsplit : ((if text_open then [.text_end] else []) ++ [.data_result result]) ++
        [.finish] = pre ++ frame :: post := by
      rw [← h]
      cases text_open <;> rfl
    have hnot : frame ∉ (if text_open then [.text_end] else []) ++ [Frame.data_result result] := by
      intro hbefore
      cases text_open <;> simp at hbefore <;> grind [Frame.is_terminal]
    exact Or.inl ⟨result, hparsed, (init_of_append hsplit hnot).1⟩
  | message_failed error =>
    have hnot : frame ∉ [Frame.data_error error] := by
      intro hbefore
      rw [List.mem_singleton.mp hbefore] at hterminal
      cases hterminal
    have hsplit : [.data_error error] ++ [.error error.message] = pre ++ frame :: post := h
    exact Or.inr ⟨error, hparsed, (init_of_append hsplit hnot).1⟩
  | answer_delta found =>
    cases text_open <;> simp [push] at hmem <;> grind [Frame.is_terminal]
  | _ =>
    simp [push] at hmem
    grind [Frame.is_terminal]

theorem countP_on_events_start : (on_events upstream text_open
    (events.map upstream.json)).2.countP Frame.is_text_start ≤ if text_open then 0 else 1 := by
  induction events generalizing text_open with
  | nil => exact Nat.zero_le _
  | cons event events ih =>
    have hhead : (on_event upstream text_open (upstream.json event)).2.countP
        Frame.is_text_start + (if (on_event upstream text_open (upstream.json event)).1 then 0
          else 1) ≤ if text_open then 0 else 1 := by
      rw [on_event_json]
      cases upstream.parsed event with
      | none => cases text_open <;> decide
      | some parsed =>
        cases parsed <;> cases text_open <;>
          simp [push, Frame.is_text_start, List.countP_cons]
    rw [on_events_cons, List.countP_append]
    have hrest := @ih (on_event upstream text_open (upstream.json event)).1
    omega

/-- The delta of an event that passes the schema. -/
def StreamEvent.delta : StreamEvent → Option String
  | .answer_delta delta => some delta
  | _ => none

/-- The deltas pushed are those of the events. -/
theorem filterMap_on_events : (on_events upstream text_open (events.map upstream.json)).2.filterMap
    Frame.delta = events.filterMap fun event => (upstream.parsed event).bind StreamEvent.delta := by
  induction events generalizing text_open with
  | nil => rfl
  | cons event events ih =>
    have hhead : (on_event upstream text_open (upstream.json event)).2.filterMap Frame.delta =
        ((upstream.parsed event).bind StreamEvent.delta).toList := by
      rw [on_event_json]
      cases upstream.parsed event with
      | none => rfl
      | some parsed => cases parsed <;> cases text_open <;> rfl
    rw [on_events_cons, List.filterMap_append, hhead, ih, List.filterMap_cons]
    cases (upstream.parsed event).bind StreamEvent.delta <;> rfl

end Pushed

end lagraph.web
