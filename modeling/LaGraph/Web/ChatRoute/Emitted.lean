import LaGraph.Web.ChatRoute

namespace lagraph.web

variable {rules : agent.TextRules} {ids : agent.StreamIds} {run : agent.GraphRun} {count : Nat}
  {failure : Option agent.StreamFailure} {event : agent.LifecycleEvent}

/-- The place of an event in a stream. -/
def rank : agent.EventType → Nat
  | .message_started | .tool_started | .tool_completed => 0
  | .answer_delta => 1
  | .citation_available => 2
  | .message_completed => 3
  | .message_failed => 4

/-- The events of a run. -/
inductive Emits (ids : agent.StreamIds) (answer : agent.Answer) : agent.LifecycleEvent → Prop
  | quiet (event : agent.LifecycleEvent) (hrank : rank event.type = 0)
      (hdelta : event.delta = none) (hschema : (stream_event_schema event).isSome) :
      Emits ids answer event
  | delta (delta : String) :
      Emits ids answer { ids.event .answer_delta with delta := some delta }
  | citation (citation : agent.Citation) :
      Emits ids answer { ids.event .citation_available with citation := some citation }
  | completed : Emits ids answer { ids.event .message_completed with result := some answer }
  | failed (failure : agent.StreamFailure) : Emits ids answer (agent.failed_event ids failure)

/-- The events before the response is formatted. -/
theorem emits_investigation
    (hevent : event ∈ run.investigation.flatMap (agent.update_events rules ids)) :
    rank event.type = 0 ∧ event.delta = none ∧ (stream_event_schema event).isSome := by
  cases run with
  | clarification answer => simp [agent.GraphRun.investigation, agent.update_events] at hevent
  | retrieval evidence warnings answer =>
    simp only [agent.GraphRun.investigation, agent.update_events, List.flatMap_cons,
      List.flatMap_nil, List.append_nil, List.nil_append, List.singleton_append,
      List.mem_cons, List.not_mem_nil, or_false] at hevent
    rcases hevent with rfl | rfl <;> exact ⟨rfl, rfl, rfl⟩

/-- The events of a whole run, in the order of their places. -/
theorem stream_blocks : agent.stream rules ids run.updates none =
    ({ ids.event .message_started with message_id := some ids.message_id } ::
        run.investigation.flatMap (agent.update_events rules ids)) ++
      ((agent.pieces run.answer.answer).map (fun piece =>
          { ids.event .answer_delta with delta := some piece }) ++
        (run.answer.citations.map (fun citation =>
            { ids.event .citation_available with citation := some citation }) ++
          [{ ids.event .message_completed with result := some run.answer }])) := by
  simp [agent.stream, agent.GraphRun.updates, agent.update_events]

theorem stream_emits (hevent : event ∈ agent.stream rules ids run.updates none) :
    Emits ids run.answer event := by
  rw [stream_blocks] at hevent
  simp only [List.mem_append, List.mem_cons, List.mem_map, List.not_mem_nil, or_false] at hevent
  rcases hevent with (rfl | hquiet) | ⟨piece, -, rfl⟩ | ⟨citation, -, rfl⟩ | rfl
  · exact .quiet _ rfl rfl rfl
  · obtain ⟨hrank, hdelta, hschema⟩ := emits_investigation hquiet
    exact .quiet _ hrank hdelta hschema
  · exact .delta piece
  · exact .citation citation
  · exact .completed

theorem emitted_emits (hevent : event ∈ agent.emitted rules ids run count failure) :
    Emits ids run.answer event := by
  rw [agent.emitted, List.mem_append] at hevent
  cases hevent with
  | inl hrun => exact stream_emits (List.mem_of_mem_take hrun)
  | inr hfailed =>
    rw [Option.mem_toList] at hfailed
    obtain ⟨found, -, rfl⟩ := Option.map_eq_some_iff.mp hfailed
    exact .failed found

theorem pairwise_of_rank {events : List agent.LifecycleEvent} {n : Nat}
    (h : ∀ event ∈ events, rank event.type = n) :
    events.Pairwise fun a b => rank a.type ≤ rank b.type :=
  List.pairwise_of_forall_mem_list fun a ha b hb => by rw [h a ha, h b hb]

/-- The events of a run come in the order of their places. -/
theorem emitted_sorted : (agent.emitted rules ids run count failure).Pairwise
    fun a b => rank a.type ≤ rank b.type := by
  have hrun : (agent.stream rules ids run.updates none).Pairwise
      fun a b => rank a.type ≤ rank b.type := by
    have hquiet : ∀ event ∈ ({ ids.event .message_started with
        message_id := some ids.message_id } : agent.LifecycleEvent) ::
          run.investigation.flatMap (agent.update_events rules ids), rank event.type = 0 :=
      List.forall_mem_cons.mpr ⟨rfl, fun event hevent => (emits_investigation hevent).1⟩
    have hdeltas : ∀ event ∈ (agent.pieces run.answer.answer).map (fun piece =>
        ({ ids.event .answer_delta with delta := some piece } : agent.LifecycleEvent)),
        rank event.type = 1 :=
      List.forall_mem_map.mpr fun _ _ => rfl
    have hcitations : ∀ event ∈ run.answer.citations.map (fun citation =>
        ({ ids.event .citation_available with citation := some citation } :
          agent.LifecycleEvent)), rank event.type = 2 :=
      List.forall_mem_map.mpr fun _ _ => rfl
    rw [stream_blocks, List.pairwise_append, List.pairwise_append, List.pairwise_append]
    refine ⟨pairwise_of_rank hquiet, ⟨pairwise_of_rank hdeltas, ⟨pairwise_of_rank hcitations,
      List.pairwise_singleton _ _, ?_⟩, ?_⟩, ?_⟩
    · intro a ha b hb
      rw [hcitations a ha, List.mem_singleton.mp hb]
      exact Nat.le_succ 2
    · intro a ha b hb
      rw [hdeltas a ha]
      rcases List.mem_append.mp hb with hb | hb
      · rw [hcitations b hb]
        exact Nat.le_succ 1
      · rw [List.mem_singleton.mp hb]
        exact Nat.le_add_right 1 2
    · intro a ha b hb
      rw [hquiet a ha]
      exact Nat.zero_le _
  rw [agent.emitted, List.pairwise_append]
  refine ⟨hrun.sublist (List.take_sublist _ _), ?_, ?_⟩
  · cases failure with
    | none => exact .nil
    | some failure => exact List.pairwise_singleton _ _
  · intro a _ b hb
    rw [Option.mem_toList] at hb
    obtain ⟨found, -, rfl⟩ := Option.map_eq_some_iff.mp hb
    change rank a.type ≤ 4
    cases a.type <;> decide

end lagraph.web
