import LaGraph.Projects.Uploads.Finalization.Writes

open foundation foundation.Tx

namespace lagraph.registry

variable {storage : ProjectStorage} {project_id snapshot_id : String}

/-- What a finalization that commits has done: nothing, as its key was used, or put
the parts of its session into the snapshot of the session. -/
inductive Finalizes (project_id snapshot_id : String) (request : FinalizeRequest)
    (held : List RowLock) (pending : Database → Database) (d : Database) : Prop
  | prior (hsame : pending d = d)
  | new (upload : UploadSessionRow) (hupload : upload ∈ d.uploads)
    (hid : upload.id = request.session_id)
    (hlock : upload.snapshot_id = snapshot_id → RowLock.project project_id ∈ held)
    (hsessions : declared (pending d) = declared d)
    (hidentifiers : ∀ id, d.files.get id = none → (pending d).files.get id ≠ none →
      RowLock.identifier id ∈ held)
    (hkey : RowLock.idempotency request.subject s!"finalize_upload:{request.session_id}"
      request.key ∈ held)
    (hunused : d.idempotency.get request.record_key = none)
    (hrecords : (pending d).idempotency = d.idempotency.insert request.record)
    (hother : upload.snapshot_id ≠ snapshot_id →
      files_of (pending d) snapshot_id = files_of d snapshot_id)
    (hown : upload.snapshot_id = snapshot_id →
      Replaced upload.parts (files_of d snapshot_id) (files_of (pending d) snapshot_id))

/-- The record of the key, once everything else is written. -/
theorem remember_safe {request : FinalizeRequest} {upload : UploadSessionRow}
    {held : List RowLock} {pending : Database → Database} {d : Database}
    (hupload : upload ∈ d.uploads) (hid : upload.id = request.session_id)
    (h : Writing project_id snapshot_id upload.snapshot_id upload.parts [] held pending d) :
    Safe (OthersFinalize project_id snapshot_id) (fun _ => Finalizes project_id snapshot_id request)
      (remember request.subject s!"finalize_upload:{request.session_id}" request.key
        request.session_id) held pending d := by
  refine Safe.acquire_bind fun d₁ hd₁ => Safe.select_bind fun d₂ hd₂ => Safe.raiseIf_bind
    fun hunused => Safe.execute fun d₃ d₄ hd₃ hd₄ => ?_
  have hsince := others_finalize_rely.trans _ _ _ _ hd₃ hd₄
  have hwritten := ((h.rely hd₁).acquire.rely hd₂).rely hsince
  have hsame : declared d₄ = declared d :=
    hsince.sessions.trans (hd₂.sessions.trans hd₁.sessions)
  obtain ⟨upload', hupload', hid', -, hsnapshot, hparts⟩ := declared_mem hsame hupload
  have hnone : d₂.idempotency.get request.record_key = none := by
    rw [h.frame.idempotency] at hunused
    exact Option.not_isSome_iff_eq_none.mp hunused
  refine .new upload' hupload' (hid'.trans hid) ?_ (hwritten.frame.sessions d₄)
    (hwritten.frame.identifiers d₄) List.mem_cons_self
    (hsince.key _ _ _ List.mem_cons_self hnone) ?_ ?_ ?_
  · rw [hsnapshot]
    exact hwritten.lock
  · exact congrArg (Table.insert · request.record) (h.frame.idempotency d₄)
  · rw [hsnapshot]
    exact fun hother => hwritten.other hother d₄
  · rw [hsnapshot, hparts]
    exact hwritten.replaced

/-- However others interleave with it, a finalization does one of the two. -/
theorem finalize_upload_safe (request : FinalizeRequest) (blobs : List (String × String))
    {d : Database} (hproject : SessionsOf project_id snapshot_id d) :
    Safe (OthersFinalize project_id snapshot_id) (fun _ => Finalizes project_id snapshot_id request)
      (finalize_upload request.project_id request.session_id blobs request.new_ids
        request.subject request.key request.now) [] id d := by
  unfold finalize_upload idempotent_resource project_for_update
  simp only [bind_bind]
  refine Safe.select_bind fun d₁ hd₁ => Safe.whenever (fun _ => ?_) fun _ _ _ => .prior rfl
  refine Safe.select_bind fun d₂ hd₂ => Safe.orRaise_bind fun upload hupload =>
    Safe.raiseIf_bind fun _ => Safe.acquire_bind fun d₃ hd₃ => Safe.select_bind fun d₄ hd₄ =>
    Safe.orRaise_bind fun project hget => Safe.raiseIf_bind fun _ => Safe.raiseIf_bind fun _ => ?_
  obtain ⟨hfound, hof⟩ := Option.filter_eq_some_iff.mp hupload
  obtain ⟨hmem, hid⟩ := Table.get_eq_some.mp hfound
  have hlock : upload.snapshot_id = snapshot_id →
      RowLock.project project_id ∈ [RowLock.project request.project_id] := by
    intro hown
    have hsession := hproject.of_declared (hd₂.sessions.trans hd₁.sessions) upload hmem hown
    rw [← hsession, of_decide_eq_true hof]
    exact List.mem_singleton.mpr rfl
  -- the session stays the one that was read
  have hstable : ∀ held d d', OthersFinalize project_id snapshot_id held d d' →
      declared d = declared d₂ → declared d' = declared d₂ :=
    fun held d d' hd hsame => hd.sessions.trans hsame
  have hwritten := (write_parts_safe (writing_start hlock d₄) request.project_id blobs request.now
    (drawn upload.parts request.new_ids)).stable hstable
    (hd₄.sessions.trans hd₃.sessions)
  refine Safe.bind others_finalize_rely hwritten fun _ held pending d₅ h => ?_
  obtain ⟨hwriting, hsame⟩ := h
  rw [drawn_parts, List.nil_append] at hwriting
  refine Safe.bind others_finalize_rely ((close_safe hwriting).stable hstable hsame)
    fun _ held pending d₆ h => ?_
  refine Safe.bind others_finalize_rely ((touch_safe h.1).stable hstable h.2)
    fun _ held pending d₇ h => ?_
  obtain ⟨upload', hmem', hid', -, hsnapshot, hsame'⟩ := declared_mem h.2 hmem
  rw [← hsnapshot, ← hsame'] at h
  exact remember_safe hmem' (hid'.trans hid) h.1

/-- The checks change nothing and take no lock. -/
theorem check_upload_safe {request : FinalizeRequest} {d : Database}
    (hproject : SessionsOf project_id snapshot_id d) :
    Safe (OthersFinalize project_id snapshot_id)
      (fun _ held pending d => held = [] ∧ pending = id ∧ SessionsOf project_id snapshot_id d)
      (check_upload storage request.project_id request.session_id request.checked_at) [] id d := by
  have hdone : ∀ {parts : List UploadPartRow} {e}, declared e = declared d →
      Safe (OthersFinalize project_id snapshot_id)
        (fun _ held pending d => held = [] ∧ pending = id ∧ SessionsOf project_id snapshot_id d)
        (pure parts : Transaction _) [] id e :=
    fun hsame e' he' => ⟨rfl, rfl, hproject.of_declared (he'.sessions.trans hsame)⟩
  unfold check_upload get_upload_session list_files
  simp only [bind_bind]
  refine Safe.select_bind fun d₁ hd₁ => Safe.orRaise_bind fun upload _ => ?_
  split
  · exact hdone hd₁.sessions
  · refine Safe.raiseIf_bind fun _ => Safe.select_bind fun d₂ hd₂ => Safe.orRaise_bind
      fun snapshot _ => Safe.select_bind fun d₃ hd₃ => Safe.raiseIf_bind fun _ =>
      Safe.raiseIf_bind fun _ => ?_
    exact hdone (hd₃.sessions.trans (hd₂.sessions.trans hd₁.sessions))

theorem perform_safe (request : FinalizeRequest) {d : Database}
    (hproject : SessionsOf project_id snapshot_id d) :
    (request.perform storage).Safe (OthersFinalize project_id snapshot_id)
      (fun _ => Finalizes project_id snapshot_id request) [] id d := by
  refine Safe.bind others_finalize_rely (check_upload_safe hproject) fun parts held pending e h => ?_
  obtain ⟨rfl, rfl, hproject⟩ := h
  cases request.stored parts with
  | error e => trivial
  | ok blobs => exact finalize_upload_safe request blobs hproject

end lagraph.registry
