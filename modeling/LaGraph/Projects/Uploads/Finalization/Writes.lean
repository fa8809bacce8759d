import LaGraph.Projects.Uploads.Finalization

open foundation foundation.Tx

namespace lagraph.registry

variable {project_id snapshot_id target name : String} {done : List UploadPartRow}
  {absent : List String} {held : List RowLock} {pending : Database → Database} {d d' : Database}

/-- A finalization of the snapshot `target` that has written the parts `done`, seen
from the snapshot `snapshot_id`. No file of it has a name in `absent`. -/
structure Writing (project_id snapshot_id target : String) (done : List UploadPartRow)
    (absent : List String) (held : List RowLock) (pending : Database → Database)
    (d : Database) : Prop where
  frame : Frame held pending
  other : target ≠ snapshot_id → ∀ e, files_of (pending e) snapshot_id = files_of e snapshot_id
  lock : target = snapshot_id → RowLock.project project_id ∈ held
  settled : target = snapshot_id → Settled project_id snapshot_id held pending d
  replaced : target = snapshot_id →
    Replaced done (files_of d snapshot_id) (files_of (pending d) snapshot_id)
  missing : target = snapshot_id → ∀ file ∈ files_of (pending d) snapshot_id,
    file.logical_filename ∉ absent

theorem Settled.rely (h : Settled project_id snapshot_id held pending d)
    (hd : OthersFinalize project_id snapshot_id held d d') :
    Settled project_id snapshot_id held pending d' where
  files e he :=
    (h.files e (others_finalize_rely.trans _ _ _ _ hd he)).trans (h.files d' hd).symm
  unused e e' he := h.unused e e' (others_finalize_rely.trans _ _ _ _ hd he)

theorem Settled.lock {row : RowLock} (h : Settled project_id snapshot_id held pending d) :
    Settled project_id snapshot_id (row :: held) pending d where
  files e he := h.files e he.mono
  unused e e' he he' := h.unused e e' he.mono he'.mono

theorem Frame.lock {row : RowLock} (h : Frame held pending) : Frame (row :: held) pending :=
  ⟨h.sessions, h.idempotency,
    fun e id hnone hsome => List.mem_cons_of_mem _ (h.identifiers e id hnone hsome)⟩

/-- Nothing is written yet. -/
theorem writing_start (hlock : target = snapshot_id → RowLock.project project_id ∈ held)
    (d : Database) : Writing project_id snapshot_id target [] [] held id d where
  frame := ⟨fun _ => rfl, fun _ => rfl, fun _ _ hnone hsome => absurd hnone hsome⟩
  other _ _ := rfl
  lock := hlock
  settled hown := ⟨fun _ he => he.files (hlock hown), fun _ _ _ _ _ hid hnone => hid hnone⟩
  replaced _ := .refl
  missing _ _ _ := List.not_mem_nil

theorem Writing.rely (h : Writing project_id snapshot_id target done absent held pending d)
    (hd : OthersFinalize project_id snapshot_id held d d') :
    Writing project_id snapshot_id target done absent held pending d' where
  frame := h.frame
  other := h.other
  lock := h.lock
  settled hown := (h.settled hown).rely hd
  replaced hown := by
    rw [hd.files (h.lock hown), (h.settled hown).files d' hd]
    exact h.replaced hown
  missing hown := by
    rw [(h.settled hown).files d' hd]
    exact h.missing hown

theorem Writing.acquire {row : RowLock}
    (h : Writing project_id snapshot_id target done absent held pending d) :
    Writing project_id snapshot_id target done absent (row :: held) pending d where
  frame := h.frame.lock
  other := h.other
  lock hown := List.mem_cons_of_mem _ (h.lock hown)
  settled hown := (h.settled hown).lock
  replaced := h.replaced
  missing := h.missing

/-- A change to other tables. -/
theorem Writing.elsewhere {change : Database → Database}
    (h : Writing project_id snapshot_id target done absent held pending d)
    (hfiles : ∀ e, (change e).files = e.files) (hsessions : ∀ e, declared (change e) = declared e)
    (hrecords : ∀ e, (change e).idempotency = e.idempotency) :
    Writing project_id snapshot_id target done absent held (change ∘ pending) d := by
  have hsame : ∀ e, files_of ((change ∘ pending) e) snapshot_id =
      files_of (pending e) snapshot_id := fun e => by
    rw [files_of, Function.comp, hfiles, files_of]
  refine ⟨⟨fun e => ?_, fun e => ?_, fun e id hnone hsome => ?_⟩, fun hother e => ?_, h.lock,
    fun hown => ⟨fun e he => ?_, fun e e' he he' id hid hnone => ?_⟩, fun hown => ?_,
    fun hown => ?_⟩
  · exact (hsessions _).trans (h.frame.sessions e)
  · exact (hrecords _).trans (h.frame.idempotency e)
  · rw [Function.comp, hfiles] at hsome
    exact h.frame.identifiers e id hnone hsome
  · rw [hsame]
    exact h.other hother e
  · rw [hsame, hsame]
    exact (h.settled hown).files e he
  · rw [Function.comp, hfiles] at hnone ⊢
    exact (h.settled hown).unused e e' he he' id hid hnone
  · rw [hsame]
    exact h.replaced hown
  · rw [hsame]
    exact h.missing hown

/-- The deletion of the file that a part replaces. -/
theorem Writing.delete
    (h : Writing project_id snapshot_id target done absent held pending d) (part : UploadPartRow) :
    Writing project_id snapshot_id target (done ++ [part]) [part.logical_filename] held
      (delete_name target part.logical_filename (pending d) ∘ pending) d := by
  have hdeleted : target = snapshot_id → ∀ e,
      OthersFinalize project_id snapshot_id held d e →
      files_of (delete_name target part.logical_filename (pending d) (pending e)) snapshot_id =
        (files_of (pending e) snapshot_id).filter (·.logical_filename ≠ part.logical_filename) := by
    intro hown e he
    rw [hown]
    exact files_of_delete ((h.settled hown).files e he).symm
  have hhere : target = snapshot_id →
      files_of (delete_name target part.logical_filename (pending d) (pending d)) snapshot_id =
        (files_of (pending d) snapshot_id).filter (·.logical_filename ≠ part.logical_filename) :=
    fun hown => hdeleted hown d (others_finalize_rely.refl _ _)
  refine ⟨⟨h.frame.sessions, h.frame.idempotency, fun e id hnone hsome => ?_⟩,
    fun hother e => ?_, h.lock, fun hown => ⟨fun e he => ?_, fun e e' he he' id hid hnone => ?_⟩,
    fun hown => ?_, fun hown => ?_⟩
  · exact h.frame.identifiers e id hnone (get_delete_name hsome)
  · rw [Function.comp, files_of_delete_other hother]
    exact h.other hother e
  · rw [Function.comp, hdeleted hown e he, (h.settled hown).files e he, Function.comp, hhere hown]
  · rw [Function.comp, delete_name, Table.get_delete] at hnone ⊢
    cases hget : (pending e).files.get id with
    | none => rw [(h.settled hown).unused e e' he he' id hid hget, Option.filter_none]
    | some row =>
      -- a file deleted here is one of the snapshot, which nobody else changes
      obtain ⟨hrow, hkey⟩ := Table.get_eq_some.mp hget
      rw [hget, Option.filter_eq_none_iff] at hnone
      have hmatched := hnone row rfl
      rw [Bool.not_eq_true', Bool.not_eq_false] at hmatched
      have hsnapshot : row.snapshot_id = snapshot_id := by
        rw [Table.matching, Bool.and_eq_true, Bool.and_eq_true, decide_eq_true_eq] at hmatched
        exact hmatched.2.1.trans hown
      have hkept : row ∈ files_of (pending e') snapshot_id := by
        rw [(h.settled hown).files e' (others_finalize_rely.trans _ _ _ _ he he'),
          ← (h.settled hown).files e he]
        exact List.mem_filter.mpr ⟨hrow, decide_eq_true hsnapshot⟩
      rw [Table.get_eq_some.mpr ⟨(List.mem_filter.mp hkept).1, hkey⟩, Option.filter_some,
        if_neg (by simp [hmatched])]
  · rw [Function.comp, hhere hown]
    refine (h.replaced hown).step (fun file hfile => Or.inl ?_) fun hnames => ?_
    · obtain ⟨hfile, hname⟩ := List.mem_filter.mp hfile
      exact ⟨hfile, of_decide_eq_true hname⟩
    · exact (List.filter_sublist.map _).nodup hnames
  · rw [Function.comp, hhere hown]
    intro file hfile
    rw [List.mem_singleton]
    exact of_decide_eq_true (List.mem_filter.mp hfile).2

/-- The insertion of the file of a part, with an identifier that is locked and was
not taken. -/
theorem Writing.insert {part : UploadPartRow} {row : SnapshotFileRow}
    (h : Writing project_id snapshot_id target (done ++ [part]) [part.logical_filename] held
      pending d)
    (hname : row.logical_filename = part.logical_filename) (hsize : row.size = part.expected_size)
    (hsnapshot : row.snapshot_id = target) (hlock : RowLock.identifier row.id ∈ held)
    (hfree : target = snapshot_id → ∀ e, OthersFinalize project_id snapshot_id held d e →
      (pending e).files.get row.id = none) :
    Writing project_id snapshot_id target (done ++ [part]) [] held (insert_file row ∘ pending) d := by
  have hinserted : target = snapshot_id → ∀ e,
      OthersFinalize project_id snapshot_id held d e →
      files_of (insert_file row (pending e)) snapshot_id =
        files_of (pending e) snapshot_id ++ [row] := by
    intro hown e he
    rw [files_of_insert (hfree hown e he), if_pos (hsnapshot.trans hown)]
  have hhere : target = snapshot_id →
      files_of (insert_file row (pending d)) snapshot_id =
        files_of (pending d) snapshot_id ++ [row] :=
    fun hown => hinserted hown d (others_finalize_rely.refl _ _)
  refine ⟨⟨h.frame.sessions, h.frame.idempotency, fun e id hnone hsome => ?_⟩,
    fun hother e => ?_, h.lock, fun hown => ⟨fun e he => ?_, fun e e' he he' id hid hnone => ?_⟩,
    fun hown => ?_, fun _ _ _ => List.not_mem_nil⟩
  · cases get_insert_file hsome with
    | inl hsome => exact h.frame.identifiers e id hnone hsome
    | inr hsame => exact hsame ▸ hlock
  · rw [Function.comp, files_of_insert_other (hsnapshot ▸ hother)]
    exact h.other hother e
  · rw [Function.comp, hinserted hown e he, (h.settled hown).files e he, Function.comp, hhere hown]
  · have hne : row.id ≠ id := fun hsame => get_insert_self (hsame ▸ hnone)
    rw [Function.comp, insert_file, Table.get_insert_of_ne hne] at hnone ⊢
    exact (h.settled hown).unused e e' he he' id hid hnone
  · rw [Function.comp, hhere hown]
    have hreplaced := h.replaced hown
    constructor
    case names =>
      intro hbefore
      rw [List.map_append, List.map_singleton, List.nodup_append]
      refine ⟨hreplaced.names hbefore, List.nodup_singleton _, fun name hmem other hother => ?_⟩
      obtain ⟨file, hfile, rfl⟩ := List.mem_map.mp hmem
      rw [List.mem_singleton.mp hother, hname]
      exact fun hsame => h.missing hown file hfile (List.mem_singleton.mpr hsame)
    case origin =>
      intro file hfile
      cases List.mem_append.mp hfile with
      | inl hfile => exact hreplaced.origin file hfile
      | inr hfile =>
        rw [List.mem_singleton.mp hfile]
        exact Or.inr ⟨part, List.mem_append_right _ (List.mem_singleton.mpr rfl), hname.symm,
          hsize.symm⟩

/-- One round of the loop over the parts. -/
theorem write_part_safe {part : UploadPartRow} {id : String} {blobs : List (String × String)}
    {written_at : Moment}
    (h : Writing project_id snapshot_id target done [] held pending d) (project : String) :
    Safe (OthersFinalize project_id snapshot_id)
      (fun _ => Writing project_id snapshot_id target (done ++ [part]) [])
      (write_part project target blobs written_at (part, id)) held pending d := by
  have hreplace : ∀ {pending d}, Writing project_id snapshot_id target done [] held pending d →
      Safe (OthersFinalize project_id snapshot_id)
        (fun _ => Writing project_id snapshot_id target (done ++ [part]) [])
        (do
          execute fun view db => delete_name target part.logical_filename view db
          add_file (part.file id target project written_at)) held pending d := by
    intro pending d h
    unfold add_file add_row
    refine Safe.execute_bind fun d₁ hd₁ => Safe.acquire_bind fun d₂ hd₂ => Safe.select_bind
      fun d₃ hd₃ => Safe.raiseIf_bind fun hunused => Safe.execute fun d₄ d₅ hd₄ hd₅ => ?_
    have hdeleted := (((h.rely hd₁).delete part).rely hd₂).acquire.rely hd₃
    refine (hdeleted.rely hd₄).insert rfl rfl rfl ?_ ?_ |>.rely hd₅
    · exact List.mem_cons_self
    · intro hown e he
      have hsince := others_finalize_rely.trans _ _ _ _ hd₄ he
      exact (hdeleted.settled hown).unused d₃ e (others_finalize_rely.refl _ _) hsince _
        (hsince.identifier _ List.mem_cons_self) (Option.not_isSome_iff_eq_none.mp hunused)
  unfold write_part
  refine Safe.orRaise_bind fun path _ => Safe.select_bind fun d₁ hd₁ => Safe.whenever_bind
    (fun _ => Safe.execute_bind fun d₂ hd₂ => ?_) fun _ => hreplace (h.rely hd₁)
  exact hreplace (((h.rely hd₁).rely hd₂).elsewhere (fun _ => rfl) (fun _ => rfl) fun _ => rfl)

/-- The loop over the parts. -/
theorem write_parts_safe (h : Writing project_id snapshot_id target done [] held pending d)
    (project : String) (blobs : List (String × String)) (written_at : Moment)
    (items : List (UploadPartRow × String)) :
    Safe (OthersFinalize project_id snapshot_id)
      (fun _ => Writing project_id snapshot_id target (done ++ items.map (·.1)) [])
      (forEach (write_part project target blobs written_at) items) held pending d := by
  induction items generalizing done held pending d with
  | nil =>
    rw [List.map_nil, List.append_nil]
    exact fun d' hd => h.rely hd
  | cons item items ih =>
    refine Safe.bind others_finalize_rely (write_part_safe h project) fun _ held pending d h => ?_
    rw [List.map_cons, List.append_cons]
    exact ih h

/-- Marking the session as finalized writes no file. -/
theorem close_safe {p : UploadSessionRow → Bool}
    (h : Writing project_id snapshot_id target done absent held pending d) :
    Safe (OthersFinalize project_id snapshot_id)
      (fun _ => Writing project_id snapshot_id target done absent)
      (update_uploads p (fun row => { row with state := .finalized }) (fun _ => rfl))
      held pending d := by
  refine Safe.execute fun d₁ d₂ hd₁ hd₂ => ((h.rely hd₁).elsewhere ?_ ?_ ?_).rely hd₂
  · exact fun _ => rfl
  · intro e
    apply declared_update
    exact fun _ => rfl
  · exact fun _ => rfl

theorem touch_safe {id : String} {updated_at : Moment}
    (h : Writing project_id snapshot_id target done absent held pending d) :
    Safe (OthersFinalize project_id snapshot_id)
      (fun _ => Writing project_id snapshot_id target done absent)
      (update_project id (fun row => { row with updated_at := updated_at }) (fun _ => rfl))
      held pending d := by
  refine Safe.execute fun d₁ d₂ hd₁ hd₂ => ((h.rely hd₁).elsewhere ?_ ?_ ?_).rely hd₂
  · exact fun _ => rfl
  · exact fun _ => rfl
  · exact fun _ => rfl

end lagraph.registry
