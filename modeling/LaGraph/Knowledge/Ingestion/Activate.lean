import LaGraph.Knowledge.Ingestion

open foundation foundation.Faulty

namespace lagraph.knowledge

variable {fates : Stage → Fate} {w : World}

/-- The ways a manifest write ends: before the replacement, or after it. -/
inductive WriteEnd (write : ManifestWrite) (value : Manifest) (fates : Stage → Fate) (w : World) :
    Outcome Failure Unit → World → Prop
  | kept {o : Outcome Failure Unit} (hreplace : fates (.replace_manifest write) ≠ .passes)
      (ho : Follows (fates (.replace_manifest write)) o) : WriteEnd write value fates w o w
  | stored {o : Outcome Failure Unit} (hreplace : fates (.replace_manifest write) = .passes)
      (ho : Follows (fates (.fsync_manifest write)) o) :
      WriteEnd write value fates w o { w with stored_manifest := some value }

theorem write_manifest_spec {write : ManifestWrite} {value : Manifest} :
    wp (write_manifest write value) fates (WriteEnd write value fates w) w := by
  refine wp_step_bind_follows (fun hreplace => ?_) (fun hreplace o ho => .kept hreplace ho)
  rw [wp_change_bind]
  exact wp_step_follows fun o ho => .stored hreplace ho

/-- The world with `active` pointing at a version. -/
def World.linked (w : World) (version : String) : World :=
  { w with active := .link ["versions", version] }

/-- The version can be activated: it is there with a valid graph, and `active` is
no file or directory of its own. -/
def Activatable (w : World) (version : String) : Prop :=
  (∃ entry counts, version_named w version = some entry ∧
    validate_graph entry.graph = .ok counts) ∧ w.active ≠ .occupied

/-- The activation gets as far as replacing the link. -/
def Switches (version : String) (fates : Stage → Fate) (w : World) : Prop :=
  Activatable w version ∧ through fates [.make_link, .replace_active] = .passes

/-- The ways an activation ends: the link is not replaced, it is replaced and a
later step fails, or all is well. -/
inductive ActivateEnd (version : String) (fates : Stage → Fate) (w : World) :
    Outcome Failure Unit → World → Prop
  | refused {o : Outcome Failure Unit} (hstopped : Stopped o)
      (hnot : ¬ Switches version fates w) : ActivateEnd version fates w o w
  | unsettled {o : Outcome Failure Unit} (hstopped : Stopped o)
      (hswitches : Switches version fates w)
      (hnot : through fates [.fsync_active, .unlink_temporary] ≠ .passes) :
      ActivateEnd version fates w o (w.linked version)
  | activated (hswitches : Switches version fates w)
      (hsettled : through fates [.fsync_active, .unlink_temporary] = .passes) :
      ActivateEnd version fates w (.returned ()) (w.linked version)

/-- The ways replacing the link ends before the temporary one is cleaned up. -/
inductive LinkEnd (version : String) (fates : Stage → Fate) (w : World) :
    Outcome Failure Unit → World → Prop
  | kept {o : Outcome Failure Unit} (hstopped : Stopped o)
      (hnot : through fates [.make_link, .replace_active] ≠ .passes) : LinkEnd version fates w o w
  | replaced {o : Outcome Failure Unit}
      (hreplaced : through fates [.make_link, .replace_active] = .passes)
      (ho : Follows (fates .fsync_active) o) : LinkEnd version fates w o (w.linked version)

theorem replace_link_spec {version : String} (hactivatable : Activatable w version) :
    wp (replace_link version) fates (ActivateEnd version fates w) w := by
  have hlink : wp (do
      step .make_link .OSError
      step .replace_active .OSError
      change fun w => { w with active := .link ["versions", version] }
      step .fsync_active .OSError : Action Unit) fates (LinkEnd version fates w) w := by
    refine wp_step_bind (fun hmake => ?_) (fun h o ho => .kept ho ?_)
    · refine wp_step_bind (fun hreplace => ?_) (fun h o ho => .kept ho ?_)
      · rw [wp_change_bind]
        refine wp_step_follows fun o ho => .replaced ?_ ho
        rw [through_cons_of_passes hmake, through_cons_of_passes hreplace, through_nil]
      · rwa [through_cons_of_passes hmake, through_cons_of_not_passes h]
    · rwa [through_cons_of_not_passes h]
  refine wp_always_step hlink (fun hunlink o w' hend => ?_) (fun hunlink o w' hend o' ho' => ?_)
  · cases hend with
    | kept hstopped hnot => exact .refused hstopped fun hswitches => hnot hswitches.2
    | replaced hreplaced ho =>
      by_cases hsync : fates .fsync_active = .passes
      · cases o with
        | returned _ =>
          refine .activated ⟨hactivatable, hreplaced⟩ ?_
          rw [through_cons_of_passes hsync, through_cons_of_passes hunlink, through_nil]
        | raised e => exact absurd (ho.raised.symm.trans hsync) (by decide)
        | died => exact absurd (ho.died.symm.trans hsync) (by decide)
      · refine .unsettled (ho.stopped hsync) ⟨hactivatable, hreplaced⟩ ?_
        rwa [through_cons_of_not_passes hsync]
  · cases hend with
    | kept hstopped hnot => exact .refused ho' fun hswitches => hnot hswitches.2
    | replaced hreplaced ho =>
      refine .unsettled ho' ⟨hactivatable, hreplaced⟩ fun hsettled => hunlink ?_
      exact through_eq_passes.mp hsettled _ (by simp)

theorem activate_spec {version : String} :
    wp (activate version) fates (ActivateEnd version fates w) w := by
  unfold activate
  rw [wp_read_bind]
  cases hnamed : version_named w version with
  | none =>
    refine .refused stopped_raised fun hswitches => ?_
    obtain ⟨entry, counts, hentry, -⟩ := hswitches.1.1
    rw [hnamed] at hentry
    cases hentry
  | some entry =>
    refine wp_ofExcept_bind (fun counts hvalid => ?_) (fun error hinvalid => ?_)
    · refine wp_raiseIf_bind (fun hfree => ?_) (fun hoccupied => ?_)
      · exact replace_link_spec ⟨⟨entry, counts, hnamed, hvalid⟩, hfree⟩
      · exact .refused stopped_raised fun hswitches => hswitches.1.2 hoccupied
    · refine .refused stopped_raised fun hswitches => ?_
      obtain ⟨other, counts, hother, hvalid⟩ := hswitches.1.1
      rw [hnamed] at hother
      cases hother
      rw [hinvalid] at hvalid
      cases hvalid

/-- The ways a restoration ends. -/
inductive RestoreEnd (target : Option (List String)) (fates : Stage → Fate) (w : World) :
    Outcome Failure Unit → World → Prop
  | kept {o : Outcome Failure Unit} (hrestore : fates .restore_active ≠ .passes)
      (ho : Follows (fates .restore_active) o) : RestoreEnd target fates w o w
  | restored {o : Outcome Failure Unit} (hrestore : fates .restore_active = .passes)
      (ho : Follows (fates .fsync_restored) o) :
      RestoreEnd target fates w o { w with active := target.elim .absent .link }

theorem restore_active_spec {target : Option (List String)} :
    wp (restore_active target) fates (RestoreEnd target fates w) w := by
  refine wp_step_bind_follows (fun hrestore => ?_) (fun hrestore o ho => .kept hrestore ho)
  rw [wp_change_bind]
  exact wp_step_follows fun o ho => .restored hrestore ho

end lagraph.knowledge
