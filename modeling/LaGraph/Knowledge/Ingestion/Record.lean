import LaGraph.Knowledge.Ingestion.Activate

open foundation foundation.Faulty

namespace lagraph.knowledge

section

variable {write : ManifestWrite} {version : String} {value : Manifest} {fates : Stage → Fate}
  {w : World}

/-- The steps of an activation after the link is replaced. -/
def SETTLE_STAGES : List Stage := [.fsync_active, .unlink_temporary]

/-- The new link stays although the manifest that names it was never stored: a
step of the activation failed behind it, or the manifest write failed and the
former link was not restored. -/
def LinkLeft (write : ManifestWrite) (fates : Stage → Fate) : Prop :=
  through fates SETTLE_STAGES ≠ .passes ∨
    fates (.replace_manifest write) ≠ .passes ∧
      (fates (.replace_manifest write) = .dies ∨ fates .restore_active ≠ .passes)

/-- The former link is restored after a failed manifest write; the flag tells
whether the manifest was stored all the same. -/
def LinkRestored (write : ManifestWrite) (fates : Stage → Fate) (stored : Bool) : Prop :=
  through fates SETTLE_STAGES = .passes ∧ fates .restore_active = .passes ∧
    (stored = false ∧ fates (.replace_manifest write) = .raises ∨
      stored = true ∧ fates (.replace_manifest write) = .passes ∧
        fates (.fsync_manifest write) = .raises)

/-- The link is new and the manifest that names it is stored. -/
def LinkRecorded (write : ManifestWrite) (fates : Stage → Fate) : Prop :=
  through fates SETTLE_STAGES = .passes ∧ fates (.replace_manifest write) = .passes ∧
    (fates (.fsync_manifest write) ≠ .raises ∨ fates .restore_active ≠ .passes)

theorem LinkLeft.not_recorded (h : LinkLeft write fates) : ¬ LinkRecorded write fates := by
  intro hrecorded
  cases h with
  | inl hsettle => exact hsettle hrecorded.1
  | inr hwrite => exact hwrite.1 hrecorded.2.1

theorem LinkLeft.not_restored {stored : Bool} (h : LinkLeft write fates) :
    ¬ LinkRestored write fates stored := by
  intro hrestored
  obtain ⟨hsettled, hrestore, hwrite⟩ := hrestored
  rcases h with hsettle | ⟨hreplace, hdies | hnot⟩
  · exact hsettle hsettled
  · rcases hwrite with ⟨-, hraises⟩ | ⟨-, hpasses, -⟩
    · simp [hraises] at hdies
    · exact hreplace hpasses
  · exact hnot hrestore

theorem LinkRestored.not_recorded {stored : Bool} (h : LinkRestored write fates stored) :
    ¬ LinkRecorded write fates := by
  intro hrecorded
  obtain ⟨-, hrestore, hwrite⟩ := h
  obtain ⟨-, hreplace, hsync⟩ := hrecorded
  rcases hwrite with ⟨-, hraises⟩ | ⟨-, -, hraises⟩
  · simp [hraises] at hreplace
  · cases hsync with
    | inl hne => exact hne hraises
    | inr hnot => exact hnot hrestore

theorem LinkRestored.unique {stored stored' : Bool} (h : LinkRestored write fates stored)
    (h' : LinkRestored write fates stored') : stored = stored' := by
  rcases h.2.2 with ⟨hstored, hreplace⟩ | ⟨hstored, hreplace, -⟩
  · rcases h'.2.2 with ⟨hstored', -⟩ | ⟨-, hreplace', -⟩
    · rw [hstored, hstored']
    · simp [hreplace] at hreplace'
  · rcases h'.2.2 with ⟨-, hreplace'⟩ | ⟨hstored', -⟩
    · simp [hreplace] at hreplace'
    · rw [hstored, hstored']

/-- The world with `active` pointing at a version that the manifest names. -/
def World.recorded (w : World) (version : String) (value : Manifest) : World :=
  { w.linked version with stored_manifest := some value }

/-- The world with `active` put back to its former target. -/
def World.reverted (w : World) (stored : Option Manifest) : World :=
  { w with active := (active_target w).elim .absent .link, stored_manifest := stored }

/-- The ways an activation with its manifest ends. -/
inductive RecordEnd (write : ManifestWrite) (version : String) (value : Manifest)
    (fates : Stage → Fate) (w : World) : Outcome Failure Unit → World → Prop
  | refused {o : Outcome Failure Unit} (hstopped : Stopped o)
      (hnot : ¬ Switches version fates w) : RecordEnd write version value fates w o w
  | left {o : Outcome Failure Unit} (hstopped : Stopped o)
      (hswitches : Switches version fates w) (hleft : LinkLeft write fates) :
      RecordEnd write version value fates w o (w.linked version)
  | restored {o : Outcome Failure Unit} (stored : Bool) (hstopped : Stopped o)
      (hswitches : Switches version fates w) (hrestored : LinkRestored write fates stored)
      (hdied : o = .died → fates .fsync_restored = .dies) :
      RecordEnd write version value fates w o
        (w.reverted (if stored then some value else w.stored_manifest))
  | unsynced {o : Outcome Failure Unit} (hstopped : Stopped o)
      (hswitches : Switches version fates w) (hrecorded : LinkRecorded write fates)
      (hsync : fates (.fsync_manifest write) ≠ .passes)
      (hraised : (∃ error, o = .raised error) ↔
        fates (.fsync_manifest write) = .raises ∧ fates .restore_active = .raises) :
      RecordEnd write version value fates w o (w.recorded version value)
  | recorded (hswitches : Switches version fates w) (hrecorded : LinkRecorded write fates)
      (hsync : fates (.fsync_manifest write) = .passes) :
      RecordEnd write version value fates w (.returned ()) (w.recorded version value)

/-- The undo of an activation whose manifest write raised before the
replacement. -/
theorem undo_unwritten_spec {error : Failure} (hswitches : Switches version fates w)
    (hsettled : through fates SETTLE_STAGES = .passes)
    (hwrite : fates (.replace_manifest write) = .raises) :
    wp (do
      restore_active (active_target w)
      raise error) fates (RecordEnd write version value fates w) (w.linked version) := by
  have hend {o o' : Outcome Failure Unit} {w' : World}
      (h : RestoreEnd (active_target w) fates (w.linked version) o w')
      (ho' : Stopped o') (hdied : o' = .died → o = .died) :
      RecordEnd write version value fates w o' w' := by
    cases h with
    | kept hrestore _ =>
      exact .left ho' hswitches (Or.inr ⟨by simp [hwrite], Or.inr hrestore⟩)
    | restored hrestore ho =>
      refine .restored false ho' hswitches ⟨hsettled, hrestore, Or.inl ⟨rfl, hwrite⟩⟩ fun h => ?_
      rw [hdied h] at ho
      exact ho.died
  exact wp_bind_of restore_active_spec (fun _ _ h => hend h stopped_raised (fun h => by cases h))
    (fun _ _ h => hend h stopped_raised (fun h => by cases h))
    (fun _ h => hend h stopped_died (fun _ => rfl))

/-- The undo of an activation whose manifest was stored before its write
raised. -/
theorem undo_written_spec {error : Failure} (hswitches : Switches version fates w)
    (hsettled : through fates SETTLE_STAGES = .passes)
    (hwrite : fates (.replace_manifest write) = .passes)
    (hsync : fates (.fsync_manifest write) = .raises) :
    wp (do
      restore_active (active_target w)
      raise error) fates (RecordEnd write version value fates w) (w.recorded version value) := by
  have hend {o o' : Outcome Failure Unit} {w' : World}
      (h : RestoreEnd (active_target w) fates (w.recorded version value) o w')
      (ho' : Stopped o') (hdied : o' = .died → o = .died)
      (hraised : Stopped o → ((∃ error, o' = .raised error) ↔ ∃ error, o = .raised error)) :
      RecordEnd write version value fates w o' w' := by
    cases h with
    | kept hrestore ho =>
      refine .unsynced ho' hswitches ⟨hsettled, hwrite, Or.inr hrestore⟩ (by simp [hsync]) ?_
      rw [hraised (ho.stopped hrestore), ho.raised_iff]
      simp [hsync]
    | restored hrestore ho =>
      refine .restored true ho' hswitches ⟨hsettled, hrestore, Or.inr ⟨rfl, hwrite, hsync⟩⟩
        fun h => ?_
      rw [hdied h] at ho
      exact ho.died
  exact wp_bind_of restore_active_spec
    (fun a _ h => hend h stopped_raised (fun h => by cases h)
      fun hstopped => absurd rfl (hstopped a))
    (fun _ _ h => hend h stopped_raised (fun h => by cases h) fun _ => Iff.of_eq (by simp))
    (fun _ h => hend h stopped_died (fun _ => rfl) fun _ => Iff.of_eq (by simp))

/-- The manifest write of an activation, with its undo. -/
theorem write_or_undo_spec (hswitches : Switches version fates w)
    (hsettled : through fates SETTLE_STAGES = .passes) :
    wp (recover (write_manifest write value) (fun error => do
      restore_active (active_target w)
      raise error)) fates (RecordEnd write version value fates w) (w.linked version) := by
  refine wp_recover_of write_manifest_spec (fun _ w' hend => ?_) (fun error w' hend => ?_)
    (fun w' hend => ?_)
  · cases hend with
    | kept hreplace ho => exact absurd ho.returned hreplace
    | stored hreplace ho =>
      exact .recorded hswitches ⟨hsettled, hreplace, Or.inl (by simp [ho.returned])⟩ ho.returned
  · cases hend with
    | kept _ ho => exact undo_unwritten_spec hswitches hsettled ho.raised
    | stored hreplace ho => exact undo_written_spec hswitches hsettled hreplace ho.raised
  · cases hend with
    | kept hreplace ho =>
      exact .left stopped_died hswitches (Or.inr ⟨hreplace, Or.inl ho.died⟩)
    | stored hreplace ho =>
      refine .unsynced stopped_died hswitches
        ⟨hsettled, hreplace, Or.inl (by simp [ho.died])⟩ (by simp [ho.died]) ?_
      simp [ho.died]

theorem activate_and_record_spec :
    wp (activate_and_record write version value) fates
      (RecordEnd write version value fates w) w := by
  unfold activate_and_record
  rw [wp_read_bind]
  refine wp_bind_of activate_spec (fun _ w' hend => ?_) (fun error w' hend => ?_)
    (fun w' hend => ?_)
  · cases hend with
    | refused hstopped _ => exact absurd rfl (hstopped ())
    | unsettled hstopped _ _ => exact absurd rfl (hstopped ())
    | activated hswitches hsettled => exact write_or_undo_spec hswitches hsettled
  · cases hend with
    | refused hstopped hnot => exact .refused hstopped hnot
    | unsettled hstopped hswitches hnot => exact .left hstopped hswitches (Or.inl hnot)
  · cases hend with
    | refused hstopped hnot => exact .refused hstopped hnot
    | unsettled hstopped hswitches hnot => exact .left hstopped hswitches (Or.inl hnot)

end

variable {fates : Stage → Fate} {w : World}

/-- The manifest offers a version to roll back to. -/
structure RollsBackTo (w : World) (old : Manifest) (previous : String) : Prop where
  manifest : manifest w = some old
  previous : python_or old.previousGraphVersion none = some previous

/-- Everything a rollback can leave behind: it is refused, or it attempts to
activate the previous version. -/
inductive RolledBack (fates : Stage → Fate) (w : World) : World → Prop
  | refused (hnot : ∀ old previous, RollsBackTo w old previous → ¬ Switches previous fates w) :
      RolledBack fates w w
  | attempted {o : Outcome Failure Unit} {w' : World} {old : Manifest} {previous : String}
      (hto : RollsBackTo w old previous)
      (hend : RecordEnd .rolled_back previous (old.rolled_back previous) fates w o w') :
      RolledBack fates w w'

theorem RollsBackTo.unique {old old' : Manifest} {previous previous' : String}
    (h : RollsBackTo w old previous) (h' : RollsBackTo w old' previous') :
    old = old' ∧ previous = previous' := by
  have hold : old = old' := Option.some.inj (h.manifest.symm.trans h'.manifest)
  subst hold
  exact ⟨rfl, Option.some.inj (h.previous.symm.trans h'.previous)⟩

theorem rollback_spec : wp rollback fates (fun _ w' => RolledBack fates w w') w := by
  unfold rollback
  rw [wp_read_bind]
  cases hold : manifest w with
  | none =>
    refine .refused fun old previous hto => ?_
    rw [hto.manifest] at hold
    cases hold
  | some old =>
    rw [Option.bind_some]
    cases hprevious : python_or old.previousGraphVersion none with
    | none =>
      refine .refused fun old' previous hto => ?_
      obtain rfl : old' = old := Option.some.inj (hto.manifest.symm.trans hold)
      rw [hto.previous] at hprevious
      cases hprevious
    | some previous =>
      have hto : RollsBackTo w old previous := ⟨hold, hprevious⟩
      cases hnamed : version_named w previous with
      | none =>
        simp only [hnamed, wp_raise]
        refine .refused fun old' previous' hto' hswitches => ?_
        obtain ⟨-, rfl⟩ := hto.unique hto'
        obtain ⟨entry, counts, hentry, -⟩ := hswitches.1.1
        rw [hnamed] at hentry
        cases hentry
      | some target =>
        simp only [hnamed]
        refine wp_ofExcept_bind (fun counts hvalid => ?_) (fun error hinvalid => ?_)
        · exact wp_bind_of activate_and_record_spec (fun _ _ hend => .attempted hto hend)
            (fun _ _ hend => .attempted hto hend) (fun _ hend => .attempted hto hend)
        · refine .refused fun old' previous' hto' hswitches => ?_
          obtain ⟨-, rfl⟩ := hto.unique hto'
          obtain ⟨entry, counts, hentry, hvalid⟩ := hswitches.1.1
          rw [hnamed, Option.some.injEq] at hentry
          subst hentry
          rw [hinvalid] at hvalid
          cases hvalid

end lagraph.knowledge
