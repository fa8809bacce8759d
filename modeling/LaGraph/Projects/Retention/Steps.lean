import LaGraph.Foundation.Transactions.Alone
import LaGraph.Projects.Retention

open foundation foundation.Faulty

namespace lagraph.registry

variable {enforced : Bool} {retention now : Moment} {s s' s'' : Stores} {p q : String}
  {db db' : Database} {fates : String × PurgeStage → Fate}
  {becomes : String → ProjectRow → Option ProjectRow}

/-- `purge_expired` refuses a project with that row, or without one. -/
def refuses (retention now : Moment) (row : Option ProjectRow) : Bool :=
  row.all fun row => row.state ≠ .archived || row.archived_at.all fun archived_at =>
    now < archived_at + retention

/-- The conversations of a project. -/
def Stores.conversations_of (s : Stores) (p : String) : List conversations.ConversationRow :=
  s.conversations.rows.filter (·.project_id = p)

/-- No row, no conversation and no directory of the project is left. -/
def Gone (p : String) (s : Stores) : Prop :=
  s.db.projects.get p = none ∧ s.conversations_of p = [] ∧ p ∉ s.directories

/-- What is kept of a project is the same. -/
structure Same (p : String) (s s' : Stores) : Prop where
  row : s'.db.projects.get p = s.db.projects.get p
  conversations : s'.conversations_of p = s.conversations_of p
  directory : p ∈ s'.directories ↔ p ∈ s.directories

theorem Same.refl (p : String) (s : Stores) : Same p s s :=
  ⟨rfl, rfl, Iff.rfl⟩

theorem Same.trans (h : Same p s s') (h' : Same p s' s'') : Same p s s'' :=
  ⟨h'.row.trans h.row, h'.conversations.trans h.conversations, h'.directory.trans h.directory⟩

theorem Same.gone (h : Same p s s') : Gone p s' ↔ Gone p s := by
  rw [Gone, Gone, h.row, h.conversations, h.directory]

section PurgeExpired

theorem purge_expired_error (h : refuses retention now (db.projects.get p) = true) :
    ∃ e, (purge_expired enforced p retention now).run db = .error e := by
  unfold purge_expired project_for_update
  simp only [Tx.bind_bind, Tx.run_acquire_bind, Tx.run_select_bind]
  cases hget : db.projects.get p with
  | none => exact ⟨_, rfl⟩
  | some project =>
    rw [hget, refuses, Option.all_some, Bool.or_eq_true] at h
    simp only [Tx.orRaise, Tx.run_ret_bind]
    cases harchived : project.archived_at with
    | none => exact ⟨_, rfl⟩
    | some archived_at =>
      simp only
      rw [Tx.run_raiseIf_bind, if_pos]
      · exact ⟨_, rfl⟩
      · simpa [harchived] using h

theorem purge_expired_ok (h : refuses retention now (db.projects.get p) = false) :
    ∃ db', (purge_expired enforced p retention now).run db = .ok ((), db') ∧
      db'.projects = db.projects.delete (·.id = p) := by
  unfold purge_expired project_for_update
  simp only [Tx.bind_bind, Tx.run_acquire_bind, Tx.run_select_bind]
  cases hget : db.projects.get p with
  | none =>
    rw [hget] at h
    cases h
  | some project =>
    rw [hget, refuses, Option.all_some, Bool.or_eq_false_iff] at h
    simp only [Tx.orRaise, Tx.run_ret_bind]
    cases harchived : project.archived_at with
    | none => simp [harchived] at h
    | some archived_at =>
      simp only
      rw [Tx.run_raiseIf_bind, if_neg]
      · refine ⟨_, rfl, ?_⟩
        cases enforced with
        | false => rfl
        | true => rfl
      · simpa [harchived] using h

theorem purged_rows_error (h : refuses retention now (db.projects.get p) = true) :
    ∃ e, purged_rows enforced retention now p db = .error e := by
  obtain ⟨e, hrun⟩ := @purge_expired_error enforced _ _ _ _ h
  rw [purged_rows, hrun]
  exact ⟨_, rfl⟩

theorem purged_rows_ok (h : refuses retention now (db.projects.get p) = false) :
    ∃ db', purged_rows enforced retention now p db = .ok db' ∧
      db'.projects = db.projects.delete (·.id = p) := by
  obtain ⟨db', hrun, hprojects⟩ := @purge_expired_ok enforced _ _ _ _ h
  rw [purged_rows, hrun]
  exact ⟨db', rfl, hprojects⟩

end PurgeExpired

theorem get_delete_self : (db.projects.delete (·.id = p)).get p = none := by
  rw [Table.get_delete]
  cases hget : db.projects.get p with
  | none => rfl
  | some row =>
    have hid : row.id = p := (Table.get_eq_some.mp hget).2
    simp [hid]

theorem get_delete_other (hne : q ≠ p) :
    (db.projects.delete (·.id = p)).get q = db.projects.get q := by
  rw [Table.get_delete]
  cases hget : db.projects.get q with
  | none => rfl
  | some row =>
    have hid : row.id = q := (Table.get_eq_some.mp hget).2
    simp [hid, hne]

theorem get_meanwhile_other {f : ProjectRow → Option ProjectRow} (hne : q ≠ p) :
    (db.meanwhile p f).projects.get q = db.projects.get q := by
  unfold Database.meanwhile
  split
  · exact get_delete_other hne
  · simp only
    rw [Table.get_update]
    cases hget : db.projects.get q with
    | none => rfl
    | some row =>
      have hid : row.id = q := (Table.get_eq_some.mp hget).2
      simp [hid, hne]

/-- A project's row in its turn is refused like what others make of it. -/
theorem refuses_meanwhile {f : ProjectRow → Option ProjectRow} :
    refuses retention now ((db.meanwhile p f).projects.get p) =
      refuses retention now ((db.projects.get p).bind f) := by
  unfold Database.meanwhile
  cases hbecomes : (db.projects.get p).bind f with
  | none => rw [get_delete_self]
  | some row =>
    obtain ⟨old, hget, -⟩ := Option.bind_eq_some_iff.mp hbecomes
    have hid : old.id = p := (Table.get_eq_some.mp hget).2
    simp only
    rw [Table.get_update, hget, Option.map_some, if_pos (by simp [hid])]
    rfl

/-- All the steps of a project's purge go through. -/
def all_pass (fates : String × PurgeStage → Fate) (p : String) : Bool :=
  fates (p, .rows) = .passes && fates (p, .conversations) = .passes &&
    fates (p, .storage) = .passes

/-- What a purge that is not refused leaves of its project, by the step that fails. -/
inductive PurgedAs (retention now : Moment) (fates : String × PurgeStage → Fate) (p : String)
    (s s' : Stores) : Prop
  | due (hrows : fates (p, .rows) ≠ .passes)
    (hdue : refuses retention now (s'.db.projects.get p) = false)
  | rows_gone (hrows : fates (p, .rows) = .passes) (hfails : fates (p, .conversations) ≠ .passes)
    (hgone : s'.db.projects.get p = none)
    (hconversations : s'.conversations_of p = s.conversations_of p)
    (hdirectory : p ∈ s'.directories ↔ p ∈ s.directories)
  | conversations_gone (hrows : fates (p, .rows) = .passes)
    (hconversations : fates (p, .conversations) = .passes)
    (hfails : fates (p, .storage) ≠ .passes) (hgone : s'.db.projects.get p = none)
    (hnone : s'.conversations_of p = []) (hdirectory : p ∈ s'.directories ↔ p ∈ s.directories)
  | gone (hall : all_pass fates p = true) (hgone : Gone p s')

theorem conversations_of_delete_self :
    ({ s with conversations := s.conversations.delete_project p } : Stores).conversations_of p =
      [] := by
  rw [Stores.conversations_of, conversations.Database.delete_project, List.filter_filter,
    List.filter_eq_nil_iff]
  simp

theorem conversations_of_delete_other (hne : q ≠ p) :
    ({ s with conversations := s.conversations.delete_project p } : Stores).conversations_of q =
      s.conversations_of q := by
  rw [Stores.conversations_of, conversations.Database.delete_project, List.filter_filter]
  refine List.filter_congr fun row _ => ?_
  by_cases hrow : row.project_id = q
  · simp [hrow, hne]
  · simp [hrow]

/-- A purge leaves other projects alone. -/
theorem purge_same (hne : q ≠ p) :
    wp (purge enforced retention now p) fates (fun _ s' => Same q s s') s := by
  unfold purge
  refine wp_step_bind (fun _ => ?_) fun _ _ _ => Same.refl q s
  rw [wp_read_bind]
  refine wp_ofExcept_bind (fun db hrows => ?_) fun _ _ => Same.refl q s
  have hprojects : db.projects.get q = s.db.projects.get q := by
    cases hrefuses : refuses retention now (s.db.projects.get p) with
    | true =>
      obtain ⟨e, herror⟩ := @purged_rows_error enforced _ _ _ _ hrefuses
      rw [herror] at hrows
      cases hrows
    | false =>
      obtain ⟨db', hok, hdeleted⟩ := @purged_rows_ok enforced _ _ _ _ hrefuses
      rw [hok] at hrows
      cases hrows
      rw [hdeleted, get_delete_other hne]
  have hfirst : Same q s { s with db } := ⟨hprojects, rfl, Iff.rfl⟩
  rw [wp_change_bind]
  refine wp_step_bind (fun _ => ?_) fun _ _ _ => hfirst
  have hsecond : Same q s { s with
      db, conversations := s.conversations.delete_project p } :=
    ⟨hprojects, conversations_of_delete_other hne, Iff.rfl⟩
  rw [wp_change_bind]
  refine wp_step_bind (fun _ => ?_) fun _ _ _ => hsecond
  refine wp_raiseIf_bind (fun _ => ?_) fun _ => hsecond
  rw [wp_change]
  refine ⟨hprojects, conversations_of_delete_other hne, ?_⟩
  simp [hne]

/-- A purge that is not refused. -/
theorem purge_due (hdue : refuses retention now (s.db.projects.get p) = false)
    (hname : is_entry_name p = true) :
    wp (purge enforced retention now p) fates (fun o s' =>
      PurgedAs retention now fates p s s' ∧ (all_pass fates p = true → o = .returned ()) ∧
        (all_pass fates p = false → Stopped o)) s := by
  obtain ⟨db, hok, hdeleted⟩ := @purged_rows_ok enforced _ _ _ _ hdue
  have hgone : db.projects.get p = none := by
    rw [hdeleted, get_delete_self]
  unfold purge
  refine wp_step_bind (fun hrows => ?_) fun hrows o ho => ?_
  · rw [wp_read_bind]
    refine wp_ofExcept_bind (fun db' hsome => ?_) fun e herror => ?_
    · rw [hok] at hsome
      cases hsome
      rw [wp_change_bind]
      refine wp_step_bind (fun hconversations => ?_) fun hconversations o ho => ?_
      · rw [wp_change_bind]
        refine wp_step_bind (fun hstorage => ?_) fun hstorage o ho => ?_
        · have hall : all_pass fates p = true := by
            simp [all_pass, hrows, hconversations, hstorage]
          refine wp_raiseIf_bind (fun _ => ?_) fun hbad => ?_
          · rw [wp_change]
            refine ⟨.gone hall ⟨hgone, conversations_of_delete_self, by simp⟩, fun _ => rfl, ?_⟩
            intro hfalse
            rw [hall] at hfalse
            cases hfalse
          · rw [hname] at hbad
            cases hbad
        · refine ⟨.conversations_gone hrows hconversations hstorage hgone
            conversations_of_delete_self Iff.rfl, fun hall => ?_, fun _ => ho⟩
          simp [all_pass, hstorage] at hall
      · refine ⟨.rows_gone hrows hconversations hgone rfl Iff.rfl, fun hall => ?_, fun _ => ho⟩
        simp [all_pass, hconversations] at hall
    · rw [hok] at herror
      cases herror
  · refine ⟨.due hrows hdue, fun hall => ?_, fun _ => ho⟩
    simp [all_pass, hrows] at hall

/-- A purge that is refused changes nothing. -/
theorem purge_refused (hrefused : refuses retention now (s.db.projects.get p) = true) :
    wp (purge enforced retention now p) fates (fun o s' => s' = s ∧ Stopped o) s := by
  obtain ⟨e, herror⟩ := @purged_rows_error enforced _ _ _ _ hrefused
  unfold purge
  refine wp_step_bind (fun _ => ?_) fun _ o ho => ⟨rfl, ho⟩
  rw [wp_read_bind]
  refine wp_ofExcept_bind (fun db hok => ?_) fun e' _ => ⟨rfl, stopped_raised⟩
  rw [herror] at hok
  cases hok

end lagraph.registry
