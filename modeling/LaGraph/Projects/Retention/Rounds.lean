import LaGraph.Projects.Retention.Steps

open foundation foundation.Faulty

namespace lagraph.registry

variable {enforced : Bool} {retention now : Moment} {s s' s'' : Stores} {p q : String}
  {fates : String × PurgeStage → Fate} {becomes : String → ProjectRow → Option ProjectRow}
  {row : String → Option ProjectRow}

/-- The projects that a round comes to: nobody before them is refused or fails. -/
def reaches (retention now : Moment) (fates : String × PurgeStage → Fate)
    (row : String → Option ProjectRow) : List String → String → Bool
  | [], _ => false
  | q :: rest, p =>
    q = p || (!refuses retention now (row q) && all_pass fates q) &&
      reaches retention now fates row rest p

/-- The rows of projects in their turns. -/
def rows_in_turn (becomes : String → ProjectRow → Option ProjectRow) (db : Database)
    (p : String) : Option ProjectRow :=
  (db.projects.get p).bind (becomes p)

theorem meanwhile_same (hne : q ≠ p) {f : ProjectRow → Option ProjectRow} :
    Same q s { s with db := s.db.meanwhile p f } :=
  ⟨get_meanwhile_other hne, rfl, Iff.rfl⟩

theorem turn_same (hne : q ≠ p) :
    wp (turn enforced retention now becomes p) fates (fun _ s' => Same q s s') s := by
  unfold turn
  rw [wp_change_bind]
  exact wp_mono (purge_same hne) fun _ _ hsame => (meanwhile_same hne).trans hsame

/-- What is left of a project does not depend on its row before. -/
theorem PurgedAs.of_kept (h : PurgedAs retention now fates p s s'')
    (hconversations : s.conversations_of p = s'.conversations_of p)
    (hdirectory : p ∈ s.directories ↔ p ∈ s'.directories) :
    PurgedAs retention now fates p s' s'' := by
  cases h with
  | due hrows hdue => exact .due hrows hdue
  | rows_gone hrows hfails hgone hkept hdir =>
    exact .rows_gone hrows hfails hgone (hkept.trans hconversations) (hdir.trans hdirectory)
  | conversations_gone hrows hpass hfails hgone hnone hdir =>
    exact .conversations_gone hrows hpass hfails hgone hnone (hdir.trans hdirectory)
  | gone hall hgone => exact .gone hall hgone

theorem PurgedAs.same (h : PurgedAs retention now fates p s s')
    (hsame : Same p s' s'') : PurgedAs retention now fates p s s'' := by
  cases h with
  | due hrows hdue => exact .due hrows (hsame.row ▸ hdue)
  | rows_gone hrows hfails hgone hconversations hdirectory =>
    exact .rows_gone hrows hfails (hsame.row.trans hgone)
      (hsame.conversations.trans hconversations) (hsame.directory.trans hdirectory)
  | conversations_gone hrows hpass hfails hgone hnone hdirectory =>
    exact .conversations_gone hrows hpass hfails (hsame.row.trans hgone)
      (hsame.conversations.trans hnone) (hsame.directory.trans hdirectory)
  | gone hall hgone => exact .gone hall (hsame.gone.mpr hgone)

/-- The turn of a project that is due then. -/
theorem turn_due (hdue : refuses retention now (rows_in_turn becomes s.db p) = false)
    (hname : is_entry_name p = true) :
    wp (turn enforced retention now becomes p) fates (fun o s' =>
      PurgedAs retention now fates p s s' ∧ (all_pass fates p = true → o = .returned ()) ∧
        (all_pass fates p = false → Stopped o)) s := by
  unfold turn
  rw [wp_change_bind]
  refine wp_mono (purge_due ?_ hname) fun _ _ h => ⟨h.1.of_kept rfl Iff.rfl, h.2⟩
  rw [refuses_meanwhile]
  exact hdue

theorem turn_refused (hrefused : refuses retention now (rows_in_turn becomes s.db p) = true) :
    wp (turn enforced retention now becomes p) fates (fun o _ => Stopped o) s := by
  unfold turn
  rw [wp_change_bind]
  refine wp_mono (purge_refused ?_) fun _ _ h => h.2
  rw [refuses_meanwhile]
  exact hrefused

/-- Turns of others change nothing of a project. -/
theorem turns_same {listed : List String} (hp : p ∉ listed) :
    wp (forEach (turn enforced retention now becomes) listed) fates (fun _ s' => Same p s s') s := by
  induction listed generalizing s with
  | nil => exact Same.refl p s
  | cons q rest ih =>
    rw [List.mem_cons, not_or] at hp
    refine wp_bind_of (turn_same hp.1) (fun _ s₁ hsame => ?_) (fun _ _ hsame => hsame)
      fun _ hsame => hsame
    exact wp_mono (ih hp.2) fun _ _ hrest => hsame.trans hrest

/-- What a round leaves of a listed project: nothing is done to it unless the round comes
to it, and then what its own purge does. -/
theorem turns_leave {listed : List String} (hlisted : listed.Nodup)
    (hnames : ∀ q ∈ listed, is_entry_name q = true)
    (hrows : ∀ q ∈ listed, rows_in_turn becomes s.db q = row q) (hp : p ∈ listed)
    (hdue : refuses retention now (row p) = false) :
    wp (forEach (turn enforced retention now becomes) listed) fates (fun _ s' =>
      (reaches retention now fates row listed p = false ∧ Same p s s') ∨
        (reaches retention now fates row listed p = true ∧ PurgedAs retention now fates p s s')) s := by
  induction listed generalizing s with
  | nil => cases hp
  | cons q rest ih =>
    obtain ⟨hq, hrest⟩ := List.nodup_cons.mp hlisted
    by_cases hqp : q = p
    · -- its own turn, and then the turns of others
      rw [hqp] at hq
      have hreached : reaches retention now fates row (q :: rest) p = true := by
        simp [reaches, hqp]
      have hturn := @turn_due enforced retention now s p fates becomes
        (by rw [hrows p (hqp ▸ List.mem_cons_self)]; exact hdue)
        (hnames p (hqp ▸ List.mem_cons_self))
      rw [hqp] at hreached ⊢
      refine wp_bind_of hturn (fun _ s₁ h => ?_) (fun _ _ h => Or.inr ⟨hreached, h.1⟩)
        fun _ h => Or.inr ⟨hreached, h.1⟩
      exact wp_mono (turns_same hq) fun _ _ hsame => Or.inr ⟨hreached, h.1.same hsame⟩
    · have hp' : p ∈ rest := (List.mem_cons.mp hp).resolve_left fun h => hqp h.symm
      have hstopped : (!refuses retention now (row q) && all_pass fates q) = false →
          wp (turn enforced retention now becomes q) fates (fun o _ => Stopped o) s := by
        intro hfails
        cases hrefuses : refuses retention now (row q) with
        | true =>
          refine turn_refused ?_
          rw [hrows q List.mem_cons_self]
          exact hrefuses
        | false =>
          rw [hrefuses, Bool.not_false, Bool.true_and] at hfails
          refine wp_mono (turn_due ?_ (hnames q List.mem_cons_self)) fun _ _ h => h.2.2 hfails
          rw [hrows q List.mem_cons_self]
          exact hrefuses
      cases hpass : !refuses retention now (row q) && all_pass fates q with
      | false =>
        have hreached : reaches retention now fates row (q :: rest) p = false := by
          simp [reaches, hqp, hpass]
        have hboth : wp (turn enforced retention now becomes q) fates
            (fun o s' => Stopped o ∧ Same p s s') s :=
          ⟨hstopped hpass, turn_same fun h => hqp h.symm⟩
        refine wp_bind_of hboth (fun _ _ h => absurd rfl (h.1 _))
          (fun _ _ h => Or.inl ⟨hreached, h.2⟩) fun _ h => Or.inl ⟨hreached, h.2⟩
      | true =>
        have hreached : reaches retention now fates row (q :: rest) p =
            reaches retention now fates row rest p := by
          simp [reaches, hqp, hpass]
        rw [Bool.and_eq_true, Bool.not_eq_true'] at hpass
        have hrow : refuses retention now (rows_in_turn becomes s.db q) = false := by
          rw [hrows q List.mem_cons_self]
          exact hpass.1
        have hreturns : wp (turn enforced retention now becomes q) fates
            (fun o _ => o = .returned ()) s :=
          wp_mono (turn_due hrow (hnames q List.mem_cons_self)) fun _ _ h => h.2.1 hpass.2
        have hkept : ∀ r, r ≠ q →
            wp (turn enforced retention now becomes q) fates (fun _ s' => Same r s s') s :=
          fun _ hne => turn_same hne
        have hboth : wp (turn enforced retention now becomes q) fates
            (fun o s' => o = .returned () ∧ ∀ r, r ≠ q → Same r s s') s :=
          ⟨hreturns, hkept⟩
        rw [hreached]
        refine wp_bind_of hboth (fun _ s₁ h => ?_) (fun _ _ h => ?_) fun _ h => ?_
        · have hsame : Same p s s₁ := h.2 p fun heq => hqp heq.symm
          have hrows₁ : ∀ r ∈ rest, rows_in_turn becomes s₁.db r = row r := by
            intro r hr
            have hne : r ≠ q := fun heq => hq (heq ▸ hr)
            rw [rows_in_turn, (h.2 r hne).row]
            exact hrows r (List.mem_cons_of_mem _ hr)
          refine wp_mono (ih hrest (fun r hr => hnames r (List.mem_cons_of_mem _ hr)) hrows₁ hp')
            fun _ s₂ hleft => ?_
          rcases hleft with ⟨hno, hsame₂⟩ | ⟨hyes, hpurged⟩
          · exact Or.inl ⟨hno, hsame.trans hsame₂⟩
          · exact Or.inr ⟨hyes, hpurged.of_kept hsame.conversations hsame.directory⟩
        · cases h.1
        · cases h.1

end lagraph.registry
