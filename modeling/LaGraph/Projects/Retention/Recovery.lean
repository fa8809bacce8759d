import LaGraph.Projects.Retention.Rounds

open foundation foundation.Faulty

namespace lagraph.registry

variable {enforced : Bool} {retention now now' : Moment} {s s' : Stores} {p q : String}
  {db : Database} {clock : Nat → Moment} {fates : String × PurgeStage → Fate}
  {becomes : String → ProjectRow → Option ProjectRow}

/-- The names of the projects are names of directories. -/
def Named (db : Database) : Prop :=
  ∀ row ∈ db.projects, is_entry_name row.id = true

/-- Some number of rounds in which nothing fails removes all of the project. -/
def Settles (enforced : Bool) (retention : Moment) (clock : Nat → Moment) (p : String)
    (s : Stores) : Prop :=
  ∃ n, Gone p (faultless_rounds enforced retention clock n s)

/-- The purge of the project fails when its row is gone and more of it is left. -/
def LeftBehind (fates : String × PurgeStage → Fate) (p : String) (s : Stores) : Prop :=
  fates (p, .rows) = .passes ∧
    (fates (p, .conversations) ≠ .passes ∧ (s.conversations_of p ≠ [] ∨ p ∈ s.directories) ∨
      fates (p, .conversations) = .passes ∧ fates (p, .storage) ≠ .passes ∧ p ∈ s.directories)

section Listing

theorem expired_projects_eq : expired_projects retention now db =
    (db.projects.rows.filter fun row => row.state = .archived && row.archived_at.any fun
      archived_at => archived_at + retention ≤ now).map (·.id) := rfl

theorem expired_projects_nodup : (expired_projects retention now db).Nodup := by
  rw [expired_projects_eq]
  exact (List.filter_sublist.map _).nodup db.projects.nodup

/-- The cleanup lists exactly the projects whose purge would not be refused. -/
theorem mem_expired_projects :
    p ∈ expired_projects retention now db ↔ refuses retention now (db.projects.get p) = false := by
  have hrow (row : ProjectRow) : refuses retention now (some row) = false ↔
      (row.state = .archived && row.archived_at.any fun archived_at =>
        archived_at + retention ≤ now) = true := by
    cases harchived : row.archived_at with
    | none => simp [refuses, harchived]
    | some archived_at => simp [refuses, harchived]
  rw [expired_projects_eq, List.mem_map]
  constructor
  · rintro ⟨row, hmem, rfl⟩
    rw [List.mem_filter] at hmem
    have hget : db.projects.get row.id = some row := Table.get_of_mem hmem.1
    rw [hget]
    exact (hrow row).mpr hmem.2
  · intro hdue
    cases hget : db.projects.get p with
    | none =>
      rw [hget] at hdue
      cases hdue
    | some row =>
      rw [hget] at hdue
      obtain ⟨hmem, hid⟩ := Table.get_eq_some.mp hget
      exact ⟨row, List.mem_filter.mpr ⟨hmem, (hrow row).mp hdue⟩, hid⟩

theorem Named.entry (hnames : Named db) (hdue : refuses retention now (db.projects.get p) = false) :
    is_entry_name p = true := by
  cases hget : db.projects.get p with
  | none =>
    rw [hget] at hdue
    cases hdue
  | some row =>
    obtain ⟨hmem, hid⟩ := Table.get_eq_some.mp hget
    have hid' : row.id = p := hid
    rw [← hid']
    exact hnames row hmem

/-- What is due stays due. -/
theorem refuses_later {row : Option ProjectRow} (hle : now ≤ now')
    (hdue : refuses retention now row = false) : refuses retention now' row = false := by
  cases row with
  | none => cases hdue
  | some row =>
    cases harchived : row.archived_at with
    | none => simp [refuses, harchived] at hdue
    | some archived_at =>
      simp [refuses, harchived] at hdue ⊢
      exact ⟨hdue.1, le_trans hdue.2 hle⟩

end Listing

section Faultless

theorem rows_in_turn_some : rows_in_turn (fun _ => some) db p = db.projects.get p := by
  rw [rows_in_turn]
  cases db.projects.get p <;> rfl

theorem reaches_of_due {row : String → Option ProjectRow} {listed : List String}
    (hdue : ∀ q ∈ listed, refuses retention now (row q) = false) (hp : p ∈ listed) :
    reaches retention now (fun _ => .passes) row listed p = true := by
  induction listed with
  | nil => cases hp
  | cons q rest ih =>
    by_cases hq : q = p
    · simp [reaches, hq]
    · have hrest : p ∈ rest := (List.mem_cons.mp hp).resolve_left fun h => hq h.symm
      have hreached := ih (fun r hr => hdue r (List.mem_cons_of_mem _ hr)) hrest
      have hnot : refuses retention now (row q) = false := hdue q List.mem_cons_self
      simp [reaches, hq, hnot, all_pass, hreached]

/-- A round in which nothing fails removes what is due. -/
theorem faultless_round_gone (hnames : Named s.db)
    (hdue : refuses retention now (s.db.projects.get p) = false) :
    Gone p (faultless_round enforced retention now s) := by
  have hlisted : ∀ q ∈ expired_projects retention now s.db,
      refuses retention now (s.db.projects.get q) = false := fun q hq => mem_expired_projects.mp hq
  have hp : p ∈ expired_projects retention now s.db := mem_expired_projects.mpr hdue
  have hround : wp (cleanup_projects enforced retention now fun _ => some) (fun _ => .passes)
      (fun _ s' => Gone p s') s := by
    unfold cleanup_projects
    rw [wp_read_bind]
    refine wp_mono (turns_leave expired_projects_nodup
      (fun q hq => hnames.entry (hlisted q hq)) (fun q _ => rows_in_turn_some) hp hdue)
      fun _ s' hleft => ?_
    rcases hleft with ⟨hno, -⟩ | ⟨-, hpurged⟩
    · rw [reaches_of_due hlisted hp] at hno
      cases hno
    · cases hpurged with
      | due hrows => exact absurd rfl hrows
      | rows_gone _ hfails => exact absurd rfl hfails
      | conversations_gone _ _ hfails => exact absurd rfl hfails
      | gone _ hgone => exact hgone
  exact hround

/-- A round in which nothing fails leaves alone what is not due. -/
theorem faultless_round_same (hrefused : refuses retention now (s.db.projects.get p) = true) :
    Same p s (faultless_round enforced retention now s) := by
  have hp : p ∉ expired_projects retention now s.db := by
    rw [mem_expired_projects, hrefused]
    exact Bool.noConfusion
  have hround : wp (cleanup_projects enforced retention now fun _ => some) (fun _ => .passes)
      (fun _ s' => Same p s s') s := by
    unfold cleanup_projects
    rw [wp_read_bind]
    exact turns_same hp
  exact hround

/-- No round finds a project without a row. -/
theorem faultless_rounds_same {n : Nat} (hnone : s.db.projects.get p = none) :
    Same p s (faultless_rounds enforced retention clock n s) := by
  induction n generalizing clock s with
  | zero => exact Same.refl p s
  | succ n ih =>
    have hround : Same p s (faultless_round enforced retention (clock 0) s) := by
      apply faultless_round_same
      rw [hnone]
      rfl
    exact hround.trans (ih (hround.row.trans hnone))

theorem settles_of_due (hnames : Named s.db)
    (hdue : refuses retention (clock 0) (s.db.projects.get p) = false) :
    Settles enforced retention clock p s :=
  ⟨1, faultless_round_gone hnames hdue⟩

/-- Without its row, what is left of a project stays. -/
theorem settles_iff_gone (hnone : s.db.projects.get p = none) :
    Settles enforced retention clock p s ↔ Gone p s := by
  constructor
  · rintro ⟨n, hgone⟩
    exact (faultless_rounds_same hnone).gone.mp hgone
  · intro hgone
    exact ⟨0, hgone⟩

end Faultless

section Named

theorem named_of_kept (hnames : Named s.db)
    (hkept : ∀ q, s.db.projects.get q = none → s'.db.projects.get q = none) : Named s'.db := by
  intro row hrow
  have hget : s'.db.projects.get row.id = some row := Table.get_of_mem hrow
  cases hbefore : s.db.projects.get row.id with
  | none =>
    rw [hkept _ hbefore] at hget
    cases hget
  | some old =>
    obtain ⟨hmem, hid⟩ := Table.get_eq_some.mp hbefore
    have hid' : old.id = row.id := hid
    rw [← hid']
    exact hnames old hmem

/-- A purge makes no project. -/
theorem purge_keeps_none (hnone : s.db.projects.get q = none) :
    wp (purge enforced retention now p) fates (fun _ s' => s'.db.projects.get q = none) s := by
  by_cases hq : q = p
  · have hrefused : refuses retention now (s.db.projects.get p) = true := by
      rw [← hq, hnone]
      rfl
    refine wp_mono (purge_refused hrefused) fun _ s' h => ?_
    rw [h.1]
    exact hnone
  · exact wp_mono (purge_same hq) fun _ _ hsame => hsame.row.trans hnone

theorem turn_keeps_none (hnone : s.db.projects.get q = none) :
    wp (turn enforced retention now becomes p) fates (fun _ s' => s'.db.projects.get q = none)
      s := by
  unfold turn
  rw [wp_change_bind]
  refine purge_keeps_none ?_
  by_cases hq : q = p
  · unfold Database.meanwhile
    rw [← hq, hnone]
    exact get_delete_self
  · exact (get_meanwhile_other hq).trans hnone

theorem turns_keep_none {listed : List String} (hnone : s.db.projects.get q = none) :
    wp (forEach (turn enforced retention now becomes) listed) fates
      (fun _ s' => s'.db.projects.get q = none) s := by
  induction listed generalizing s with
  | nil => exact hnone
  | cons p rest ih =>
    exact wp_bind_of (turn_keeps_none hnone) (fun _ _ h => ih h) (fun _ _ h => h) fun _ h => h

theorem named_purge (hnames : Named s.db) :
    Named (purge enforced retention now p fates s).2.db :=
  named_of_kept hnames fun _ hnone => purge_keeps_none hnone

theorem named_cleanup (hnames : Named s.db) :
    Named (cleanup_projects enforced retention now becomes fates s).2.db :=
  named_of_kept hnames fun _ hnone => turns_keep_none hnone

end Named

/-- The rounds complete a purge unless it has left something behind. -/
theorem PurgedAs.settles (h : PurgedAs retention now fates p s s') (hnames : Named s'.db)
    (hclock : now ≤ clock 0) : Settles enforced retention clock p s' ↔ ¬ LeftBehind fates p s := by
  cases h with
  | due hrows hdue =>
    have hsettles : Settles enforced retention clock p s' :=
      settles_of_due hnames (refuses_later hclock hdue)
    exact iff_of_true hsettles fun hleft => hrows hleft.1
  | rows_gone hrows hfails hgone hconversations hdirectory =>
    rw [settles_iff_gone hgone, Gone, hconversations, hdirectory, LeftBehind]
    simp only [hgone, hrows, hfails, true_and, false_and, or_false, not_or, ne_eq, not_not,
      not_false_eq_true]
  | conversations_gone hrows hpass hfails hgone hnone hdirectory =>
    rw [settles_iff_gone hgone, Gone, hnone, hdirectory, LeftBehind]
    simp [hgone, hrows, hpass, hfails]
  | gone hall hgone =>
    refine iff_of_true ⟨0, hgone⟩ fun hleft => ?_
    simp only [all_pass, Bool.and_eq_true, decide_eq_true_eq] at hall
    rcases hleft.2 with ⟨hfails, -⟩ | ⟨-, hfails, -⟩
    · exact hfails hall.1.2
    · exact hfails hall.2

/-- When nothing fails, a round comes to all that is due if no refused project stands
before such a one, and only then. -/
theorem reaches_all_iff {row : String → Option ProjectRow} {listed : List String}
    (hlisted : listed.Nodup) :
    (∀ p ∈ listed, refuses retention now (row p) = false →
        reaches retention now (fun _ => .passes) row listed p = true) ↔
      listed.Pairwise fun q p =>
        refuses retention now (row q) = true → refuses retention now (row p) = true := by
  induction listed with
  | nil => simp
  | cons q rest ih =>
    obtain ⟨hq, hrest⟩ := List.nodup_cons.mp hlisted
    have hstep : ∀ p ∈ rest, reaches retention now (fun _ => .passes) row (q :: rest) p =
        (!refuses retention now (row q) &&
          reaches retention now (fun _ => .passes) row rest p) := by
      intro p hp
      have hne : q ≠ p := fun heq => hq (heq ▸ hp)
      simp [reaches, hne, all_pass]
    rw [List.pairwise_cons, ← ih hrest]
    constructor
    · intro hall
      have hboth : ∀ p ∈ rest, refuses retention now (row p) = false →
          refuses retention now (row q) = false ∧
            reaches retention now (fun _ => .passes) row rest p = true := by
        intro p hp hdue
        have hreached := hall p (List.mem_cons_of_mem _ hp) hdue
        rw [hstep p hp, Bool.and_eq_true, Bool.not_eq_true'] at hreached
        exact hreached
      refine ⟨fun p hp hrefused => ?_, fun p hp hdue => (hboth p hp hdue).2⟩
      by_contra hdue
      rw [Bool.not_eq_true] at hdue
      rw [(hboth p hp hdue).1] at hrefused
      cases hrefused
    · rintro ⟨hfirst, hothers⟩ p hp hdue
      rcases List.mem_cons.mp hp with rfl | hp
      · simp [reaches]
      · rw [hstep p hp, Bool.and_eq_true, Bool.not_eq_true']
        refine ⟨?_, hothers p hp hdue⟩
        by_contra hrefused
        rw [Bool.not_eq_false] at hrefused
        rw [hfirst p hp hrefused] at hdue
        cases hdue

/-- What the purge by the route comes to. -/
theorem route_settles_iff (hnames : Named s.db) (hclock : now ≤ clock 0)
    (hdue : refuses retention now (s.db.projects.get p) = false) :
    Settles enforced retention clock p (purge enforced retention now p fates s).2 ↔
      ¬ LeftBehind fates p s := by
  have hpurged : wp (purge enforced retention now p) fates
      (fun _ s' => PurgedAs retention now fates p s s') s :=
    wp_mono (purge_due hdue (hnames.entry hdue)) fun _ _ h => h.1
  exact PurgedAs.settles hpurged (named_purge hnames) hclock

/-- What the purges of a round come to. -/
theorem round_leaves (hnames : Named s.db) (hp : p ∈ expired_projects retention now s.db)
    (hdue : refuses retention now (rows_in_turn becomes s.db p) = false) :
    wp (cleanup_projects enforced retention now becomes) fates (fun _ s' =>
      (reaches retention now fates (rows_in_turn becomes s.db)
          (expired_projects retention now s.db) p = false ∧ Same p s s') ∨
        (reaches retention now fates (rows_in_turn becomes s.db)
          (expired_projects retention now s.db) p = true ∧
            PurgedAs retention now fates p s s')) s := by
  unfold cleanup_projects
  rw [wp_read_bind]
  exact turns_leave expired_projects_nodup
    (fun q hq => hnames.entry (mem_expired_projects.mp hq)) (fun _ _ => rfl) hp hdue

theorem round_settles_iff (hnames : Named s.db) (hclock : now ≤ clock 0)
    (hp : p ∈ expired_projects retention now s.db)
    (hdue : refuses retention now (rows_in_turn becomes s.db p) = false) :
    Settles enforced retention clock p
        (cleanup_projects enforced retention now becomes fates s).2 ↔
      (reaches retention now fates (rows_in_turn becomes s.db)
          (expired_projects retention now s.db) p = true → ¬ LeftBehind fates p s) := by
  have hnames' : Named (cleanup_projects enforced retention now becomes fates s).2.db :=
    named_cleanup hnames
  rcases @round_leaves enforced _ _ _ _ fates _ hnames hp hdue with
    ⟨hno, hsame⟩ | ⟨hyes, hpurged⟩
  · rw [hno]
    refine iff_of_true (settles_of_due hnames' ?_) Bool.noConfusion
    rw [hsame.row]
    exact refuses_later hclock (mem_expired_projects.mp hp)
  · rw [hyes]
    simpa using hpurged.settles hnames' hclock

/-- Which rounds without failures purge all that is due in its turn. -/
theorem round_purges_iff (hnames : Named s.db) :
    (∀ p ∈ expired_projects retention now s.db,
        refuses retention now (rows_in_turn becomes s.db p) = false →
        Gone p (cleanup_projects enforced retention now becomes (fun _ => .passes) s).2) ↔
      (expired_projects retention now s.db).Pairwise fun q p =>
        refuses retention now (rows_in_turn becomes s.db q) = true →
          refuses retention now (rows_in_turn becomes s.db p) = true := by
  rw [← reaches_all_iff expired_projects_nodup]
  refine forall₃_congr fun p hp hdue => ?_
  rcases @round_leaves enforced _ _ _ _ (fun _ => .passes) _ hnames hp hdue with
    ⟨hno, hsame⟩ | ⟨hyes, hpurged⟩
  · rw [hno]
    refine iff_of_false (fun hgone => ?_) Bool.noConfusion
    have hlisted := mem_expired_projects.mp hp
    rw [(hsame.gone.mp hgone).1] at hlisted
    cases hlisted
  · refine iff_of_true ?_ hyes
    cases hpurged with
    | due hrows => exact absurd rfl hrows
    | rows_gone _ hfails => exact absurd rfl hfails
    | conversations_gone _ _ hfails => exact absurd rfl hfails
    | gone _ hgone => exact hgone

/-- A purge that starts is completed by the rounds after it exactly when it leaves
nothing of the project without its row, and a round purges all that is due exactly when
no refused project comes before one that is. -/
theorem purges_complete (hnames : Named s.db) (hclock : now ≤ clock 0) :
    (∀ p, refuses retention now (s.db.projects.get p) = false →
      (Settles enforced retention clock p (purge enforced retention now p fates s).2 ↔
        ¬ LeftBehind fates p s)) ∧
    (∀ p ∈ expired_projects retention now s.db,
      refuses retention now (rows_in_turn becomes s.db p) = false →
      (Settles enforced retention clock p
          (cleanup_projects enforced retention now becomes fates s).2 ↔
        (reaches retention now fates (rows_in_turn becomes s.db)
          (expired_projects retention now s.db) p = true → ¬ LeftBehind fates p s))) ∧
    ((∀ p ∈ expired_projects retention now s.db,
        refuses retention now (rows_in_turn becomes s.db p) = false →
        Gone p (cleanup_projects enforced retention now becomes (fun _ => .passes) s).2) ↔
      (expired_projects retention now s.db).Pairwise fun q p =>
        refuses retention now (rows_in_turn becomes s.db q) = true →
          refuses retention now (rows_in_turn becomes s.db p) = true) :=
  ⟨fun _ hdue => route_settles_iff hnames hclock hdue,
    fun _ hp hdue => round_settles_iff hnames hclock hp hdue, round_purges_iff hnames⟩

section Examples

/-- A project that was archived at time `0`. -/
def archived_project (id : String) : ProjectRow where
  id
  tenant_id := "tenant"
  state := .archived
  updated_at := 0
  archived_at := some 0
  active_snapshot_id := none
  active_graph_version := none
  active_document_count := 0
  generation := 0

/-- Two archived projects, and a conversation and a directory of the second one. -/
def two_archived : Stores where
  db := { Database.empty with
    projects := (Table.empty.insert (archived_project "a")).insert (archived_project "b") }
  conversations := {
    rows := [{
      id := "c", project_id := "b", graph_version := none, created_by := "user", name := none,
      created_at := 0, updated_at := 0, archived_at := none, active_request_id := none,
      lease_expires_at := none }],
    messages := [], next_row_id := 0 }
  directories := ["b"]

theorem named_two_archived : Named two_archived.db := by
  unfold Named
  decide

/-- The process dies between the rows and the conversations. -/
def dies_after_rows : String × PurgeStage → Fate :=
  fun k => if k.2 = .conversations then .dies else .passes

/-- The first project is purged by its route after it has been listed. -/
def first_purged : String → ProjectRow → Option ProjectRow :=
  fun id row => if id = "a" then none else some row

theorem purges_complete_two_archived :
    (∀ p, refuses 30 40 (two_archived.db.projects.get p) = false →
      (Settles true 30 (fun n => 40 + n) p (purge true 30 40 p dies_after_rows two_archived).2 ↔
        ¬ LeftBehind dies_after_rows p two_archived)) ∧
    (∀ p ∈ expired_projects 30 40 two_archived.db,
      refuses 30 40 (rows_in_turn first_purged two_archived.db p) = false →
      (Settles true 30 (fun n => 40 + n) p
          (cleanup_projects true 30 40 first_purged dies_after_rows two_archived).2 ↔
        (reaches 30 40 dies_after_rows (rows_in_turn first_purged two_archived.db)
          (expired_projects 30 40 two_archived.db) p = true →
            ¬ LeftBehind dies_after_rows p two_archived))) ∧
    ((∀ p ∈ expired_projects 30 40 two_archived.db,
        refuses 30 40 (rows_in_turn first_purged two_archived.db p) = false →
        Gone p (cleanup_projects true 30 40 first_purged (fun _ => .passes) two_archived).2) ↔
      (expired_projects 30 40 two_archived.db).Pairwise fun q p =>
        refuses 30 40 (rows_in_turn first_purged two_archived.db q) = true →
          refuses 30 40 (rows_in_turn first_purged two_archived.db p) = true) :=
  purges_complete named_two_archived (by decide)

/-- A crash after the rows leaves the conversations and the directory for ever, and a
project that is refused keeps the next one from being purged. -/
theorem purge_left_behind :
    refuses 30 40 (two_archived.db.projects.get "b") = false ∧
      ¬ Settles true 30 (fun n => 40 + n) "b" (purge true 30 40 "b" dies_after_rows two_archived).2 ∧
      "b" ∈ expired_projects 30 40 two_archived.db ∧
      refuses 30 40 (rows_in_turn first_purged two_archived.db "b") = false ∧
      ¬ Gone "b" (cleanup_projects true 30 40 first_purged (fun _ => .passes) two_archived).2 := by
  refine ⟨by decide, ?_, by decide, by decide, ?_⟩
  · rw [route_settles_iff named_two_archived (by decide) (by decide), not_not]
    refine ⟨by decide, Or.inl ⟨by decide, Or.inr (by decide)⟩⟩
  · rintro ⟨hnone, -⟩
    have hsome : ((cleanup_projects true 30 40 first_purged (fun _ => .passes)
        two_archived).2.db.projects.get "b").isSome = true := by decide
    rw [hnone] at hsome
    cases hsome

end Examples

end lagraph.registry
