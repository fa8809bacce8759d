import LaGraph.Foundation.Multigraph

namespace foundation.Multigraph

universe u v

variable {V : Type u} {E : Type v} (g : Multigraph V E) (A : V → Prop)

/-- Some walk of `k` edges leads to `x` from a node of `A`. -/
def Arrive (k : Nat) (x : V) : Prop :=
  ∃ a, A a ∧ ∃ p, p.length = k ∧ g.Walk a p x

/-- A shortest non-empty walk from `A` to `x` has `k` edges. -/
def Level (k : Nat) (x : V) : Prop :=
  0 < k ∧ g.Arrive A k x ∧ ∀ j, 0 < j → j < k → ¬ g.Arrive A j x

/-- The walk is a shortest non-empty one from `A` to `x`. -/
def Geodesic (p : List E) (x : V) : Prop :=
  (∃ a, A a ∧ g.Walk a p x) ∧ g.Level A p.length x

/-- The nodes that a search from `A` expands after `k` rounds. -/
def Front (k : Nat) (x : V) : Prop :=
  k = 0 ∧ A x ∨ ¬ A x ∧ g.Level A k x

/-- The edge reaches `x` for the first time from the front of round `k`. -/
def Parent (k : Nat) (e : E) (x : V) : Prop :=
  g.Edge e ∧ g.target e = x ∧ g.Front A k (g.source e) ∧ g.Level A (k + 1) x

variable {g A} {j k : Nat} {x : V} {e : E} {p : List E}

theorem arrive_zero : g.Arrive A 0 x ↔ A x := by
  constructor
  · rintro ⟨a, ha, p, hlength, hwalk⟩
    rw [List.length_eq_zero_iff.mp hlength] at hwalk
    exact (show a = x from hwalk) ▸ ha
  · intro hx
    exact ⟨x, hx, [], rfl, rfl⟩

theorem arrive_succ :
    g.Arrive A (k + 1) x ↔ ∃ e, g.Edge e ∧ g.Arrive A k (g.source e) ∧ g.target e = x := by
  constructor
  · rintro ⟨a, ha, p, hlength, hwalk⟩
    rcases p.eq_nil_or_concat with rfl | ⟨q, e, rfl⟩
    · simp at hlength
    · rw [List.concat_eq_append] at hlength hwalk
      obtain ⟨hq, he, htarget⟩ := walk_concat.mp hwalk
      exact ⟨e, he, ⟨a, ha, q, by simpa using hlength, hq⟩, htarget⟩
  · rintro ⟨e, he, ⟨a, ha, q, hlength, hq⟩, htarget⟩
    exact ⟨a, ha, q ++ [e], by simp [hlength], walk_concat.mpr ⟨hq, he, htarget⟩⟩

theorem Level.unique (h : g.Level A j x) (h' : g.Level A k x) : j = k := by
  rcases Nat.lt_trichotomy j k with hlt | heq | hlt
  · exact absurd h.2.1 (h'.2.2 j h.1 hlt)
  · exact heq
  · exact absurd h'.2.1 (h.2.2 k h'.1 hlt)

/-- A node that is reached at all is reached by a shortest walk. -/
theorem Arrive.level (hk : 0 < k) (h : g.Arrive A k x) : ∃ j, j ≤ k ∧ g.Level A j x := by
  induction k using Nat.strongRecOn with
  | _ k ih =>
    by_cases hshorter : ∃ j, 0 < j ∧ j < k ∧ g.Arrive A j x
    · obtain ⟨j, hj, hlt, harrive⟩ := hshorter
      obtain ⟨i, hi, hlevel⟩ := ih j hlt hj harrive
      exact ⟨i, by omega, hlevel⟩
    · refine ⟨k, Nat.le_refl k, hk, h, fun j hj hlt harrive => hshorter ⟨j, hj, hlt, harrive⟩⟩

theorem Front.arrive (h : g.Front A k x) : g.Arrive A k x := by
  rcases h with ⟨rfl, hx⟩ | ⟨-, hlevel⟩
  · exact arrive_zero.mpr hx
  · exact hlevel.2.1

theorem Front.unique (h : g.Front A j x) (h' : g.Front A k x) : j = k := by
  rcases h with ⟨rfl, hx⟩ | ⟨hx, hlevel⟩
  · rcases h' with ⟨rfl, -⟩ | ⟨hx', -⟩
    · rfl
    · exact absurd hx hx'
  · rcases h' with ⟨-, hx'⟩ | ⟨-, hlevel'⟩
    · exact absurd hx' hx
    · exact hlevel.unique hlevel'

/-- The source of the last edge of a shortest walk is in the front that the walk has left. -/
theorem Level.source_front (h : g.Level A (k + 1) x) (he : g.Edge e) (htarget : g.target e = x)
    (hsource : g.Arrive A k (g.source e)) : g.Front A k (g.source e) := by
  have hlast : ∀ i, g.Arrive A i (g.source e) → k ≤ i := by
    intro i hi
    by_contra hlt
    exact h.2.2 (i + 1) (by omega) (by omega) (arrive_succ.mpr ⟨e, he, hi, htarget⟩)
  by_cases hA : A (g.source e)
  · have hzero := hlast 0 (arrive_zero.mpr hA)
    exact Or.inl ⟨by omega, hA⟩
  · have hpos : 0 < k := by
      rcases Nat.eq_zero_or_pos k with rfl | hpos
      · exact absurd (arrive_zero.mp hsource) hA
      · exact hpos
    exact Or.inr ⟨hA, hpos, hsource, fun i _ hi harrive => by
      have hle := hlast i harrive
      omega⟩

/-- A round reaches what its front has edges to and no earlier round has reached. -/
theorem level_succ : g.Level A (k + 1) x ↔
    (∃ e, g.Edge e ∧ g.target e = x ∧ g.Front A k (g.source e)) ∧ ∀ j ≤ k, ¬ g.Level A j x := by
  constructor
  · intro h
    obtain ⟨e, he, hsource, htarget⟩ := arrive_succ.mp h.2.1
    refine ⟨⟨e, he, htarget, h.source_front he htarget hsource⟩, fun j hj hlevel => ?_⟩
    have heq := hlevel.unique h
    omega
  · rintro ⟨⟨e, he, htarget, hfront⟩, hnew⟩
    have harrive := arrive_succ.mpr ⟨e, he, hfront.arrive, htarget⟩
    obtain ⟨j, hj, hlevel⟩ := harrive.level (Nat.succ_pos k)
    have hlast : ¬ j ≤ k := fun hle => hnew j hle hlevel
    have heq : j = k + 1 := by omega
    exact heq ▸ hlevel

theorem parent_iff : g.Parent A k e x ↔ g.Edge e ∧ g.target e = x ∧ g.Front A k (g.source e) ∧
    ∀ j ≤ k, ¬ g.Level A j x := by
  unfold Parent
  rw [level_succ]
  constructor
  · rintro ⟨he, htarget, hfront, -, hnew⟩
    exact ⟨he, htarget, hfront, hnew⟩
  · rintro ⟨he, htarget, hfront, hnew⟩
    exact ⟨he, htarget, hfront, ⟨e, he, htarget, hfront⟩, hnew⟩

/-- When a front is empty, nothing is reached any more. -/
theorem not_level_of_idle (hidle : ∀ x, ¬ g.Front A k x) (hk : k < j) : ¬ g.Level A j x := by
  induction j generalizing x with
  | zero => omega
  | succ j ih =>
    intro h
    obtain ⟨⟨e, -, -, hfront⟩, -⟩ := level_succ.mp h
    rcases Nat.lt_or_eq_of_le (Nat.le_of_lt_succ hk) with hlt | rfl
    · rcases hfront with ⟨rfl, -⟩ | ⟨-, hlevel⟩
      · omega
      · exact ih hlt hlevel
    · exact hidle _ hfront

theorem not_geodesic_nil : ¬ g.Geodesic A [] x :=
  fun h => absurd h.2.1 (Nat.lt_irrefl 0)

/-- A shortest walk goes on from a shortest one, or starts, with an edge that first reaches its
end. -/
theorem geodesic_concat : g.Geodesic A (p ++ [e]) x ↔
    (A (g.source e) ∧ p = [] ∨ ¬ A (g.source e) ∧ g.Geodesic A p (g.source e)) ∧
      g.Parent A p.length e x := by
  constructor
  · rintro ⟨⟨a, ha, hwalk⟩, hlevel⟩
    obtain ⟨hp, he, htarget⟩ := walk_concat.mp hwalk
    rw [List.length_append, List.length_singleton] at hlevel
    have hfront := hlevel.source_front he htarget ⟨a, ha, p, rfl, hp⟩
    refine ⟨?_, he, htarget, hfront, hlevel⟩
    rcases hfront with ⟨hzero, hA⟩ | ⟨hA, hsource⟩
    · exact Or.inl ⟨hA, List.length_eq_zero_iff.mp hzero⟩
    · exact Or.inr ⟨hA, ⟨a, ha, hp⟩, hsource⟩
  · rintro ⟨hstart, he, htarget, -, hlevel⟩
    refine ⟨?_, by simpa using hlevel⟩
    rcases hstart with ⟨hA, rfl⟩ | ⟨-, ⟨a, ha, hp⟩, -⟩
    · exact ⟨_, hA, he, rfl, htarget⟩
    · exact ⟨a, ha, walk_concat.mpr ⟨hp, he, htarget⟩⟩

/-- A shortest walk ends at one node only. -/
theorem Geodesic.unique_end {y : V} (h : g.Geodesic A p x) (h' : g.Geodesic A p y) : x = y := by
  rcases p.eq_nil_or_concat with rfl | ⟨q, e, rfl⟩
  · exact absurd h not_geodesic_nil
  · rw [List.concat_eq_append] at h h'
    obtain ⟨-, -, htarget, -⟩ := geodesic_concat.mp h
    obtain ⟨-, -, htarget', -⟩ := geodesic_concat.mp h'
    exact htarget.symm.trans htarget'

theorem Level.geodesic (h : g.Level A k x) : ∃ p, g.Geodesic A p x := by
  obtain ⟨a, ha, p, hlength, hwalk⟩ := h.2.1
  exact ⟨p, ⟨a, ha, hwalk⟩, hlength.symm ▸ h⟩

end foundation.Multigraph
