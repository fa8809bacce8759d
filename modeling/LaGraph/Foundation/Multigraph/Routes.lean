import Mathlib.Algebra.BigOperators.Group.List.Basic
import Mathlib.Algebra.Order.BigOperators.GroupWithZero.List
import Mathlib.Data.Set.Card
import LaGraph.Foundation.Multigraph.Levels

namespace foundation.Multigraph

universe u v

variable {V : Type u} {E : Type v} {g : Multigraph V E} {A : V → Prop}
  {parents : V → List E} {rounds fuel : Nat} {x : V} {e : E} {p : List E}

/-- The kept edges are those that first reach a node, each as often as it occurs. -/
def Keeps [DecidableEq E] (g : Multigraph V E) (A : V → Prop) (parents : V → List E)
    (occurrences : E → Nat) (rounds : Nat) : Prop :=
  ∀ x e, ((∃ k < rounds, g.Parent A k e x) → (parents x).count e = occurrences e) ∧
    ((¬ ∃ k < rounds, g.Parent A k e x) → (parents x).count e = 0)

theorem Keeps.parent [DecidableEq E] {occurrences : E → Nat}
    (hkeeps : Keeps g A parents occurrences rounds) (he : e ∈ parents x) :
    ∃ k < rounds, g.Parent A k e x := by
  by_contra hnone
  exact absurd he (List.count_eq_zero.mp ((hkeeps x e).2 hnone))

variable [DecidablePred A]

/-- The ways on from a node: none are needed from a node of `A`. -/
def onward (A : V → Prop) [DecidablePred A] (routes : V → List (List E)) (x : V) :
    List (List E) :=
  if A x then [[]] else routes x

/-- The walks to a node along the edges that were kept for each node. -/
def routes (g : Multigraph V E) (A : V → Prop) [DecidablePred A] (parents : V → List E) :
    Nat → V → List (List E)
  | 0, _ => []
  | fuel + 1, x =>
    (parents x).flatMap fun e => (onward A (routes g A parents fuel) (g.source e)).map (· ++ [e])

theorem nil_not_mem_routes : [] ∉ routes g A parents fuel x := by
  cases fuel with
  | zero => simp [routes]
  | succ fuel => simp [routes]

theorem mem_parents_of_routes (h : p ∈ routes g A parents fuel x) :
    ∀ e ∈ p, ∃ y, e ∈ parents y := by
  induction fuel generalizing x p with
  | zero => simp [routes] at h
  | succ fuel ih =>
    rw [routes, List.mem_flatMap] at h
    obtain ⟨e, he, hmem⟩ := h
    obtain ⟨q, hq, rfl⟩ := List.mem_map.mp hmem
    intro f hf
    rcases List.mem_append.mp hf with hf | hf
    · unfold onward at hq
      split_ifs at hq
      · rw [List.mem_singleton.mp hq] at hf
        cases hf
      · exact ih hq f hf
    · rw [List.mem_singleton.mp hf]
      exact ⟨x, he⟩

section Counts

variable [DecidableEq E] {occurrences : E → Nat}

theorem count_map_concat {f : E} {l : List (List E)} :
    (l.map (· ++ [e])).count (p ++ [f]) = if e = f then l.count p else 0 := by
  induction l with
  | nil => simp
  | cons q l ih =>
    rw [List.map_cons, List.count_cons, List.count_cons, ih]
    by_cases hef : e = f
    · subst hef
      simp
    · have hne : (q ++ [e] == p ++ [f]) = false := by
        simp [hef]
      simp [hne, hef]

theorem sum_map_ite {f : E} {c : Nat} {l : List E} :
    (l.map fun e => if e = f then c else 0).sum = l.count f * c := by
  induction l with
  | nil => simp
  | cons e l ih =>
    rw [List.map_cons, List.sum_cons, ih, List.count_cons]
    by_cases hef : e = f
    · simp [hef, Nat.succ_mul, Nat.add_comm]
    · simp [hef]

/-- A route occurs as often as its last edge was kept times as often as the rest occurs. -/
theorem count_routes_concat : (routes g A parents (fuel + 1) x).count (p ++ [e]) =
    (parents x).count e * (onward A (routes g A parents fuel) (g.source e)).count p := by
  rw [routes, List.count_flatMap, ← sum_map_ite]
  congr 1
  refine List.map_congr_left fun f _ => ?_
  rw [Function.comp_apply, count_map_concat]
  by_cases hef : f = e
  · rw [if_pos hef, if_pos hef, hef]
  · rw [if_neg hef, if_neg hef]

theorem count_onward {l : V → List (List E)} :
    (onward A l x).count p = if A x then (if p = [] then 1 else 0) else (l x).count p := by
  unfold onward
  by_cases hA : A x
  · rw [if_pos hA, if_pos hA]
    cases p with
    | nil => simp
    | cons e p => simp
  · rw [if_neg hA, if_neg hA]

/-- Every shortest walk is a route, as often as its edges occur, and nothing else is. -/
theorem count_routes (hkeeps : Keeps g A parents occurrences rounds) :
    (g.Geodesic A p x ∧ p.length ≤ rounds ∧ p.length ≤ fuel →
        (routes g A parents fuel x).count p = (p.map occurrences).prod) ∧
      (¬ (g.Geodesic A p x ∧ p.length ≤ rounds ∧ p.length ≤ fuel) →
        (routes g A parents fuel x).count p = 0) := by
  induction fuel generalizing x p with
  | zero =>
    refine ⟨fun h => ?_, fun _ => by simp [routes]⟩
    rw [List.length_eq_zero_iff.mp (Nat.le_zero.mp h.2.2)] at h
    exact absurd h.1 not_geodesic_nil
  | succ fuel ih =>
    rcases p.eq_nil_or_concat with rfl | ⟨q, e, rfl⟩
    · refine ⟨fun h => absurd h.1 not_geodesic_nil, fun _ => ?_⟩
      exact List.count_eq_zero.mpr nil_not_mem_routes
    · simp only [List.concat_eq_append, List.length_append, List.length_singleton, geodesic_concat]
      rw [count_routes_concat, count_onward, List.map_append, List.prod_append]
      obtain ⟨hkept, hnone⟩ := hkeeps x e
      by_cases hparent : ∃ k < rounds, g.Parent A k e x
      case neg =>
        rw [hnone hparent, Nat.zero_mul]
        exact ⟨fun h => absurd ⟨q.length, by omega, h.1.2⟩ hparent, fun _ => rfl⟩
      case pos =>
        rw [hkept hparent]
        obtain ⟨k, hk, hparent⟩ := hparent
        obtain ⟨he, htarget, hfront, hlevel⟩ := hparent
        by_cases hA : A (g.source e)
        · have hzero : k = 0 := hfront.unique (Or.inl ⟨rfl, hA⟩)
          subst hzero
          by_cases hq : q = []
          · subst hq
            refine ⟨fun _ => by simp [hA], fun h => absurd ?_ h⟩
            exact ⟨⟨Or.inl ⟨hA, rfl⟩, he, htarget, hfront, hlevel⟩, by simp; omega, by simp⟩
          · simp [hA, hq]
        · rw [if_neg hA]
          have hsource : g.Level A k (g.source e) := by
            rcases hfront with ⟨-, hstart⟩ | ⟨-, hsource⟩
            · exact absurd hstart hA
            · exact hsource
          obtain ⟨hroute, hnoroute⟩ := @ih (g.source e) q
          by_cases hgeodesic : g.Geodesic A q (g.source e) ∧ q.length ≤ rounds ∧ q.length ≤ fuel
          · have hsame : q.length = k := hgeodesic.1.2.unique hsource
            rw [hroute hgeodesic]
            refine ⟨fun _ => by simp [Nat.mul_comm], fun h => absurd ?_ h⟩
            refine ⟨⟨Or.inr ⟨hA, hgeodesic.1⟩, ?_⟩, by omega, by omega⟩
            rw [hsame]
            exact ⟨he, htarget, hfront, hlevel⟩
          · rw [hnoroute hgeodesic, Nat.mul_zero]
            refine ⟨fun h => absurd ?_ hgeodesic, fun _ => rfl⟩
            obtain ⟨⟨hstart, -⟩, hrounds, hfuel⟩ := h
            rcases hstart with ⟨hstart, -⟩ | ⟨-, hq⟩
            · exact absurd hstart hA
            · exact ⟨hq, by omega, by omega⟩

/-- The routes are the shortest walks. -/
theorem mem_routes (hkeeps : Keeps g A parents occurrences rounds)
    (hoccurs : ∀ e, g.Edge e → 0 < occurrences e) (hfuel : rounds ≤ fuel) :
    p ∈ routes g A parents fuel x ↔ g.Geodesic A p x ∧ p.length ≤ rounds := by
  obtain ⟨hroute, hnone⟩ := @count_routes V E g A parents rounds fuel x p _ _ occurrences hkeeps
  rw [← List.count_pos_iff]
  constructor
  · intro h
    by_contra hnot
    rw [hnone fun hgeodesic => hnot ⟨hgeodesic.1, hgeodesic.2.1⟩] at h
    omega
  · intro h
    rw [hroute ⟨h.1, h.2, by omega⟩]
    refine List.prod_pos fun n hn => ?_
    obtain ⟨e, he, rfl⟩ := List.mem_map.mp hn
    obtain ⟨⟨a, ha, hwalk⟩, -⟩ := h.1
    exact hoccurs e (hwalk.edge e he)

/-- The routes to a node are distinct exactly when the edges on its shortest walks occur once. -/
theorem nodup_routes_iff (hkeeps : Keeps g A parents occurrences rounds)
    (hoccurs : ∀ e, g.Edge e → 0 < occurrences e) (hfuel : rounds ≤ fuel) :
    (routes g A parents fuel x).Nodup ↔
      ∀ p, g.Geodesic A p x → p.length ≤ rounds → ∀ e ∈ p, occurrences e = 1 := by
  have hcount (p : List E) := @count_routes V E g A parents rounds fuel x p _ _ occurrences hkeeps
  rw [List.nodup_iff_count_le_one]
  constructor
  · intro h p hgeodesic hlength e he
    have hone := h p
    rw [(hcount p).1 ⟨hgeodesic, hlength, by omega⟩] at hone
    obtain ⟨⟨a, ha, hwalk⟩, -⟩ := hgeodesic
    have hpos : ∀ n ∈ p.map occurrences, 0 < n := by
      intro n hn
      obtain ⟨f, hf, rfl⟩ := List.mem_map.mp hn
      exact hoccurs f (hwalk.edge f hf)
    have hdvd := List.dvd_prod (List.mem_map_of_mem (f := occurrences) he)
    have hle := Nat.le_of_dvd (List.prod_pos hpos) hdvd
    have hepos := hpos _ (List.mem_map_of_mem he)
    omega
  · intro h p
    by_cases hgeodesic : g.Geodesic A p x ∧ p.length ≤ rounds ∧ p.length ≤ fuel
    · rw [(hcount p).1 hgeodesic]
      have hone : ∀ n ∈ p.map occurrences, n = 1 := by
        intro n hn
        obtain ⟨e, he, rfl⟩ := List.mem_map.mp hn
        exact h p hgeodesic.1 hgeodesic.2.1 e he
      rw [List.prod_eq_one hone]
    · rw [(hcount p).2 hgeodesic]
      omega

/-- The number of shortest walks to a node is the number of its distinct routes. -/
theorem ncard_geodesics (hkeeps : Keeps g A parents occurrences rounds)
    (hoccurs : ∀ e, g.Edge e → 0 < occurrences e) (hfuel : rounds ≤ fuel)
    (hnear : ∀ p, g.Geodesic A p x → p.length ≤ rounds) :
    {p | g.Geodesic A p x}.ncard = (routes g A parents fuel x).dedup.length := by
  have hset : {p | g.Geodesic A p x} = ((routes g A parents fuel x).toFinset : Set (List E)) := by
    ext p
    rw [Set.mem_ofPred_eq, Finset.mem_coe, List.mem_toFinset, mem_routes hkeeps hoccurs hfuel]
    exact ⟨fun h => ⟨h, hnear p h⟩, fun h => h.1⟩
  rw [hset, Set.ncard_coe_finset, List.card_toFinset]

/-- The walks back from a node end: more fuel than its level changes nothing. -/
theorem routes_stable (hkeeps : Keeps g A parents occurrences rounds) {j : Nat}
    (hlevel : g.Level A j x) (hfuel : j ≤ fuel) :
    routes g A parents fuel x = routes g A parents j x := by
  induction j generalizing x fuel with
  | zero => exact absurd hlevel.1 (Nat.lt_irrefl 0)
  | succ j ih =>
    obtain ⟨fuel, rfl⟩ := Nat.exists_eq_add_one_of_ne_zero (show fuel ≠ 0 by omega)
    rw [routes, routes]
    refine List.flatMap_congr fun e he => ?_
    obtain ⟨k, -, -, -, hfront, hlevel'⟩ := hkeeps.parent he
    have hsame : k = j := Nat.succ.inj (hlevel'.unique hlevel)
    subst hsame
    unfold onward
    split_ifs with hA
    · rfl
    · rcases hfront with ⟨-, hstart⟩ | ⟨-, hsource⟩
      · exact absurd hstart hA
      · rw [ih hsource (Nat.le_of_succ_le_succ hfuel)]

end Counts

end foundation.Multigraph
