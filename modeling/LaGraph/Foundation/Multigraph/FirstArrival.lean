import Mathlib.Data.Nat.Find
import LaGraph.Foundation.Multigraph

namespace foundation.Multigraph

universe u v

variable {V : Type u} {E : Type v} {g : Multigraph V E} {t u : V}

/-- A shortest walk avoiding `t` expands each of its nodes at the node's first
arrival: a shorter way to one of them would shorten the walk. -/
theorem direct_of_shortest {p : List E} {x : V} (hw : g.Walk u p x)
    (havoid : t ∉ p.map g.target) (hmin : ∀ j < p.length, ¬ g.Reach t u j x) :
    g.Direct t u p := by
  rintro q e r rfl j hj ⟨q', hlen, hw', havoid'⟩
  obtain ⟨w, hq, he, hs, hr⟩ := walk_append.mp hw
  refine hmin (q' ++ e :: r).length ?_ ⟨q' ++ e :: r, rfl, ?_, ?_⟩
  · simp only [List.length_append, List.length_cons]
    omega
  · exact walk_append.mpr ⟨g.source e, hw', he, rfl, hr⟩
  · simp only [List.map_append, List.map_cons, List.mem_append, not_or] at havoid ⊢
    exact ⟨havoid', havoid.2⟩

/-- A direct route visits no node twice before its last one, and the last one
is new as well when it is itself at its first arrival. -/
theorem nodup_of_direct {p : List E} {x : V} (hw : g.Walk u p x) (havoid : t ∉ p.map g.target)
    (hd : g.Direct t u p) (hmin : ∀ j < p.length, ¬ g.Reach t u j x) :
    (g.nodes u p).Nodup := by
  induction p using List.reverseRecOn generalizing x with
  | nil => simp
  | append_singleton p e ih =>
    obtain ⟨hp, he, rfl⟩ := walk_concat.mp hw
    obtain ⟨hdp, hfirst⟩ := direct_concat.mp hd
    have havoidp : t ∉ p.map g.target := by
      intro hmem
      apply havoid
      simp [List.map_append, hmem]
    rw [nodes_concat, List.nodup_append_comm, List.singleton_append, List.nodup_cons]
    refine ⟨?_, ih hp havoidp hdp hfirst⟩
    intro hmem
    -- A repeated node would be reached by a strict prefix of the route.
    have hprefix : ∃ q r, p = q ++ r ∧ g.endpoint u q = g.target e := by
      rcases List.mem_cons.mp hmem with heq | hmem
      · exact ⟨[], p, rfl, heq.symm⟩
      · obtain ⟨f, hf, hft⟩ := List.mem_map.mp hmem
        obtain ⟨q, r, rfl⟩ := List.append_of_mem hf
        exact ⟨q ++ [f], r, by simp, by simpa using hft⟩
    obtain ⟨q, r, rfl, hend⟩ := hprefix
    obtain ⟨w, hq, -⟩ := walk_append.mp hp
    refine hmin q.length (by simp) ⟨q, rfl, ?_, ?_⟩
    · rw [← hend, hq.endpoint_eq]
      exact hq
    · intro ht
      apply havoidp
      simp [ht]

/-- Every node is in the frontier at its first arrival. -/
theorem Reach.frontier {k : Nat} {x : V} (h : g.Reach t u k x)
    (hmin : ∀ j < k, ¬ g.Reach t u j x) :
    ∃ p, p.length = k ∧ g.Frontier t u p ∧ g.endpoint u p = x := by
  obtain ⟨p, rfl, hw, havoid⟩ := h
  have hd := direct_of_shortest hw havoid hmin
  exact ⟨p, rfl, ⟨⟨x, hw⟩, havoid, nodup_of_direct hw havoid hd hmin, hd⟩, hw.endpoint_eq⟩

/-- A node has been expanded before depth `k` exactly when some frontier of an
earlier depth ends in it. -/
theorem reach_lt_iff_frontier {k : Nat} {x : V} :
    (∃ j < k, g.Reach t u j x) ↔
      ∃ p : List E, p.length < k ∧ g.Frontier t u p ∧ g.endpoint u p = x := by
  constructor
  · rintro ⟨j, hj, hx⟩
    classical
    let m := Nat.find (⟨j, hx⟩ : ∃ m, g.Reach t u m x)
    have hm : g.Reach t u m x := Nat.find_spec (⟨j, hx⟩ : ∃ m, g.Reach t u m x)
    have hle : m ≤ j := Nat.find_min' _ hx
    obtain ⟨p, hlen, hp, hend⟩ := hm.frontier (fun i hi => Nat.find_min _ hi)
    exact ⟨p, by omega, hp, hend⟩
  · rintro ⟨p, hlen, hp, rfl⟩
    exact ⟨p.length, hlen, hp.reach⟩

/-- What the search reports are simple paths. -/
theorem Arrives.simplePath {p : List E} (h : g.Arrives t u p) (hu : u ≠ t) :
    g.SimplePath u t p := by
  obtain ⟨q, e, rfl, ⟨-, havoid, hnodes, -⟩, hw, -⟩ := h
  refine ⟨hw, ?_⟩
  have hte : g.target e = t := (walk_concat.mp hw).2.2
  rw [nodes_concat, List.nodup_append_comm, List.singleton_append, List.nodup_cons, hte]
  refine ⟨?_, hnodes⟩
  intro hmem
  rcases List.mem_cons.mp hmem with heq | hmem
  · exact hu heq.symm
  · exact havoid hmem

/-- Between distinct ends the reported routes are the direct simple paths. -/
theorem arrives_iff {p : List E} (hu : u ≠ t) :
    g.Arrives t u p ↔ g.SimplePath u t p ∧ g.Direct t u p := by
  constructor
  · intro h
    refine ⟨h.simplePath hu, ?_⟩
    obtain ⟨q, e, rfl, ⟨-, -, -, hd⟩, -, hfirst⟩ := h
    exact direct_concat.mpr ⟨hd, hfirst⟩
  · rintro ⟨⟨hw, hnodes⟩, hd⟩
    rcases List.eq_nil_or_concat p with rfl | ⟨q, e, rfl⟩
    · exact absurd hw hu
    · rw [List.concat_eq_append] at *
      obtain ⟨hdq, hfirst⟩ := direct_concat.mp hd
      obtain ⟨hq, he, hte⟩ := walk_concat.mp hw
      rw [nodes_concat, List.nodup_append_comm, List.singleton_append, List.nodup_cons] at hnodes
      refine ⟨q, e, rfl, ⟨⟨_, hq⟩, ?_, hnodes.2, hdq⟩, hw, hfirst⟩
      intro hmem
      apply hnodes.1
      rw [hte]
      exact List.mem_cons_of_mem _ hmem

end foundation.Multigraph
