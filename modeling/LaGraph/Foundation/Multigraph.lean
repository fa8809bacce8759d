import Mathlib.Data.List.Induction
import Mathlib.Data.List.Nodup

namespace foundation

universe u v

/-- A directed multigraph: which edges exist, and the two ends of each edge. -/
structure Multigraph (V : Type u) (E : Type v) where
  Edge : E → Prop
  source : E → V
  target : E → V

namespace Multigraph

variable {V : Type u} {E : Type v} (g : Multigraph V E)

/-- The edge sequence `p` leads from `u` to `v` along existing edges. -/
def Walk : V → List E → V → Prop
  | u, [], v => u = v
  | u, e :: p, v => g.Edge e ∧ g.source e = u ∧ Walk (g.target e) p v

/-- The node a walk from `u` along `p` ends in. -/
def endpoint (u : V) (p : List E) : V :=
  p.foldl (fun _ e => g.target e) u

/-- The nodes a walk from `u` along `p` visits, in order. -/
def nodes (u : V) (p : List E) : List V :=
  u :: p.map g.target

@[simp] theorem endpoint_nil (u : V) : g.endpoint u [] = u := rfl

@[simp] theorem endpoint_concat (u : V) (p : List E) (e : E) :
    g.endpoint u (p ++ [e]) = g.target e := by
  simp [endpoint]

@[simp] theorem nodes_nil (u : V) : g.nodes u [] = [u] := rfl

@[simp] theorem nodes_concat (u : V) (p : List E) (e : E) :
    g.nodes u (p ++ [e]) = g.nodes u p ++ [g.target e] := by
  simp [nodes]

theorem endpoint_mem_nodes (u : V) (p : List E) : g.endpoint u p ∈ g.nodes u p := by
  induction p using List.reverseRecOn with
  | nil => simp
  | append_singleton p e _ => simp

variable {g}

theorem walk_append {u v : V} {p q : List E} :
    g.Walk u (p ++ q) v ↔ ∃ w, g.Walk u p w ∧ g.Walk w q v := by
  induction p generalizing u with
  | nil => simp [Walk]
  | cons e p ih => simp [Walk, ih, and_assoc]

theorem walk_concat {u v : V} {p : List E} {e : E} :
    g.Walk u (p ++ [e]) v ↔ g.Walk u p (g.source e) ∧ g.Edge e ∧ g.target e = v := by
  rw [walk_append]
  constructor
  · rintro ⟨w, hp, he, rfl, hv⟩
    exact ⟨hp, he, hv⟩
  · rintro ⟨hp, he, hv⟩
    exact ⟨_, hp, he, rfl, hv⟩

theorem Walk.endpoint_eq {u v : V} {p : List E} (h : g.Walk u p v) : g.endpoint u p = v := by
  induction p generalizing u with
  | nil => exact h
  | cons e p ih => exact ih h.2.2

theorem Walk.edge {u v : V} {p : List E} (h : g.Walk u p v) : ∀ e ∈ p, g.Edge e := by
  induction p generalizing u with
  | nil => simp
  | cons e p ih =>
    intro f hf
    rcases List.mem_cons.mp hf with rfl | hf
    · exact h.1
    · exact ih h.2.2 f hf

variable (g)

/-- A simple path: a walk that repeats no node. Between distinct ends it stops
the first time it reaches its target, since the target is not repeated. -/
def SimplePath (u v : V) (p : List E) : Prop :=
  g.Walk u p v ∧ (g.nodes u p).Nodup

/-- Some walk of exactly `k` edges leads from `u` to `x` without entering `t`. -/
def Reach (t u : V) (k : Nat) (x : V) : Prop :=
  ∃ p, p.length = k ∧ g.Walk u p x ∧ t ∉ p.map g.target

/-- Every edge of `p` leaves its source at the smallest depth at which that
node is reached from `u` without entering `t`. -/
def Direct (t u : V) (p : List E) : Prop :=
  ∀ q e r, p = q ++ e :: r → ∀ j < q.length, ¬ g.Reach t u j (g.source e)

/-- The routes a level-by-level search from `u` towards `t` keeps in its
frontier when it expands every node at its first arrival only. -/
def Frontier (t u : V) (p : List E) : Prop :=
  (∃ x, g.Walk u p x) ∧ t ∉ p.map g.target ∧ (g.nodes u p).Nodup ∧ g.Direct t u p

/-- The routes such a search reports: a frontier route leaves its end at that
node's first arrival and enters `t`. -/
def Arrives (t u : V) (p : List E) : Prop :=
  ∃ q e, p = q ++ [e] ∧ g.Frontier t u q ∧ g.Walk u p t ∧
    ∀ j < q.length, ¬ g.Reach t u j (g.source e)

variable {g} {t u : V}

theorem direct_nil : g.Direct t u [] := by
  intro q e r h
  simp at h

theorem direct_concat {p : List E} {e : E} :
    g.Direct t u (p ++ [e]) ↔
      g.Direct t u p ∧ ∀ j < p.length, ¬ g.Reach t u j (g.source e) := by
  constructor
  · intro h
    refine ⟨?_, h p e [] rfl⟩
    rintro q f r rfl
    exact h q f (r ++ [e]) (by simp)
  · rintro ⟨hp, he⟩ q f r heq
    rcases List.eq_nil_or_concat r with rfl | ⟨r, l, rfl⟩
    · obtain ⟨rfl, hf⟩ := List.append_inj' heq rfl
      obtain rfl : e = f := by simpa using hf
      exact he
    · rw [List.concat_eq_append, ← List.cons_append, ← List.append_assoc] at heq
      obtain ⟨rfl, -⟩ := List.append_inj' heq rfl
      exact hp q f r rfl

/-- A frontier route grows by one edge exactly when the edge leaves its end at
that node's first arrival and enters a node that is neither `t` nor visited. -/
theorem frontier_concat {p : List E} {e : E} :
    g.Frontier t u (p ++ [e]) ↔ g.Frontier t u p ∧ g.Edge e ∧ g.source e = g.endpoint u p ∧
      (∀ j < p.length, ¬ g.Reach t u j (g.source e)) ∧ g.target e ≠ t ∧
      g.target e ∉ g.nodes u p := by
  unfold Frontier
  rw [direct_concat, nodes_concat, List.nodup_append_comm, List.singleton_append, List.nodup_cons]
  simp only [walk_concat, List.map_append, List.map_cons, List.map_nil, List.mem_append,
    List.mem_singleton, not_or]
  constructor
  · rintro ⟨⟨x, hw, he, hx⟩, ⟨ht, hte⟩, ⟨hnew, hnodes⟩, hdirect, hfirst⟩
    exact ⟨⟨⟨_, hw⟩, ht, hnodes, hdirect⟩, he, hw.endpoint_eq.symm, hfirst, Ne.symm hte, hnew⟩
  · rintro ⟨⟨⟨x, hw⟩, ht, hnodes, hdirect⟩, he, hsource, hfirst, hte, hnew⟩
    refine ⟨⟨g.target e, ?_, he, rfl⟩, ⟨ht, Ne.symm hte⟩, ⟨hnew, hnodes⟩, hdirect, hfirst⟩
    rw [hsource, hw.endpoint_eq]
    exact hw

theorem Frontier.reach {p : List E} (h : g.Frontier t u p) :
    g.Reach t u p.length (g.endpoint u p) := by
  obtain ⟨⟨x, hw⟩, ht, -⟩ := h
  exact ⟨p, rfl, hw.endpoint_eq ▸ hw, ht⟩

end Multigraph

end foundation
