import LaGraph.Foundation.Interleaving

namespace foundation

variable {D L ε α β κ : Type}

namespace Tx

/-- What is left of a transaction after a statement that has seen `view`. -/
def after : Tx D L ε α → D → Tx D L ε α
  | .stmt _ next, view => next view
  | t, _ => t

@[simp] theorem after_select_bind (f : D → β) (k : β → Tx D L ε α) (view : D) :
    (select f >>= k).after view = k (f view) := rfl

theorem orRaise_some_bind (b : β) (e : ε) (k : β → Tx D L ε α) :
    (orRaise (some b) e >>= k) = k b := rfl

/-- No statement is left to execute. -/
def settled : Tx D L ε α → Bool
  | .ret _ | .raise _ => true
  | .lock _ next => next.settled
  | .stmt _ _ => false

/-- Every statement of the transaction changes what is committed within `W`, which may
depend on the locks that are held by then. -/
def Changes (W : List L → D → D → Prop) : Tx D L ε α → List L → Prop
  | .ret _, _ => True
  | .raise _, _ => True
  | .lock row next, held => Changes W next (row :: held)
  | .stmt change next, held =>
    (∀ view d, W held d (change view d)) ∧ ∀ view, Changes W (next view) held

/-- A bound on changes that allows none and two in a row, and no fewer with more locks. -/
structure Bound (W : List L → D → D → Prop) : Prop where
  refl : ∀ held d, W held d d
  trans : ∀ held a b c, W held a b → W held b c → W held a c
  mono : ∀ row held a b, W held a b → W (row :: held) a b

namespace Changes

variable {W : List L → D → D → Prop} {held : List L}

theorem bind {t : Tx D L ε β} {f : β → Tx D L ε α} (h : Changes W t held)
    (hf : ∀ b held, Changes W (f b) held) : Changes W (t >>= f) held := by
  change Changes W (t.bind f) held
  induction t generalizing held with
  | ret b => exact hf b held
  | raise e => trivial
  | lock row next ih => exact ih h
  | stmt change next ih => exact ⟨h.1, fun view => ih view (h.2 view)⟩

theorem select (hW : Bound W) (f : D → β) : Changes W (select f : Tx D L ε β) held :=
  ⟨fun _ d => hW.refl held d, fun _ => trivial⟩

theorem execute {change : D → D → D} (h : ∀ view d, W held d (change view d)) :
    Changes W (execute change : Tx D L ε Unit) held :=
  ⟨h, fun _ => trivial⟩

theorem raiseIf (c : Prop) [Decidable c] (e : ε) :
    Changes W (raiseIf c e : Tx D L ε Unit) held := by
  unfold Tx.raiseIf
  split_ifs
  · trivial
  · trivial

theorem orRaise (row : Option β) (e : ε) : Changes W (orRaise row e : Tx D L ε β) held := by
  cases row with
  | none => trivial
  | some b => trivial

theorem whenever {c : Prop} [Decidable c] {t : Tx D L ε Unit} (h : c → Changes W t held) :
    Changes W (whenever c t) held := by
  unfold Tx.whenever
  split_ifs with hc
  · exact h hc
  · trivial

theorem forEach {f : β → Tx D L ε Unit} (l : List β) (h : ∀ b held, Changes W (f b) held) :
    Changes W (forEach f l) held := by
  induction l generalizing held with
  | nil => trivial
  | cons b l ih => exact bind (h b held) fun _ held => ih

end Changes

end Tx

namespace Session

variable {W : List L → D → D → Prop} {x : Session D L ε α κ} {d : D} {row : L}
  {change : D → D → D} {next : D → Tx D L ε α} {rest : Tx D L ε α}

/-- What the session has changed and will change stays within `W`. -/
structure Within (W : List L → D → D → Prop) (x : Session D L ε α κ) : Prop where
  pending : ∀ d, W x.held d (x.pending d)
  program : x.program.Changes W x.held

theorem Within.of {service : κ → Tx D L ε α} {call : κ} (hW : Tx.Bound W)
    (h : (service call).Changes W []) : (Session.of service call).Within W where
  pending := fun d => hW.refl [] d
  program := h

theorem Within.lock (hW : Tx.Bound W) (h : x.Within W) (hprogram : x.program = .lock row rest) :
    (x.lock row rest).Within W where
  pending := fun d => hW.mono row x.held d _ (h.pending d)
  program := by
    have hrest := h.program
    rw [hprogram] at hrest
    exact hrest

theorem Within.execute (hW : Tx.Bound W) (h : x.Within W) (hprogram : x.program = .stmt change next)
    (d : D) : (x.execute d change next).Within W := by
  have hrest := h.program
  rw [hprogram] at hrest
  exact ⟨fun d' => hW.trans _ _ _ _ (h.pending d') (hrest.1 _ _), hrest.2 _⟩

end Session

namespace System

variable [DecidableEq L] {service : κ → Tx D L ε α} {s s' : System D L ε α κ} {e : Event κ}
  {P : D → Session D L ε α κ → Prop}

omit [DecidableEq L] in
/-- What holds of each session in flight: it is there at the start, its own steps keep it
and what the others commit keeps it. -/
theorem Step.sessions (h : Step service s e s') (hs : ∀ x ∈ s.sessions, P s.committed x)
    (hstart : ∀ call, e = .start call → P s.committed (.of service call))
    (hlock : ∀ x row next, x ∈ s.sessions → x.program = .lock row next →
      P s.committed (x.lock row next))
    (hexecute : ∀ i before x after change next, e = .advance i → s.At i before x after →
      x.program = .stmt change next → P s.committed (x.execute s.committed change next))
    (hcommit : ∀ i before x after a, e = .advance i → s.At i before x after → x.program = .ret a →
      ∀ y ∈ before ++ after, P (x.pending s.committed) y) :
    ∀ x ∈ s'.sessions, P s'.committed x := by
  have hothers : ∀ {i before x after}, s.At i before x after → ∀ y ∈ before ++ after,
      y ∈ s.sessions := by
    intro i before x after hat y hy
    rw [hat.sessions, List.mem_append, List.mem_cons]
    rw [List.mem_append] at hy
    exact hy.imp id Or.inr
  cases h with
  | start call =>
    intro x hx
    cases List.mem_append.mp hx with
    | inl hx => exact hs x hx
    | inr hx =>
      rw [List.mem_singleton.mp hx]
      exact hstart call rfl
  | @commit i before after x a hat hprogram => exact hcommit i before x after a rfl hat hprogram
  | roll_back hat _ => exact fun y hy => hs y (hothers hat y hy)
  | @lock i before after x row next hat hprogram _ =>
    have hx : x ∈ s.sessions := by
      rw [hat.sessions]
      exact List.mem_append_right _ List.mem_cons_self
    intro y hy
    rw [List.mem_append, List.mem_cons] at hy
    rcases hy with hy | rfl | hy
    · exact hs y (hothers hat y (List.mem_append_left _ hy))
    · exact hlock x row next hx hprogram
    · exact hs y (hothers hat y (List.mem_append_right _ hy))
  | @execute i before after x change next hat hprogram =>
    intro y hy
    rw [List.mem_append, List.mem_cons] at hy
    rcases hy with hy | rfl | hy
    · exact hs y (hothers hat y (List.mem_append_left _ hy))
    · exact hexecute i before x after change next rfl hat hprogram
    · exact hs y (hothers hat y (List.mem_append_right _ hy))

end System

end foundation
