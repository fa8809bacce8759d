import LaGraph.Foundation.Interleaving

namespace foundation

variable {D L ε α β κ : Type}

namespace Tx

/-- Whatever others commit while the transaction runs, as far as `R` lets them for
the locks it holds, `Q` holds of its value, locks and changes when it commits. -/
def Safe (R : List L → D → D → Prop) (Q : α → List L → (D → D) → D → Prop) :
    Tx D L ε α → List L → (D → D) → D → Prop
  | .ret a, held, pending, d => ∀ d', R held d d' → Q a held pending d'
  | .raise _, _, _, _ => True
  | .lock row next, held, pending, d =>
    ∀ d', R held d d' → Safe R Q next (row :: held) pending d'
  | .stmt change next, held, pending, d =>
    ∀ d', R held d d' → Safe R Q (next (pending d')) held (change (pending d') ∘ pending) d'

/-- A rely condition that allows nothing to happen and two things in a row. -/
structure Rely (R : List L → D → D → Prop) : Prop where
  refl : ∀ held d, R held d d
  trans : ∀ held a b c, R held a b → R held b c → R held a c

section Safe

variable {R : List L → D → D → Prop} {Q : α → List L → (D → D) → D → Prop}
  {held : List L} {pending : D → D} {d d' : D}

/-- What others commit does not make a transaction unsafe. -/
theorem Safe.rely (hR : Rely R) {t : Tx D L ε α} (h : Safe R Q t held pending d)
    (hd : R held d d') : Safe R Q t held pending d' := by
  cases t with
  | ret a => exact fun e he => h e (hR.trans _ _ _ _ hd he)
  | raise e => trivial
  | lock row next => exact fun e he => h e (hR.trans _ _ _ _ hd he)
  | stmt change next => exact fun e he => h e (hR.trans _ _ _ _ hd he)

/-- What no other transaction breaks still holds when this one commits. -/
theorem Safe.stable {P : D → Prop} (hP : ∀ held d d', R held d d' → P d → P d') {t : Tx D L ε α}
    (h : Safe R Q t held pending d) (hd : P d) :
    Safe R (fun a held pending d => Q a held pending d ∧ P d) t held pending d := by
  induction t generalizing held pending d with
  | ret a => exact fun e he => ⟨h e he, hP _ _ _ he hd⟩
  | raise e => trivial
  | lock row next ih => exact fun e he => ih (h e he) (hP _ _ _ he hd)
  | stmt change next ih => exact fun e he => ih _ (h e he) (hP _ _ _ he hd)

theorem Safe.bind (hR : Rely R) {P : β → List L → (D → D) → D → Prop} {t : Tx D L ε β}
    {f : β → Tx D L ε α} (h : Safe R P t held pending d)
    (hf : ∀ b held pending d, P b held pending d → Safe R Q (f b) held pending d) :
    Safe R Q (t >>= f) held pending d := by
  change Safe R Q (t.bind f) held pending d
  induction t generalizing held pending d with
  | ret b => exact hf b held pending d (h d (hR.refl _ _))
  | raise e => trivial
  | lock row next ih => exact fun e he => ih (h e he)
  | stmt change next ih => exact fun e he => ih _ (h e he)

theorem Safe.ret {a : α} (h : ∀ d', R held d d' → Q a held pending d') :
    Safe R Q (pure a : Tx D L ε α) held pending d := h

theorem Safe.select_bind {f : D → β} {k : β → Tx D L ε α}
    (h : ∀ d', R held d d' → Safe R Q (k (f (pending d'))) held pending d') :
    Safe R Q (select f >>= k) held pending d := h

theorem Safe.execute_bind {change : D → D → D} {k : Unit → Tx D L ε α}
    (h : ∀ d', R held d d' → Safe R Q (k ()) held (change (pending d') ∘ pending) d') :
    Safe R Q (execute change >>= k) held pending d := h

theorem Safe.execute {change : D → D → D} {Q : Unit → List L → (D → D) → D → Prop}
    (h : ∀ d' e, R held d d' → R held d' e → Q () held (change (pending d') ∘ pending) e) :
    Safe R Q (execute change : Tx D L ε Unit) held pending d :=
  fun d' hd e he => h d' e hd he

theorem Safe.acquire_bind {row : L} {k : Unit → Tx D L ε α}
    (h : ∀ d', R held d d' → Safe R Q (k ()) (row :: held) pending d') :
    Safe R Q (acquire row >>= k) held pending d := h

theorem Safe.raiseIf_bind {c : Prop} [Decidable c] {e : ε} {k : Unit → Tx D L ε α}
    (h : ¬ c → Safe R Q (k ()) held pending d) :
    Safe R Q (raiseIf c e >>= k) held pending d := by
  unfold raiseIf
  split
  · trivial
  · rename_i hc
    exact h hc

theorem Safe.orRaise_bind {row : Option β} {e : ε} {k : β → Tx D L ε α}
    (h : ∀ b, row = some b → Safe R Q (k b) held pending d) :
    Safe R Q (orRaise row e >>= k) held pending d := by
  cases row with
  | none => trivial
  | some b => exact h b rfl

theorem Safe.whenever_bind {c : Prop} [Decidable c] {t : Tx D L ε Unit}
    {k : Unit → Tx D L ε α} (h : c → Safe R Q (t >>= k) held pending d)
    (h' : ¬ c → Safe R Q (k ()) held pending d) :
    Safe R Q (whenever c t >>= k) held pending d := by
  unfold whenever
  split
  · rename_i hc
    exact h hc
  · rename_i hc
    exact h' hc

theorem Safe.whenever {c : Prop} [Decidable c] {t : Tx D L ε Unit}
    {Q : Unit → List L → (D → D) → D → Prop} (h : c → Safe R Q t held pending d)
    (h' : ¬ c → ∀ d', R held d d' → Q () held pending d') :
    Safe R Q (whenever c t) held pending d := by
  unfold Tx.whenever
  split
  · rename_i hc
    exact h hc
  · rename_i hc
    exact h' hc

/-- A loop keeps what each of its rounds keeps. -/
theorem Safe.forEach (hR : Rely R) {K : List L → (D → D) → D → Prop} {f : β → Tx D L ε Unit}
    {l : List β} (hstable : ∀ held pending d d', R held d d' → K held pending d → K held pending d')
    (hround : ∀ b ∈ l, ∀ held pending d, K held pending d →
      Safe R (fun _ => K) (f b) held pending d) (h : K held pending d) :
    Safe R (fun _ => K) (forEach f l) held pending d := by
  induction l generalizing held pending d with
  | nil => exact fun e he => hstable _ _ _ _ he h
  | cons b l ih =>
    refine Safe.bind hR (hround b List.mem_cons_self held pending d h) ?_
    intro _ held' pending' e hK
    exact ih (fun b hb => hround b (List.mem_cons_of_mem _ hb)) hK

end Safe

end Tx

/-- A session that is safe from where it is. -/
def Session.Safe (R : κ → List L → D → D → Prop) (Q : κ → α → List L → (D → D) → D → Prop)
    (d : D) (x : Session D L ε α κ) : Prop :=
  x.program.Safe (R x.call) (Q x.call) x.held x.pending d

namespace System

variable [DecidableEq L] {R : κ → List L → D → D → Prop}
  {Q : κ → α → List L → (D → D) → D → Prop} {service : κ → Tx D L ε α}
  {s s' : System D L ε α κ} {e : Event κ}

/-- Every session in flight is safe. -/
def Safe (R : κ → List L → D → D → Prop) (Q : κ → α → List L → (D → D) → D → Prop)
    (s : System D L ε α κ) : Prop :=
  ∀ x ∈ s.sessions, x.Safe R Q s.committed

omit [DecidableEq L] in
/-- What a safe session that commits has brought about. -/
theorem Safe.at_commit (hR : ∀ call, Tx.Rely (R call)) {i : Nat}
    {before after : List (Session D L ε α κ)} {x : Session D L ε α κ} {a : α} (hs : s.Safe R Q)
    (hat : s.At i before x after) (hprogram : x.program = .ret a) :
    Q x.call a x.held x.pending s.committed := by
  have hx := hs x (hat.sessions ▸ List.mem_append_right _ List.mem_cons_self)
  rw [Session.Safe, hprogram] at hx
  exact hx _ ((hR x.call).refl _ _)

omit [DecidableEq L] in
/-- The sessions stay safe when each one may rely on what the others commit. -/
theorem Step.safe (hR : ∀ call, Tx.Rely (R call)) (h : Step service s e s') (hs : s.Safe R Q)
    (hstart : ∀ call, e = .start call →
      (service call).Safe (R call) (Q call) [] id s.committed)
    (hcommit : ∀ i before x after a, s.At i before x after → x.program = .ret a →
      ∀ y ∈ before ++ after, R y.call y.held s.committed (x.pending s.committed)) :
    s'.Safe R Q := by
  have hothers : ∀ {i before x after}, s.At i before x after → ∀ y ∈ before ++ after,
      y.Safe R Q s.committed := by
    intro i before x after hat y hy
    refine hs y (hat.sessions ▸ ?_)
    rw [List.mem_append, List.mem_cons]
    rw [List.mem_append] at hy
    exact hy.imp id Or.inr
  cases h with
  | start call =>
    intro x hx
    cases List.mem_append.mp hx with
    | inl hx => exact hs x hx
    | inr hx =>
      rw [List.mem_singleton.mp hx]
      exact hstart call rfl
  | @commit i before after x a hat hprogram =>
    intro y hy
    exact (hothers hat y hy).rely (hR y.call) (hcommit i before x after a hat hprogram y hy)
  | roll_back hat _ => exact hothers hat
  | @lock i before after x row next hat hprogram _ =>
    intro y hy
    rw [List.mem_append, List.mem_cons] at hy
    have hx := hs x (hat.sessions ▸ List.mem_append_right _ List.mem_cons_self)
    rw [Session.Safe, hprogram] at hx
    rcases hy with hy | rfl | hy
    · exact hothers hat y (List.mem_append_left _ hy)
    · exact hx _ ((hR x.call).refl _ _)
    · exact hothers hat y (List.mem_append_right _ hy)
  | @execute i before after x change next hat hprogram =>
    intro y hy
    rw [List.mem_append, List.mem_cons] at hy
    have hx := hs x (hat.sessions ▸ List.mem_append_right _ List.mem_cons_self)
    rw [Session.Safe, hprogram] at hx
    rcases hy with hy | rfl | hy
    · exact hothers hat y (List.mem_append_left _ hy)
    · exact hx _ ((hR x.call).refl _ _)
    · exact hothers hat y (List.mem_append_right _ hy)

end System

end foundation
