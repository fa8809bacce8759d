import LaGraph.Foundation.Transactions

namespace foundation.Tx

variable {D L ε α β : Type}

/-- If the transaction, running alone, returns, `Q` holds of its value and of what it
leaves. -/
def Yields (Q : α → D → Prop) : Tx D L ε α → D → Prop
  | .ret a, d => Q a d
  | .raise _, _ => True
  | .lock _ next, d => Yields Q next d
  | .stmt change next, d => Yields Q (next d) (change d d)

variable {Q : α → D → Prop} {d d' : D}

theorem Yields.run {t : Tx D L ε α} (h : Yields Q t d) {a : α} (hrun : t.run d = .ok (a, d')) :
    Q a d' := by
  induction t generalizing d with
  | ret b =>
    cases hrun
    exact h
  | raise e => cases hrun
  | lock row next ih => exact ih h hrun
  | stmt change next ih => exact ih d h hrun

theorem Yields.of_run {t : Tx D L ε α} (h : ∀ a d', t.run d = .ok (a, d') → Q a d') :
    Yields Q t d := by
  induction t generalizing d with
  | ret a => exact h a d rfl
  | raise e => trivial
  | lock row next ih => exact ih h
  | stmt change next ih => exact ih _ h

/-- A transaction that raises leaves everything as it was. -/
theorem Yields.transact {P : D → Prop} {t : Tx D L ε α} (h : Yields (fun _ => P) t d) (hd : P d) :
    P (t.transact d).2 := by
  cases hrun : t.run d with
  | ok result =>
    rw [transact_ok hrun]
    exact h.run hrun
  | error e =>
    rw [transact_error hrun]
    exact hd

theorem Yields.mono {P : α → D → Prop} {t : Tx D L ε α} (h : Yields P t d)
    (himp : ∀ a d, P a d → Q a d) : Yields Q t d := by
  induction t generalizing d with
  | ret a => exact himp a d h
  | raise e => trivial
  | lock row next ih => exact ih h
  | stmt change next ih => exact ih d h

theorem Yields.bind {P : β → D → Prop} {t : Tx D L ε β} {f : β → Tx D L ε α}
    (h : Yields P t d) (hf : ∀ b d, P b d → Yields Q (f b) d) : Yields Q (t >>= f) d := by
  change Yields Q (t.bind f) d
  induction t generalizing d with
  | ret b => exact hf b d h
  | raise e => trivial
  | lock row next ih => exact ih h
  | stmt change next ih => exact ih d h

theorem Yields.select_bind {f : D → β} {k : β → Tx D L ε α} (h : Yields Q (k (f d)) d) :
    Yields Q (select f >>= k) d := h

theorem Yields.execute_bind {change : D → D → D} {k : Unit → Tx D L ε α}
    (h : Yields Q (k ()) (change d d)) : Yields Q (execute change >>= k) d := h

theorem Yields.acquire_bind {row : L} {k : Unit → Tx D L ε α} (h : Yields Q (k ()) d) :
    Yields Q (acquire row >>= k) d := h

theorem Yields.raiseIf_bind {c : Prop} [Decidable c] {e : ε} {k : Unit → Tx D L ε α}
    (h : ¬ c → Yields Q (k ()) d) : Yields Q (raiseIf c e >>= k) d := by
  by_cases hc : c
  · rw [raiseIf, if_pos hc]
    trivial
  · rw [raiseIf, if_neg hc]
    exact h hc

theorem Yields.orRaise_bind {row : Option β} {e : ε} {k : β → Tx D L ε α}
    (h : ∀ b, row = some b → Yields Q (k b) d) : Yields Q (orRaise row e >>= k) d := by
  cases row with
  | none => trivial
  | some b => exact h b rfl

theorem Yields.whenever {P : D → Prop} {c : Prop} [Decidable c] {t : Tx D L ε Unit} (hd : P d)
    (h : c → Yields (fun _ => P) t d) : Yields (fun _ => P) (whenever c t) d := by
  by_cases hc : c
  · rw [Tx.whenever, if_pos hc]
    exact h hc
  · rw [Tx.whenever, if_neg hc]
    exact hd

/-- What every element's transaction keeps holds after all of them. -/
theorem Yields.forEach {P : D → Prop} {f : β → Tx D L ε Unit} {l : List β} (hd : P d)
    (h : ∀ b ∈ l, ∀ d, P d → Yields (fun _ => P) (f b) d) :
    Yields (fun _ => P) (forEach f l) d := by
  induction l generalizing d with
  | nil => exact hd
  | cons b l ih =>
    refine Yields.bind (h b List.mem_cons_self d hd) fun _ d hd => ?_
    exact ih hd fun other hother => h other (List.mem_cons_of_mem b hother)

/-- The same with a condition on the elements whose turn has been. -/
theorem Yields.forEach_done {P : List β → D → Prop} {f : β → Tx D L ε Unit} {l : List β}
    (hd : P [] d) (h : ∀ done b rest, l = done ++ b :: rest → ∀ d, P done d →
      Yields (fun _ => P (done ++ [b])) (f b) d) : Yields (fun _ => P l) (Tx.forEach f l) d := by
  suffices hfrom : ∀ rest done, l = done ++ rest → ∀ d, P done d →
      Yields (fun _ => P l) (Tx.forEach f rest) d from hfrom l [] rfl d hd
  intro rest
  induction rest with
  | nil =>
    intro done hl d hd
    rw [List.append_nil] at hl
    exact hl ▸ hd
  | cons b rest ih =>
    intro done hl d hd
    refine Yields.bind (h done b rest hl d hd) fun _ d hd => ?_
    exact ih (done ++ [b]) (by simpa using hl) d hd

section Raises

variable {E : ε → Prop}

/-- Running alone, the transaction raises at most what `E` says. -/
def Raises (E : ε → Prop) : Tx D L ε α → D → Prop
  | .ret _, _ => True
  | .raise e, _ => E e
  | .lock _ next, d => Raises E next d
  | .stmt change next, d => Raises E (next d) (change d d)

theorem Raises.run {t : Tx D L ε α} (h : Raises E t d) {e : ε} (hrun : t.run d = .error e) : E e := by
  induction t generalizing d with
  | ret a => cases hrun
  | raise e' =>
    cases hrun
    exact h
  | lock row next ih => exact ih h hrun
  | stmt change next ih => exact ih d h hrun

theorem Raises.bind {t : Tx D L ε β} {f : β → Tx D L ε α} (h : Raises E t d)
    (hf : ∀ b d, Raises E (f b) d) : Raises E (t >>= f) d := by
  change Raises E (t.bind f) d
  induction t generalizing d with
  | ret b => exact hf b d
  | raise e => exact h
  | lock row next ih => exact ih h
  | stmt change next ih => exact ih d h

theorem Raises.select_bind {f : D → β} {k : β → Tx D L ε α} (h : Raises E (k (f d)) d) :
    Raises E (select f >>= k) d := h

theorem Raises.execute_bind {change : D → D → D} {k : Unit → Tx D L ε α}
    (h : Raises E (k ()) (change d d)) : Raises E (execute change >>= k) d := h

theorem Raises.acquire_bind {row : L} {k : Unit → Tx D L ε α} (h : Raises E (k ()) d) :
    Raises E (acquire row >>= k) d := h

theorem Raises.raiseIf_bind {c : Prop} [Decidable c] {e : ε} {k : Unit → Tx D L ε α} (hc : ¬ c)
    (h : Raises E (k ()) d) : Raises E (raiseIf c e >>= k) d := by
  rw [raiseIf, if_neg hc]
  exact h

theorem Raises.orRaise_bind {row : Option β} {b : β} {e : ε} {k : β → Tx D L ε α}
    (hrow : row = some b) (h : Raises E (k b) d) : Raises E (orRaise row e >>= k) d := by
  rw [hrow]
  exact h

theorem Raises.forEach {f : β → Tx D L ε Unit} {l : List β} (h : ∀ b ∈ l, ∀ d, Raises E (f b) d) :
    Raises E (forEach f l) d := by
  induction l generalizing d with
  | nil => trivial
  | cons b l ih =>
    exact Raises.bind (h b List.mem_cons_self d) fun _ _ =>
      ih fun other hother => h other (List.mem_cons_of_mem b hother)

end Raises

end foundation.Tx
