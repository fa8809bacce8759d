import Mathlib.Logic.Function.Basic

namespace foundation

/-- A transaction on databases `D` with row locks `L` and exceptions `ε`. A
statement sees the database and adds a change to those the transaction will
commit. -/
inductive Tx (D L ε α : Type)
  | ret (value : α)
  | raise (error : ε)
  | lock (row : L) (next : Tx D L ε α)
  | stmt (change : D → D → D) (next : D → Tx D L ε α)

namespace Tx

variable {D L ε α β : Type}

def bind : Tx D L ε α → (α → Tx D L ε β) → Tx D L ε β
  | .ret a, f => f a
  | .raise e, _ => .raise e
  | .lock row next, f => .lock row (next.bind f)
  | .stmt change next, f => .stmt change fun view => (next view).bind f

instance : Monad (Tx D L ε) where
  pure := .ret
  bind := bind

/-- A statement that only reads. -/
def select (f : D → α) : Tx D L ε α :=
  .stmt (fun _ d => d) fun view => .ret (f view)

/-- A statement that writes. `change view` is applied to what is committed in the
end, where `view` is what the statement sees. -/
def execute (change : D → D → D) : Tx D L ε Unit :=
  .stmt change fun _ => .ret ()

/-- Waits for the lock of a row. -/
def acquire (row : L) : Tx D L ε Unit :=
  .lock row (.ret ())

def raiseIf (condition : Prop) [Decidable condition] (error : ε) : Tx D L ε Unit :=
  if condition then .raise error else .ret ()

def whenever (condition : Prop) [Decidable condition] (t : Tx D L ε Unit) : Tx D L ε Unit :=
  if condition then t else .ret ()

/-- The value of an optional row, or the exception for a missing one. -/
def orRaise (row : Option α) (error : ε) : Tx D L ε α :=
  match row with
  | some a => .ret a
  | none => .raise error

/-- The transaction for each element in turn. -/
def forEach (f : α → Tx D L ε Unit) : List α → Tx D L ε Unit
  | [] => .ret ()
  | a :: l => do
    f a
    forEach f l

/-- Running a transaction alone: what it returns and what it commits. -/
def run : Tx D L ε α → D → Except ε (α × D)
  | .ret a, d => .ok (a, d)
  | .raise e, _ => .error e
  | .lock _ next, d => next.run d
  | .stmt change next, d => (next d).run (change d d)

/-- A transaction on its own: if it raises, the database is as before. -/
def transact (t : Tx D L ε α) (d : D) : Except ε α × D :=
  match t.run d with
  | .ok (a, d') => (.ok a, d')
  | .error e => (.error e, d)

theorem transact_ok {t : Tx D L ε α} {d d' : D} {a : α} (h : t.run d = .ok (a, d')) :
    t.transact d = (.ok a, d') := by
  rw [transact, h]

theorem transact_error {t : Tx D L ε α} {d : D} {e : ε} (h : t.run d = .error e) :
    t.transact d = (.error e, d) := by
  rw [transact, h]

/-- A transaction that raised has changed nothing. -/
theorem transact_raised {t : Tx D L ε α} {d d' : D} {e : ε} (h : t.transact d = (.error e, d')) :
    d' = d := by
  unfold transact at h
  split at h
  · cases h
  · cases h
    rfl

@[simp] theorem run_pure (a : α) (d : D) : (pure a : Tx D L ε α).run d = .ok (a, d) := rfl

@[simp] theorem run_ret (a : α) (d : D) : (ret a : Tx D L ε α).run d = .ok (a, d) := rfl

@[simp] theorem run_raise (e : ε) (d : D) : (raise e : Tx D L ε α).run d = .error e := rfl

theorem run_bind (t : Tx D L ε α) (f : α → Tx D L ε β) (d : D) :
    (t >>= f).run d = (t.run d).bind fun result => (f result.1).run result.2 := by
  change (t.bind f).run d = _
  induction t generalizing d with
  | ret a => rfl
  | raise e => rfl
  | lock row next ih => exact ih d
  | stmt change next ih => exact ih d (change d d)

/-- Sequencing is associative. -/
theorem bind_bind {γ : Type} (t : Tx D L ε α) (f : α → Tx D L ε β) (g : β → Tx D L ε γ) :
    ((t >>= f) >>= g) = (t >>= fun a => f a >>= g) := by
  change (t.bind f).bind g = t.bind fun a => (f a).bind g
  induction t with
  | ret a => rfl
  | raise e => rfl
  | lock row next ih => exact congrArg (Tx.lock row) ih
  | stmt change next ih => exact congrArg (Tx.stmt change) (funext ih)

@[simp] theorem run_select_bind (f : D → α) (k : α → Tx D L ε β) (d : D) :
    (select f >>= k).run d = (k (f d)).run d := rfl

@[simp] theorem run_execute_bind (change : D → D → D) (k : Unit → Tx D L ε β) (d : D) :
    (execute change >>= k).run d = (k ()).run (change d d) := rfl

@[simp] theorem run_execute (change : D → D → D) (d : D) :
    (execute change : Tx D L ε Unit).run d = .ok ((), change d d) := rfl

@[simp] theorem run_acquire_bind (row : L) (k : Unit → Tx D L ε β) (d : D) :
    (acquire row >>= k).run d = (k ()).run d := rfl

@[simp] theorem run_raise_bind (e : ε) (k : α → Tx D L ε β) (d : D) :
    (raise e >>= k).run d = .error e := rfl

@[simp] theorem run_ret_bind (a : α) (k : α → Tx D L ε β) (d : D) :
    (ret a >>= k).run d = (k a).run d := rfl

theorem run_raiseIf_bind (c : Prop) [Decidable c] (e : ε) (k : Unit → Tx D L ε β) (d : D) :
    (raiseIf c e >>= k).run d = if c then .error e else (k ()).run d := by
  unfold raiseIf
  split <;> rfl

/-- A guard that a successful run has passed. -/
theorem run_raiseIf_ok {c : Prop} [Decidable c] {e : ε} {k : Unit → Tx D L ε β} {d : D}
    {result : β × D} :
    (raiseIf c e >>= k).run d = .ok result ↔ ¬ c ∧ (k ()).run d = .ok result := by
  rw [run_raiseIf_bind]
  by_cases hc : c
  · simp [hc]
  · simp [hc]

theorem run_orRaise_ok {row : Option α} {e : ε} {k : α → Tx D L ε β} {d : D} {result : β × D} :
    (orRaise row e >>= k).run d = .ok result ↔ ∃ a, row = some a ∧ (k a).run d = .ok result := by
  cases row with
  | none => simp [orRaise]
  | some a => simp [orRaise]

theorem run_whenever_bind (c : Prop) [Decidable c] (t : Tx D L ε Unit) (k : Unit → Tx D L ε β)
    (d : D) : (whenever c t >>= k).run d = if c then (t >>= k).run d else (k ()).run d := by
  unfold whenever
  split <;> rfl

/-- Every successful run of the transaction takes a database to a related one. -/
def Preserves (R : D → D → Prop) (t : Tx D L ε α) : Prop :=
  ∀ d a d', t.run d = .ok (a, d') → R d d'

section Preserves

variable {R : D → D → Prop} {t : Tx D L ε α}

theorem Preserves.transact (h : Preserves R t) (hrefl : ∀ d, R d d) (d : D) :
    R d (t.transact d).2 := by
  cases hrun : t.run d with
  | ok result =>
    rw [transact_ok hrun]
    exact h d result.1 result.2 hrun
  | error e =>
    rw [transact_error hrun]
    exact hrefl d

theorem Preserves.ret (hrefl : ∀ d, R d d) (a : α) : Preserves R (.ret a : Tx D L ε α) := by
  intro d a' d' h
  cases h
  exact hrefl d

theorem Preserves.raise (e : ε) : Preserves R (.raise e : Tx D L ε α) := by
  intro d a d' h
  cases h

theorem Preserves.select (hrefl : ∀ d, R d d) (f : D → α) :
    Preserves R (select f : Tx D L ε α) := by
  intro d a d' h
  cases h
  exact hrefl d

theorem Preserves.acquire (hrefl : ∀ d, R d d) (row : L) :
    Preserves R (acquire row : Tx D L ε Unit) := by
  intro d a d' h
  cases h
  exact hrefl d

theorem Preserves.execute {change : D → D → D} (h : ∀ d, R d (change d d)) :
    Preserves R (execute change : Tx D L ε Unit) := by
  intro d a d' hrun
  cases hrun
  exact h d

theorem Preserves.raiseIf (hrefl : ∀ d, R d d) (c : Prop) [Decidable c] (e : ε) :
    Preserves R (raiseIf c e : Tx D L ε Unit) := by
  unfold Tx.raiseIf
  split
  · exact .raise e
  · exact .ret hrefl ()

theorem Preserves.whenever (hrefl : ∀ d, R d d) {c : Prop} [Decidable c] {t : Tx D L ε Unit}
    (h : c → Preserves R t) : Preserves R (whenever c t) := by
  unfold Tx.whenever
  split
  · rename_i hc
    exact h hc
  · exact .ret hrefl ()

theorem Preserves.orRaise (hrefl : ∀ d, R d d) (row : Option α) (e : ε) :
    Preserves R (orRaise row e : Tx D L ε α) := by
  cases row with
  | none => exact .raise e
  | some a => exact .ret hrefl a

theorem Preserves.bind {f : α → Tx D L ε β} (htrans : ∀ a b c, R a b → R b c → R a c)
    (ht : Preserves R t) (hf : ∀ a, Preserves R (f a)) : Preserves R (t >>= f) := by
  intro d b d' h
  rw [run_bind] at h
  cases hrun : t.run d with
  | error e =>
    rw [hrun] at h
    cases h
  | ok result =>
    rw [hrun] at h
    exact htrans _ _ _ (ht d result.1 result.2 hrun) (hf result.1 result.2 b d' h)

theorem Preserves.forEach {f : α → Tx D L ε Unit} (hrefl : ∀ d, R d d)
    (htrans : ∀ a b c, R a b → R b c → R a c) {l : List α} (h : ∀ a ∈ l, Preserves R (f a)) :
    Preserves R (forEach f l) := by
  induction l with
  | nil => exact .ret hrefl ()
  | cons a l ih =>
    exact .bind htrans (h a List.mem_cons_self) fun _ =>
      ih fun b hb => h b (List.mem_cons_of_mem a hb)

end Preserves

end Tx

end foundation
