import Mathlib.Order.Defs.Unbundled

namespace foundation

variable {σ ε α β : Type}

namespace Stateful

variable {m : ExceptT ε (StateM σ) α} {s : σ}

theorem run_bind (m : ExceptT ε (StateM σ) α) (f : α → ExceptT ε (StateM σ) β) (s : σ) :
    (m >>= f).run.run s =
      match m.run.run s with
      | (.ok a, s') => (f a).run.run s'
      | (.error e, s') => (.error e, s') := by
  rw [ExceptT.run_bind, StateT.run_bind]
  rcases m.run.run s with ⟨a | a, s'⟩
  · rfl
  · rfl

theorem run_bind_ok {f : α → ExceptT ε (StateM σ) β} {s' : σ} {a : α}
    (h : m.run.run s = (.ok a, s')) : (m >>= f).run.run s = (f a).run.run s' := by
  rw [run_bind, h]

theorem run_bind_error {f : α → ExceptT ε (StateM σ) β} {s' : σ} {e : ε}
    (h : m.run.run s = (.error e, s')) : (m >>= f).run.run s = (.error e, s') := by
  rw [run_bind, h]

/-- A bind that returns has run both parts. -/
theorem of_run_bind_ok {f : α → ExceptT ε (StateM σ) β} {s'' : σ} {b : β}
    (h : (m >>= f).run.run s = (.ok b, s'')) :
    ∃ a s', m.run.run s = (.ok a, s') ∧ (f a).run.run s' = (.ok b, s'') := by
  rw [run_bind] at h
  rcases hm : m.run.run s with ⟨a | a, s'⟩
  · rw [hm] at h
    cases h
  · rw [hm] at h
    exact ⟨a, s', rfl, h⟩

/-- A bind that raises has raised in one of its parts. -/
theorem of_run_bind_error {f : α → ExceptT ε (StateM σ) β} {s' : σ} {e : ε}
    (h : (m >>= f).run.run s = (.error e, s')) :
    m.run.run s = (.error e, s') ∨
      ∃ a s₁, m.run.run s = (.ok a, s₁) ∧ (f a).run.run s₁ = (.error e, s') := by
  rw [run_bind] at h
  rcases hm : m.run.run s with ⟨a | a, s₁⟩
  · rw [hm] at h
    cases h
    exact Or.inl rfl
  · rw [hm] at h
    exact Or.inr ⟨a, s₁, rfl, h⟩

theorem run_bind_ok_iff {f : α → ExceptT ε (StateM σ) β} {s'' : σ} {b : β} :
    (m >>= f).run.run s = (.ok b, s'') ↔
      ∃ a s', m.run.run s = (.ok a, s') ∧ (f a).run.run s' = (.ok b, s'') := by
  refine ⟨of_run_bind_ok, ?_⟩
  rintro ⟨a, s', hm, hf⟩
  rw [run_bind_ok hm, hf]

theorem run_lift (x : Except ε α) :
    (liftM x : ExceptT ε (StateM σ) α).run.run s = (x, s) := by
  cases x with
  | ok a => rfl
  | error e => rfl

theorem run_get (s : σ) : (get : ExceptT ε (StateM σ) σ).run.run s = (.ok s, s) := rfl

theorem run_modify (f : σ → σ) (s : σ) :
    (modify f : ExceptT ε (StateM σ) PUnit).run.run s = (.ok ⟨⟩, f s) := rfl

theorem run_pure (a : α) (s : σ) :
    (pure a : ExceptT ε (StateM σ) α).run.run s = (.ok a, s) := rfl

theorem run_mapM_lift (f : β → Except ε α) (l : List β) (s : σ) :
    (l.mapM fun b => (liftM (f b) : ExceptT ε (StateM σ) α)).run.run s = (l.mapM f, s) := by
  induction l with
  | nil => rfl
  | cons b l ih =>
    rw [List.mapM_cons, List.mapM_cons, run_bind, run_lift]
    cases f b with
    | error e => rfl
    | ok a =>
      simp only
      rw [run_bind, ih]
      cases l.mapM f with
      | error e => rfl
      | ok as => rfl

/-- The induction over a fold that returns: `P` is about what it has folded so far. -/
theorem of_run_foldlM_ok {f : α → β → ExceptT ε (StateM σ) α} {P : List β → α → σ → Prop}
    {l : List β} {a a' : α} {s' : σ} (h : (l.foldlM f a).run.run s = (.ok a', s')) (hstart : P [] a s)
    (hstep : ∀ done b a s a' s', P done a s → (f a b).run.run s = (.ok a', s') →
      P (done ++ [b]) a' s') : P l a' s' := by
  suffices hall : ∀ done a s, P done a s → (l.foldlM f a).run.run s = (.ok a', s') →
      P (done ++ l) a' s' from hall [] a s hstart h
  clear h hstart
  induction l with
  | nil =>
    intro done a s hdone hrun
    rw [List.foldlM_nil, run_pure] at hrun
    cases hrun
    rw [List.append_nil]
    exact hdone
  | cons b l ih =>
    intro done a s hdone hrun
    rw [List.foldlM_cons] at hrun
    obtain ⟨a₁, s₁, hfirst, hrest⟩ := of_run_bind_ok hrun
    have hall := ih (done ++ [b]) a₁ s₁ (hstep done b a s a₁ s₁ hdone hfirst) hrest
    rw [List.append_assoc] at hall
    exact hall

/-- A fold returns when each of its steps does. -/
theorem run_foldlM_ok {f : α → β → ExceptT ε (StateM σ) α} {P : List β → α → σ → Prop}
    {l : List β} {a : α} (hstart : P [] a s)
    (hstep : ∀ done b rest a s, l = done ++ b :: rest → P done a s →
      ∃ a' s', (f a b).run.run s = (.ok a', s') ∧ P (done ++ [b]) a' s') :
    ∃ a' s', (l.foldlM f a).run.run s = (.ok a', s') ∧ P l a' s' := by
  suffices hall : ∀ rest done a s, l = done ++ rest → P done a s →
      ∃ a' s', (rest.foldlM f a).run.run s = (.ok a', s') ∧ P (done ++ rest) a' s' from
    hall l [] a s rfl hstart
  intro rest
  induction rest with
  | nil =>
    intro done a s _ hdone
    refine ⟨a, s, rfl, ?_⟩
    rw [List.append_nil]
    exact hdone
  | cons b rest ih =>
    intro done a s hl hdone
    obtain ⟨a₁, s₁, hfirst, hnext⟩ := hstep done b rest a s hl hdone
    have hsplit : l = (done ++ [b]) ++ rest := by rw [hl, List.append_assoc]; rfl
    obtain ⟨a₂, s₂, hrest, hall⟩ := ih (done ++ [b]) a₁ s₁ hsplit hnext
    refine ⟨a₂, s₂, ?_, ?_⟩
    · rw [List.foldlM_cons, run_bind_ok hfirst, hrest]
    · rw [List.append_assoc] at hall
      exact hall

/-- What a fold raises, one of its steps raises. -/
theorem of_run_foldlM_error {f : α → β → ExceptT ε (StateM σ) α} {P : ε → Prop}
    (hstep : ∀ a b s e s', (f a b).run.run s = (.error e, s') → P e) {l : List β} {a : α} {e : ε}
    {s' : σ} (h : (l.foldlM f a).run.run s = (.error e, s')) : P e := by
  induction l generalizing a s with
  | nil => cases h
  | cons b l ih =>
    rw [List.foldlM_cons] at h
    obtain h | ⟨a₁, s₁, -, h⟩ := of_run_bind_error h
    · exact hstep a b s e s' h
    · exact ih h

end Stateful

/-- Whatever the computation returns or raises, it takes each state to one that `R`
allows. -/
def Guarantees (R : σ → σ → Prop) (m : ExceptT ε (StateM σ) α) : Prop :=
  ∀ s, R s (m.run.run s).2

namespace Guarantees

variable {R : σ → σ → Prop} {m : ExceptT ε (StateM σ) α}

theorem pure (hrefl : ∀ s, R s s) (a : α) : Guarantees R (pure a : ExceptT ε (StateM σ) α) :=
  fun s => hrefl s

theorem throw (hrefl : ∀ s, R s s) (e : ε) : Guarantees R (throw e : ExceptT ε (StateM σ) α) :=
  fun s => hrefl s

/-- A computation without state. -/
theorem lift (hrefl : ∀ s, R s s) (x : Except ε α) :
    Guarantees R (liftM x : ExceptT ε (StateM σ) α) := by
  intro s
  cases x with
  | ok a => exact hrefl s
  | error e => exact hrefl s

theorem bind (htrans : ∀ a b c, R a b → R b c → R a c) {f : α → ExceptT ε (StateM σ) β}
    (hm : Guarantees R m) (hf : ∀ a, Guarantees R (f a)) : Guarantees R (m >>= f) := by
  intro s
  have hfirst := hm s
  rw [Stateful.run_bind]
  rcases hrun : m.run.run s with ⟨a | a, s'⟩
  · rw [hrun] at hfirst
    exact hfirst
  · rw [hrun] at hfirst
    exact htrans _ _ _ hfirst (hf a s')

theorem map (hm : Guarantees R m) (f : α → β) : Guarantees R (f <$> m) := by
  intro s
  have hfirst := hm s
  rw [ExceptT.run_map]
  change R s ((Except.map f <$> m.run : StateM σ (Except ε β)).run s).2
  rw [StateT.run_map]
  exact hfirst

theorem foldlM (hrefl : ∀ s, R s s) (htrans : ∀ a b c, R a b → R b c → R a c)
    {f : α → β → ExceptT ε (StateM σ) α} (hf : ∀ a b, Guarantees R (f a b)) (l : List β) (a : α) :
    Guarantees R (l.foldlM f a) := by
  induction l generalizing a with
  | nil => exact pure hrefl a
  | cons b l ih =>
    rw [List.foldlM_cons]
    exact bind htrans (hf a b) ih

theorem mapM (hrefl : ∀ s, R s s) (htrans : ∀ a b c, R a b → R b c → R a c)
    {f : α → ExceptT ε (StateM σ) β} (hf : ∀ a, Guarantees R (f a)) (l : List α) :
    Guarantees R (l.mapM f) := by
  induction l with
  | nil => exact pure hrefl []
  | cons a l ih =>
    rw [List.mapM_cons]
    exact bind htrans (hf a) fun b => bind htrans ih fun bs => pure hrefl (b :: bs)

end Guarantees

end foundation
