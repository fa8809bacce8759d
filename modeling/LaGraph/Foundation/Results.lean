import Mathlib.Data.List.Forall2

namespace foundation.results

variable {α β ε : Type}

theorem bind_ok {x : Except ε α} {f : α → Except ε β} {b : β} :
    (x >>= f) = .ok b ↔ ∃ a, x = .ok a ∧ f a = .ok b := by
  cases x with
  | error e => simp [Bind.bind, Except.bind]
  | ok a => simp [Bind.bind, Except.bind]

theorem mem_toOption {x : Except ε α} {a : α} : a ∈ x.toOption ↔ x = .ok a := by
  cases x with
  | error e => simp [Except.toOption]
  | ok b => simp [Except.toOption]

theorem error_of_toOption {x : Except ε α} (h : x.toOption = none) : ∃ e, x = .error e := by
  cases x with
  | error e => exact ⟨e, rfl⟩
  | ok a => cases h

/-- Whatever a fallible map returns is a result at some element. -/
theorem mem_of_mapM {f : α → Except ε β} {l : List α} {bs : List β} (h : l.mapM f = .ok bs) :
    ∀ b ∈ bs, ∃ a ∈ l, f a = .ok b := by
  induction l generalizing bs with
  | nil =>
    cases h
    exact fun b hb => absurd hb List.not_mem_nil
  | cons a l ih =>
    rw [List.mapM_cons, bind_ok] at h
    obtain ⟨b, hb, h⟩ := h
    obtain ⟨rest, hrest, h⟩ := bind_ok.mp h
    cases h
    intro x hx
    cases List.mem_cons.mp hx with
    | inl hsame => exact ⟨a, List.mem_cons_self, hsame ▸ hb⟩
    | inr hx =>
      obtain ⟨y, hy, hfy⟩ := ih hrest x hx
      exact ⟨y, List.mem_cons_of_mem _ hy, hfy⟩

/-- A fallible map that succeeds has succeeded at every element. -/
theorem ok_of_mapM {f : α → Except ε β} {l : List α} {bs : List β} (h : l.mapM f = .ok bs) :
    ∀ a ∈ l, ∃ b, f a = .ok b := by
  induction l generalizing bs with
  | nil => exact fun a ha => absurd ha List.not_mem_nil
  | cons a l ih =>
    rw [List.mapM_cons, bind_ok] at h
    obtain ⟨b, hb, h⟩ := h
    obtain ⟨rest, hrest, -⟩ := bind_ok.mp h
    intro x hx
    cases List.mem_cons.mp hx with
    | inl hsame => exact ⟨b, hsame ▸ hb⟩
    | inr hx => exact ih hrest x hx

/-- The results of a fallible map, one for each element. -/
theorem forall₂_of_mapM {f : α → Except ε β} {l : List α} {bs : List β} (h : l.mapM f = .ok bs) :
    List.Forall₂ (fun a b => f a = .ok b) l bs := by
  induction l generalizing bs with
  | nil =>
    cases h
    exact .nil
  | cons a l ih =>
    rw [List.mapM_cons, bind_ok] at h
    obtain ⟨b, hb, h⟩ := h
    obtain ⟨rest, hrest, h⟩ := bind_ok.mp h
    cases h
    exact .cons hb (ih hrest)

/-- What a fallible map keeps. -/
theorem filterMap_of_mapM {f : α → Except ε (Option β)} {l : List α} {bs : List (Option β)}
    (h : l.mapM f = .ok bs) : bs.filterMap id = l.filterMap fun a => (f a).toOption.join := by
  induction l generalizing bs with
  | nil =>
    cases h
    rfl
  | cons a l ih =>
    rw [List.mapM_cons, bind_ok] at h
    obtain ⟨b, hb, h⟩ := h
    obtain ⟨rest, hrest, h⟩ := bind_ok.mp h
    cases h
    rw [List.filterMap_cons, List.filterMap_cons, ih hrest, hb]
    rfl

/-- A fallible map over a list succeeds when it does at every element, and it
relates the elements one by one. -/
theorem mapM_ok {f : α → Except ε β} {R : α → β → Prop} {l : List α}
    (h : ∀ a ∈ l, ∃ b, f a = .ok b ∧ R a b) :
    ∃ bs, l.mapM f = .ok bs ∧ List.Forall₂ R l bs := by
  induction l with
  | nil => exact ⟨[], rfl, .nil⟩
  | cons a l ih =>
    obtain ⟨b, hb, hR⟩ := h a (by simp)
    obtain ⟨bs, hbs, hall⟩ := ih fun x hx => h x (List.mem_cons_of_mem _ hx)
    exact ⟨b :: bs, by simp [hb, hbs, Bind.bind, Except.bind, pure, Except.pure], .cons hR hall⟩

theorem forall₂_exists_left {R : α → β → Prop} {l : List α} {bs : List β}
    (h : List.Forall₂ R l bs) {b : β} (hb : b ∈ bs) : ∃ a ∈ l, R a b := by
  induction h with
  | nil => cases hb
  | @cons x y l bs hR _ ih =>
    rcases List.mem_cons.mp hb with rfl | hb
    · exact ⟨x, by simp, hR⟩
    · obtain ⟨a, ha, hab⟩ := ih hb
      exact ⟨a, List.mem_cons_of_mem _ ha, hab⟩

theorem forall₂_exists_right {R : α → β → Prop} {l : List α} {bs : List β}
    (h : List.Forall₂ R l bs) {a : α} (ha : a ∈ l) : ∃ b ∈ bs, R a b := by
  obtain ⟨b, hb, hR⟩ := forall₂_exists_left h.flip ha
  exact ⟨b, hb, hR⟩

/-- Related elements that each come from a witness come from a list of witnesses. -/
theorem forall₂_choose {R : α → γ → Prop} {f : γ → β} {l : List α} {bs : List β}
    (h : List.Forall₂ (fun a b => ∃ c, b = f c ∧ R a c) l bs) :
    ∃ cs, bs = cs.map f ∧ List.Forall₂ R l cs := by
  induction h with
  | nil => exact ⟨[], rfl, .nil⟩
  | cons hhead _ ih =>
    obtain ⟨c, rfl, hR⟩ := hhead
    obtain ⟨cs, rfl, hall⟩ := ih
    exact ⟨c :: cs, rfl, .cons hR hall⟩

/-- What holds of any two elements in order holds of the elements related to them. -/
theorem forall₂_pairwise {R : α → β → Prop} {S : α → α → Prop} {T : β → β → Prop} {l : List α}
    {bs : List β} (h : List.Forall₂ R l bs) (hl : l.Pairwise S)
    (himp : ∀ {a a' b b'}, S a a' → R a b → R a' b' → T b b') : bs.Pairwise T := by
  induction h with
  | nil => exact .nil
  | cons hR hrest ih =>
    obtain ⟨hhead, htail⟩ := List.pairwise_cons.mp hl
    apply List.Pairwise.cons _ (ih htail)
    intro b hb
    obtain ⟨a, ha, hab⟩ := forall₂_exists_left hrest hb
    exact himp (hhead a ha) hR hab

end foundation.results
