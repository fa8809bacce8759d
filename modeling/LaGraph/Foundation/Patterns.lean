import Mathlib.Control.Basic
import Mathlib.Data.List.Basic

namespace foundation

/-- What a pattern captures at the front of a text and what it leaves, one pair for each way to
match, in the order in which backtracking tries them. -/
def Pattern (α : Type) : Type :=
  List Char → List (α × List Char)

namespace Pattern

variable {α β : Type}

instance : Monad Pattern where
  pure a := fun s => [(a, s)]
  bind p f := fun s => (p s).flatMap fun r => f r.1 r.2

/-- `re.match`: what the first way captures. -/
def captures (p : Pattern α) (s : List Char) : Option α :=
  (p s).head?.map (·.1)

def literal (text : List Char) : Pattern Unit := fun s =>
  if text.isPrefixOf s then [((), s.drop text.length)] else []

def char (admits : Char → Bool) : Pattern Char
  | [] => []
  | c :: s => if admits c then [(c, s)] else []

/-- As few characters as can be. -/
def fewest (admits : Char → Bool) : Pattern (List Char)
  | [] => [([], [])]
  | c :: s =>
    ([], c :: s) ::
      if admits c then (fewest admits s).map fun r => (c :: r.1, r.2) else []

/-- As many characters as can be. -/
def most (admits : Char → Bool) : Pattern (List Char) := fun s =>
  (fewest admits s).reverse

/-- One character before what the rest captures. -/
def after (admits : Char → Bool) (rest : Pattern (List Char)) : Pattern (List Char) := do
  let c ← char admits
  let s ← rest
  pure (c :: s)

def either (p q : Pattern α) : Pattern α := fun s =>
  p s ++ q s

/-- The end of the text. -/
def finish : Pattern Unit := fun s =>
  if s.isEmpty then [((), [])] else []

/-- `re.split`: what stands between the matches, for a bound on the length of the text. -/
def split (p : Pattern α) : Nat → List Char → List (List Char)
  | 0, s => [s]
  | _ + 1, [] => [[]]
  | n + 1, c :: s =>
    match (p (c :: s)).head? with
    | some (_, rest) => [] :: split p n rest
    | none => (split p n s).modifyHead (c :: ·)

theorem bind_eq (p : Pattern α) (f : α → Pattern β) (s : List Char) :
    (p >>= f) s = (p s).flatMap fun r => f r.1 r.2 :=
  rfl

theorem pure_eq (a : α) (s : List Char) : (pure a : Pattern α) s = [(a, s)] :=
  rfl

/-- The first way to match captures `a` and leaves `rest`. -/
def Begins (p : Pattern α) (s : List Char) (a : α) (rest : List Char) : Prop :=
  (p s).head? = some (a, rest)

/-- A separator does not start inside a text that it follows. -/
def First (sep : List Char) : List Char → Prop
  | [] => True
  | c :: s => ¬ sep <+: c :: (s ++ sep) ∧ First sep s

instance First.decidable (sep : List Char) : (s : List Char) → Decidable (First sep s)
  | [] => isTrue trivial
  | _ :: s => @instDecidableAnd _ _ _ (First.decidable sep s)

section Always

/-- Whatever a pattern captures is good. -/
def Always (p : Pattern α) (good : α → Prop) : Prop :=
  ∀ s, ∀ r ∈ p s, good r.1

variable {p : Pattern α} {f : α → Pattern β} {good : β → Prop} {good' : α → Prop}

theorem Always.captures {good : α → Prop} (h : Always p good) {s : List Char} {a : α}
    (ha : p.captures s = some a) : good a := by
  obtain ⟨r, hr, rfl⟩ := Option.map_eq_some_iff.mp ha
  exact h s r (List.mem_of_mem_head? hr)

theorem Always.bind_of (hp : Always p good') (hf : ∀ a, good' a → Always (f a) good) :
    Always (p >>= f) good := by
  intro s r hr
  rw [bind_eq, List.mem_flatMap] at hr
  obtain ⟨first, hfirst, hr⟩ := hr
  exact hf first.1 (hp s first hfirst) first.2 r hr

theorem Always.bind (hf : ∀ a, Always (f a) good) : Always (p >>= f) good := by
  have hany : Always p fun _ => True := fun _ _ _ => trivial
  exact hany.bind_of fun a _ => hf a

theorem Always.pure {good : α → Prop} {a : α} (h : good a) : Always (Pure.pure a) good := by
  intro s r hr
  rw [pure_eq, List.mem_singleton] at hr
  rw [hr]
  exact h

/-- One character at least is captured. -/
theorem always_after (admits : Char → Bool) (p : Pattern (List Char)) :
    Always (after admits p) (· ≠ []) :=
  .bind fun c => .bind fun s => .pure (List.cons_ne_nil c s)

end Always

section Begins

variable {p q : Pattern α} {f : α → Pattern β} {a : α} {b : β} {s t u v rest : List Char} {c : Char}
  {admits : Char → Bool}

theorem Begins.captures (h : Begins p s a rest) : p.captures s = some a := by
  rw [Pattern.captures, h]
  rfl

theorem head_flatMap {γ δ : Type} {l : List γ} {g : γ → List δ} {x : γ} {y : δ}
    (hl : l.head? = some x) (hx : (g x).head? = some y) : (l.flatMap g).head? = some y := by
  cases l with
  | nil => cases hl
  | cons z l =>
    cases hl
    rw [List.flatMap_cons, List.head?_append, hx]
    rfl

theorem begins_pure : Begins (pure a : Pattern α) s a s :=
  rfl

theorem Begins.bind (h : Begins p s a t) (hf : Begins (f a) t b rest) :
    Begins (p >>= f) s b rest := by
  rw [Begins, bind_eq]
  exact head_flatMap h hf

theorem begins_literal (text : List Char) : Begins (literal text) (text ++ s) () s := by
  rw [Begins, literal, if_pos (List.isPrefixOf_iff_prefix.mpr (List.prefix_append text s)),
    List.drop_left]
  rfl

theorem literal_bind_nil {text : List Char} {k : Unit → Pattern β} (h : ¬ text <+: s) :
    (literal text >>= k) s = [] := by
  rw [bind_eq, literal, if_neg (mt List.isPrefixOf_iff_prefix.mp h)]
  rfl

theorem begins_char (hc : admits c = true) : Begins (char admits) (c :: s) c s := by
  rw [Begins, char, if_pos hc]
  rfl

theorem begins_finish : Begins finish [] () [] :=
  rfl

theorem either_bind (p q : Pattern α) (f : α → Pattern β) (s : List Char) :
    (either p q >>= f) s = (p >>= f) s ++ (q >>= f) s := by
  rw [bind_eq, either, List.flatMap_append]
  rfl

theorem begins_either_left (h : Begins (p >>= f) s b rest) :
    Begins (either p q >>= f) s b rest := by
  rw [Begins, either_bind, List.head?_append, h]
  rfl

theorem begins_either_right (hp : p s = []) (h : Begins (q >>= f) s b rest) :
    Begins (either p q >>= f) s b rest := by
  rw [Begins, either_bind, bind_eq p, hp, List.flatMap_nil, List.nil_append]
  exact h

theorem fewest_cons_bind (c : Char) (s : List Char) (f : List Char → Pattern β) :
    (fewest admits >>= f) (c :: s) = f [] (c :: s) ++
      if admits c = true then (fewest admits >>= fun u => f (c :: u)) s else [] := by
  rw [bind_eq, fewest, List.flatMap_cons]
  split
  · rw [List.flatMap_map, bind_eq]
  · rfl

/-- A text before a separator is captured up to its first occurrence, if the rest matches. -/
theorem begins_fewest {sep : List Char} {k : List Char → Pattern β}
    (hu : ∀ c ∈ u, admits c = true) (hfirst : First sep u) (hk : Begins (k u) v b rest) :
    Begins (fewest admits >>= fun u => literal sep >>= fun _ => k u) (u ++ (sep ++ v)) b rest := by
  induction u generalizing k with
  | nil =>
    have hrest : Begins (literal sep >>= fun _ => k []) (sep ++ v) b rest :=
      (begins_literal sep).bind hk
    rw [List.nil_append]
    generalize sep ++ v = s at hrest
    cases s with
    | nil => exact Begins.bind (rfl : Begins (fewest admits) [] [] []) hrest
    | cons c s =>
      rw [Begins, fewest_cons_bind, List.head?_append, hrest]
      rfl
  | cons c u ih =>
    obtain ⟨hc, hu⟩ := List.forall_mem_cons.mp hu
    have hnone : (literal sep >>= fun _ => k []) (c :: (u ++ (sep ++ v))) = [] := by
      apply literal_bind_nil
      intro hstart
      apply hfirst.1
      rw [← List.append_assoc, ← List.cons_append] at hstart
      refine List.prefix_of_prefix_length_le hstart (List.prefix_append _ _) ?_
      rw [List.length_cons, List.length_append]
      omega
    rw [List.cons_append, Begins, fewest_cons_bind, hnone, List.nil_append, if_pos hc]
    exact ih hu hfirst.2 hk

/-- A text before a separator at the end is captured whole. -/
theorem begins_fewest_finish {sep : List Char} {k : List Char → Pattern β}
    (hu : ∀ c ∈ u, admits c = true) (hk : Begins (k u) [] b rest) :
    Begins (fewest admits >>= fun u => literal sep >>= fun _ => finish >>= fun _ => k u)
      (u ++ sep) b rest := by
  induction u generalizing k with
  | nil =>
    have hrest : Begins (literal sep >>= fun _ => finish >>= fun _ => k []) sep b rest := by
      have hliteral := @begins_literal [] sep
      rw [List.append_nil] at hliteral
      exact hliteral.bind (begins_finish.bind hk)
    rw [List.nil_append]
    generalize hs : sep = s at hrest ⊢
    cases s with
    | nil => exact Begins.bind (rfl : Begins (fewest admits) [] [] []) hrest
    | cons c s =>
      rw [Begins, fewest_cons_bind, List.head?_append, hrest]
      rfl
  | cons c u ih =>
    obtain ⟨hc, hu⟩ := List.forall_mem_cons.mp hu
    have hnone : (literal sep >>= fun _ => finish >>= fun _ => k []) (c :: (u ++ sep)) = [] := by
      by_cases hstart : sep <+: c :: (u ++ sep)
      · rw [bind_eq, literal, if_pos (List.isPrefixOf_iff_prefix.mpr hstart), List.flatMap_cons,
          bind_eq, finish, if_neg]
        · rfl
        · rw [List.isEmpty_iff, List.drop_eq_nil_iff, List.length_cons, List.length_append]
          omega
      · exact literal_bind_nil hstart
    rw [List.cons_append, Begins, fewest_cons_bind, hnone, List.nil_append, if_pos hc]
    exact ih hu hk

/-- All that is admitted is captured in front of what is not. -/
theorem begins_most (hu : ∀ c ∈ u, admits c = true)
    (hv : ∀ c ∈ v.head?, admits c = false) : Begins (most admits) (u ++ v) u v := by
  have hlast : (fewest admits (u ++ v)).getLast? = some (u, v) := by
    induction u with
    | nil =>
      cases v with
      | nil => rfl
      | cons c v =>
        rw [List.nil_append, fewest, hv c rfl]
        rfl
    | cons c u ih =>
      obtain ⟨hc, hu⟩ := List.forall_mem_cons.mp hu
      have hne : (fewest admits (u ++ v)).map (fun r => (c :: r.1, r.2)) ≠ [] := by
        intro hnil
        have hrest := ih hu
        rw [List.map_eq_nil_iff.mp hnil] at hrest
        cases hrest
      rw [List.cons_append, fewest, if_pos hc, List.getLast?_cons_of_ne_nil hne, List.getLast?_map,
        ih hu]
      rfl
  rw [Begins, most, List.head?_reverse, hlast]

theorem begins_after {p : Pattern (List Char)} (hc : admits c = true) (h : Begins p s u rest) :
    Begins (after admits p) (c :: s) (c :: u) rest :=
  (begins_char hc).bind (h.bind begins_pure)

theorem bind_bind {γ : Type} (p : Pattern α) (f : α → Pattern β) (g : β → Pattern γ) :
    ((p >>= f) >>= g) = (p >>= fun a => f a >>= g) := by
  funext s
  simp only [bind_eq, List.flatMap_assoc]

theorem pure_bind (a : α) (f : α → Pattern β) : (Pure.pure a >>= f) = f a := by
  funext s
  rw [bind_eq, pure_eq, List.flatMap_singleton]

/-- One character, and then a text before a separator. -/
theorem begins_after_fewest {sep : List Char} {k : List Char → Pattern β} (hc : admits c = true)
    (hu : ∀ c ∈ u, admits c = true) (hfirst : First sep u) (hk : Begins (k (c :: u)) v b rest) :
    Begins (after admits (fewest admits) >>= fun u => literal sep >>= fun _ => k u)
      (c :: (u ++ (sep ++ v))) b rest := by
  rw [after]
  simp only [bind_bind, pure_bind]
  exact (begins_char hc).bind (begins_fewest hu hfirst hk)

end Begins

end Pattern

end foundation
