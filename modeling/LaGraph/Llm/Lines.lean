import LaGraph.Foundation.Json.Quotes
import LaGraph.Llm.Structured
import LaGraph.Plsql.Source.Lines

open foundation foundation.unicode
open lagraph.plsql (splitlines LINE_BOUNDARIES)

namespace lagraph.llm

section Unify

/-- A character that ends a line. -/
def Boundary (c : Char) : Prop :=
  c = '\r' ∨ c ∈ LINE_BOUNDARIES

instance : DecidablePred Boundary :=
  fun c => inferInstanceAs (Decidable (c = '\r' ∨ c ∈ LINE_BOUNDARIES))

def line_feed (c : Char) : Char :=
  if Boundary c then '\n' else c

/-- Carriage return and line feed as one line feed. -/
def collapse : List Char → List Char
  | '\r' :: '\n' :: s => '\n' :: collapse s
  | c :: s => c :: collapse s
  | [] => []

/-- A text whose lines end with line feeds. -/
def unify (s : List Char) : List Char :=
  (collapse s).map line_feed

variable {s t line : List Char} {c : Char}

theorem collapse_cons (hc : c ≠ '\r') : collapse (c :: s) = c :: collapse s := by
  rw [collapse.eq_def]
  split
  · rename_i heq
    exact absurd (List.cons.inj heq).1 hc
  · rename_i heq
    obtain ⟨rfl, rfl⟩ := List.cons.inj heq
    rfl
  · rename_i heq
    cases heq

theorem collapse_cut (hc : c ≠ '\n') : collapse (s ++ c :: t) = collapse s ++ collapse (c :: t) := by
  fun_induction collapse s with
  | case1 s ih => rw [List.cons_append, List.cons_append, collapse, ih, List.cons_append]
  | case2 d s hpair ih =>
    have hpair' (u : List Char) (hd : d = '\r') : s ++ c :: t ≠ '\n' :: u := by
      intro heq
      cases s with
      | nil => exact hc (List.cons.inj heq).1
      | cons e s =>
        rw [List.cons_append, List.cons.injEq] at heq
        exact hpair s hd (by rw [heq.1])
    rw [List.cons_append, collapse.eq_2 d _ hpair', ih, List.cons_append]
  | case3 => rfl

theorem mem_collapse (h : c ∈ s) (hc : c ≠ '\r') : c ∈ collapse s := by
  fun_induction collapse s with
  | case1 s ih =>
    rw [List.mem_cons, List.mem_cons] at h
    obtain h | rfl | h := h
    · exact absurd h hc
    · exact List.mem_cons_self
    · exact List.mem_cons_of_mem _ (ih h)
  | case2 d s hpair ih =>
    rcases List.mem_cons.mp h with rfl | h
    · exact List.mem_cons_self
    · exact List.mem_cons_of_mem _ (ih h)
  | case3 => exact h

theorem mem_of_mem_collapse (h : c ∈ collapse s) : c ∈ s := by
  fun_induction collapse s with
  | case1 s ih =>
    rcases List.mem_cons.mp h with rfl | h
    · exact List.mem_cons_of_mem _ List.mem_cons_self
    · exact List.mem_cons_of_mem _ (List.mem_cons_of_mem _ (ih h))
  | case2 d s hpair ih =>
    rcases List.mem_cons.mp h with rfl | h
    · exact List.mem_cons_self
    · exact List.mem_cons_of_mem _ (ih h)
  | case3 => exact h

theorem newline_mem_collapse (h : '\r' ∈ s) : '\r' ∈ collapse s ∨ '\n' ∈ collapse s := by
  fun_induction collapse s with
  | case1 s ih => exact .inr List.mem_cons_self
  | case2 d s hpair ih =>
    rcases List.mem_cons.mp h with rfl | h
    · exact .inl List.mem_cons_self
    · exact (ih h).imp (List.mem_cons_of_mem _) (List.mem_cons_of_mem _)
  | case3 => cases h

theorem line_feed_boundary (hc : Boundary c) : line_feed c = '\n' :=
  if_pos hc

theorem line_feed_other (hc : ¬Boundary c) : line_feed c = c :=
  if_neg hc

theorem boundary_newline : Boundary '\n' := by
  decide

/-- A unified text has a line feed exactly where the text has a boundary. -/
theorem newline_mem_unify : '\n' ∈ unify s ↔ ∃ c ∈ s, Boundary c := by
  rw [unify, List.mem_map]
  constructor
  · rintro ⟨c, hc, heq⟩
    by_cases hboundary : Boundary c
    · exact ⟨c, mem_of_mem_collapse hc, hboundary⟩
    · rw [line_feed_other hboundary] at heq
      exact absurd (heq ▸ boundary_newline) hboundary
  · rintro ⟨c, hc, hboundary⟩
    by_cases hreturn : c = '\r'
    · rcases newline_mem_collapse (hreturn ▸ hc) with hmem | hmem
      · exact ⟨'\r', hmem, by decide⟩
      · exact ⟨'\n', hmem, by decide⟩
    · exact ⟨c, mem_collapse hc hreturn, line_feed_boundary hboundary⟩

/-- Other characters of a unified text are characters of the text. -/
theorem mem_of_mem_unify (h : c ∈ unify s) (hc : c ≠ '\n') : c ∈ s := by
  obtain ⟨d, hd, rfl⟩ := List.mem_map.mp h
  by_cases hboundary : Boundary d
  · exact absurd (line_feed_boundary hboundary) hc
  · rw [line_feed_other hboundary]
    exact mem_of_mem_collapse hd

theorem unify_cut (hc : c ≠ '\n') : unify (s ++ c :: t) = unify s ++ unify (c :: t) := by
  rw [unify, collapse_cut hc, List.map_append]
  rfl

theorem unify_cons (hc : ¬Boundary c) : unify (c :: s) = c :: unify s := by
  have hreturn : c ≠ '\r' := fun h => hc (.inl h)
  rw [unify, collapse_cons hreturn, List.map_cons, line_feed_other hc]
  rfl

theorem unify_break (hc : Boundary c) (hpair : ∀ u, c = '\r' → s ≠ '\n' :: u) :
    unify (c :: s) = '\n' :: unify s := by
  rw [unify, collapse.eq_2 c s hpair, List.map_cons, line_feed_boundary hc]
  rfl

/-- The lines of a text that ends within a line. -/
theorem splitlines_eq (hlast : ∀ c ∈ s.getLast?, ¬Boundary c) (hline : '\n' ∉ line)
    (hne : line ≠ [] ∨ s ≠ []) :
    (splitlines line s).map String.toList = (line.reverse ++ unify s).splitOn '\n' := by
  have hcut (line s : List Char) (h : '\n' ∉ line) :
      (line.reverse ++ '\n' :: s).splitOn '\n' = line.reverse :: s.splitOn '\n' :=
    List.splitOn_append_cons_self_of_not_mem (by rwa [List.mem_reverse]) s
  have hlast' (c : Char) (s : List Char) (h : ∀ d ∈ (c :: s).getLast?, ¬Boundary d) :
      ∀ d ∈ s.getLast?, ¬Boundary d := by
    cases s with
    | nil => exact fun d hd => by cases hd
    | cons e s => rwa [List.getLast?_cons_cons] at h
  fun_induction splitlines line s with
  | case1 => exact absurd rfl (hne.resolve_right fun h => h rfl)
  | case2 line hnil =>
    have hsingle : line.reverse.splitOn '\n' = [line.reverse] :=
      List.splitOn_eq_singleton (by rwa [List.mem_reverse])
    have hunify : unify [] = [] := rfl
    rw [hunify, List.append_nil, hsingle, List.map_singleton, String.toList_ofList]
  | case3 line s ih =>
    have hs : s ≠ [] := by
      rintro rfl
      exact hlast '\n' rfl boundary_newline
    have hunify : unify ('\r' :: '\n' :: s) = '\n' :: unify s := rfl
    have hrest := ih (hlast' _ _ (hlast' _ _ hlast)) List.not_mem_nil (.inr hs)
    rw [hunify, hcut _ _ hline, List.map_cons, hrest, String.toList_ofList]
    rfl
  | case4 line c s hpair hboundary ih =>
    have hs : s ≠ [] := by
      rintro rfl
      exact hlast c rfl hboundary
    have hrest := ih (hlast' _ _ hlast) List.not_mem_nil (.inr hs)
    rw [unify_break hboundary hpair, hcut _ _ hline, List.map_cons, hrest, String.toList_ofList]
    rfl
  | case5 line c s hpair hinside ih =>
    have hc : c ≠ '\n' := fun hc => hinside (hc ▸ boundary_newline)
    have hunify : unify (c :: s) = c :: unify s := unify_cons hinside
    have hnext : '\n' ∉ c :: line := by
      rw [List.mem_cons, not_or]
      exact ⟨hc.symm, hline⟩
    have hrest := ih (hlast' _ _ hlast) hnext (.inl (List.cons_ne_nil _ _))
    rw [hrest, hunify, List.reverse_cons, List.append_assoc]
    rfl

end Unify

section Fences

theorem intercalate_concat {sep b : List Char} {pieces : List (List Char)} (h : pieces ≠ []) :
    sep.intercalate (pieces ++ [b]) = sep.intercalate pieces ++ (sep ++ b) := by
  induction pieces with
  | nil => exact absurd rfl h
  | cons a pieces ih =>
    by_cases hne : pieces = []
    · rw [hne, List.singleton_append, List.intercalate_cons_cons, List.intercalate_singleton,
        List.intercalate_singleton, List.append_assoc]
    · rw [List.cons_append, List.intercalate_cons_of_ne_nil (by simp), ih hne,
        List.intercalate_cons_of_ne_nil hne]
      simp only [List.append_assoc]

/-- A text of at least three lines is cut at its first line feed and at its last one. -/
theorem middle_of_splitOn {u : List Char} (h : 3 ≤ (u.splitOn '\n').length) :
    ∃ a x b, u = a ++ '\n' :: (x ++ '\n' :: b) ∧
      ['\n'].intercalate ((u.splitOn '\n').drop 1).dropLast = x := by
  have hjoin : ['\n'].intercalate (u.splitOn '\n') = u := List.intercalate_splitOn '\n'
  generalize u.splitOn '\n' = pieces at *
  cases pieces with
  | nil => cases h
  | cons a pieces =>
    rw [List.length_cons] at h
    have hne : pieces ≠ [] := List.length_pos_iff.mp (by omega)
    obtain ⟨mid, b, rfl⟩ := (List.eq_nil_or_concat' pieces).resolve_left hne
    have hmid : mid ≠ [] := by
      rintro rfl
      rw [List.nil_append, List.length_singleton] at h
      omega
    refine ⟨a, ['\n'].intercalate mid, b, ?_, ?_⟩
    · rw [← hjoin, List.intercalate_cons_of_ne_nil hne, intercalate_concat hmid]
      simp only [List.append_assoc, List.singleton_append]
    · rw [List.drop_succ_cons, List.drop_zero, List.dropLast_concat]

theorem splitOn_of_middle {a x b : List Char} (ha : '\n' ∉ a) (hb : '\n' ∉ b) :
    3 ≤ ((a ++ '\n' :: (x ++ '\n' :: b)).splitOn '\n').length ∧
      ['\n'].intercalate (((a ++ '\n' :: (x ++ '\n' :: b)).splitOn '\n').drop 1).dropLast = x := by
  have hsplit : (a ++ '\n' :: (x ++ '\n' :: b)).splitOn '\n' = a :: (x.splitOn '\n' ++ [b]) := by
    rw [List.splitOn_append_cons_self_of_not_mem ha, List.splitOn_append_cons_self,
      List.splitOn_eq_singleton hb]
  have hpos : 0 < (x.splitOn '\n').length := List.length_pos_iff.mpr (List.splitOn_ne_nil _ _)
  rw [hsplit, List.drop_succ_cons, List.drop_zero, List.dropLast_concat, List.intercalate_splitOn]
  refine ⟨?_, rfl⟩
  rw [List.length_cons, List.length_append, List.length_singleton]
  omega

end Fences

end lagraph.llm
