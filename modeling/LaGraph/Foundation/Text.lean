import Mathlib.Data.List.Basic
import Mathlib.Data.String.Basic

namespace foundation.text

/-- What follows the last occurrence of `sep`, as `s.rsplit(sep, 1)[1]` has
it; `none` when `sep` does not occur. -/
def afterLast (sep : List Char) : List Char → Option (List Char)
  | [] => none
  | c :: s =>
    match afterLast sep s with
    | some rest => some rest
    | none => if sep.isPrefixOf (c :: s) then some ((c :: s).drop sep.length) else none

/-- The string is cut at the character. -/
theorem afterLast_char {sep : Char} {l rest : List Char} (h : afterLast [sep] l = some rest) :
    ∃ pre, l = pre ++ sep :: rest := by
  induction l with
  | nil => cases h
  | cons c l ih =>
    rw [afterLast] at h
    cases hlast : afterLast [sep] l with
    | some found =>
      rw [hlast] at h
      cases h
      obtain ⟨pre, hpre⟩ := ih hlast
      exact ⟨c :: pre, by rw [hpre]; rfl⟩
    | none =>
      rw [hlast] at h
      by_cases hsep : c = sep
      · rw [hsep] at h ⊢
        have hpre : ([sep].isPrefixOf (sep :: l)) = true := by simp
        rw [hpre] at h
        cases h
        exact ⟨[], rfl⟩
      · have hno : ([sep].isPrefixOf (c :: l)) = false := by
          rw [List.isPrefixOf, beq_false_of_ne (Ne.symm hsep), Bool.false_and]
        rw [hno] at h
        cases h

theorem afterLast_append {sep rest : List Char} (pre : List Char) {l : List Char}
    (h : afterLast sep l = some rest) : afterLast sep (pre ++ l) = some rest := by
  induction pre with
  | nil => exact h
  | cons c pre ih => rw [List.cons_append, afterLast, ih]

/-- A separator does not occur where one of its characters does not. -/
theorem afterLast_eq_none {sep l : List Char} {c : Char} (hsep : c ∈ sep) (hl : c ∉ l) :
    afterLast sep l = none := by
  induction l with
  | nil => rfl
  | cons d l ih =>
    have hstart : sep.isPrefixOf (d :: l) = false := by
      rw [Bool.eq_false_iff, ne_eq, List.isPrefixOf_iff_prefix]
      exact fun hpre => hl (hpre.subset hsep)
    rw [afterLast, ih fun hc => hl (List.mem_cons_of_mem d hc), hstart]
    rfl

theorem afterLast_cons_eq_none {sep l : List Char} {c : Char} (hl : afterLast sep l = none)
    (hstart : ¬sep <+: c :: l) : afterLast sep (c :: l) = none := by
  have hno : sep.isPrefixOf (c :: l) = false := by
    rwa [Bool.eq_false_iff, ne_eq, List.isPrefixOf_iff_prefix]
  rw [afterLast, hl, hno]
  rfl

/-- A marker between two equal characters occurs last where neither follows it. -/
theorem afterLast_marker {c d : Char} (hne : c ≠ d) (pre : List Char) {l : List Char}
    (hl : d ∉ l) : afterLast [d, c, d] (pre ++ ([d, c, d] ++ l)) = some l := by
  have hnone : afterLast [d, c, d] l = none := afterLast_eq_none List.mem_cons_self hl
  have hsecond : afterLast [d, c, d] (d :: l) = none := by
    apply afterLast_cons_eq_none hnone
    intro hpre
    have hrest := (List.prefix_cons_inj d).mp hpre
    exact hl (hrest.subset (by simp))
  have hfirst : afterLast [d, c, d] (c :: d :: l) = none := by
    apply afterLast_cons_eq_none hsecond
    intro hpre
    exact hne (List.cons_prefix_cons.mp hpre).1.symm
  apply afterLast_append
  change afterLast [d, c, d] (d :: c :: d :: l) = some l
  have hhere : [d, c, d].isPrefixOf (d :: c :: d :: l) = true := by
    rw [List.isPrefixOf_iff_prefix]
    exact List.prefix_append [d, c, d] l
  rw [afterLast, hfirst, hhere]
  rfl

/-- What follows the first occurrence of the character `sep`, as
`s.split(sep, 1)[1]` has it; `none` when `sep` does not occur. -/
def afterFirst (sep : Char) : List Char → Option (List Char)
  | [] => none
  | c :: s => if c = sep then some s else afterFirst sep s

/-- `s.rsplit(sep, 1)[-1]`: the whole string when `sep` does not occur. -/
def lastSegment (sep : Char) (s : String) : String :=
  match afterLast [sep] s.toList with
  | some rest => String.ofList rest
  | none => s

/-- `s.split(sep)` for a single character. -/
def segments (sep : Char) (s : String) : List String :=
  (s.toList.splitOn sep).map String.ofList

/-- The pieces of a split do not hold the separator. -/
theorem not_mem_of_mem_splitOn {sep : Char} {l piece : List Char} (h : piece ∈ l.splitOn sep) :
    sep ∉ piece := by
  induction l generalizing piece with
  | nil =>
    rw [List.splitOn_nil, List.mem_singleton] at h
    rw [h]
    exact List.not_mem_nil
  | cons c l ih =>
    rw [List.splitOn_cons_eq_if_modifyHead] at h
    cases hpieces : l.splitOn sep with
    | nil => exact absurd hpieces (List.splitOn_ne_nil sep l)
    | cons first rest =>
      rw [hpieces] at h ih
      by_cases hsep : c = sep
      · rw [if_pos (beq_iff_eq.mpr hsep)] at h
        cases List.mem_cons.mp h with
        | inl hempty =>
          rw [hempty]
          exact List.not_mem_nil
        | inr h => exact ih h
      · rw [if_neg (mt beq_iff_eq.mp hsep), List.modifyHead_cons] at h
        cases List.mem_cons.mp h with
        | inl hfirst =>
          rw [hfirst, List.mem_cons, not_or]
          exact ⟨fun hsame => hsep hsame.symm, ih List.mem_cons_self⟩
        | inr h => exact ih (List.mem_cons_of_mem _ h)

/-- A piece of a split is not split again. -/
theorem segments_of_mem {sep : Char} {s part : String} (h : part ∈ segments sep s) :
    segments sep part = [part] := by
  obtain ⟨piece, hpiece, rfl⟩ := List.mem_map.mp h
  rw [segments, String.toList_ofList, List.splitOn_eq_singleton (not_mem_of_mem_splitOn hpiece),
    List.map_singleton]

/-- `s.startswith(pre)`. -/
def startsWith (s pre : String) : Bool :=
  pre.toList.isPrefixOf s.toList

/-- `s.endswith(ending)`. -/
def endsWith (s ending : String) : Bool :=
  ending.toList.isSuffixOf s.toList

/-- `s[len(pre):]`. -/
def dropPrefix (s pre : String) : String :=
  String.ofList (s.toList.drop pre.toList.length)

/-- Decimal digits with single underscores between them, as an integer literal
allows; `digit` tells whether the character before was a digit. -/
def digits : Bool → Nat → List Char → Option Nat
  | digit, acc, [] => if digit then some acc else none
  | digit, acc, c :: s =>
    if c.isDigit then digits true (10 * acc + (c.toNat - '0'.toNat)) s
    else if c = '_' ∧ digit then digits false acc s
    else none

/-- `s.strip()` on ASCII blanks. -/
def strip (s : List Char) : List Char :=
  ((s.dropWhile Char.isWhitespace).reverse.dropWhile Char.isWhitespace).reverse

/-- `int(s)` for a decimal string: blanks around it, one sign, then digits. -/
def parseInt (s : String) : Option Int :=
  match strip s.toList with
  | '-' :: rest => (digits false 0 rest).map fun n => -(n : Int)
  | '+' :: rest => (digits false 0 rest).map fun n => (n : Int)
  | rest => (digits false 0 rest).map fun n => (n : Int)

example : parseInt " -1_000 " = some (-1000) := by decide

/-- What stands before the first separator, and what after it. -/
theorem cut_unique {sep : Char} {l l' rest rest' : List Char} (hl : sep ∉ l) (hl' : sep ∉ l')
    (h : l ++ sep :: rest = l' ++ sep :: rest') : l = l' ∧ rest = rest' := by
  rcases List.append_eq_append_iff.mp h with ⟨m, rfl, hrest⟩ | ⟨m, rfl, hrest⟩
  · cases m with
    | nil => simpa using hrest
    | cons c m =>
      rw [List.cons_append, List.cons.injEq] at hrest
      exact absurd (List.mem_append_right l (hrest.1 ▸ List.mem_cons_self)) hl'
  · cases m with
    | nil => simpa [eq_comm] using hrest
    | cons c m =>
      rw [List.cons_append, List.cons.injEq] at hrest
      exact absurd (List.mem_append_right l' (hrest.1 ▸ List.mem_cons_self)) hl

/-- A character that a text does not hold stands behind it. -/
theorem cut_before {c : Char} {l s pre rest : List Char} (hl : c ∉ l)
    (h : l ++ s = pre ++ c :: rest) : ∃ pre', pre = l ++ pre' ∧ s = pre' ++ c :: rest := by
  rcases List.append_eq_append_iff.mp h with ⟨m, hpre, hs⟩ | ⟨m, hm, hs⟩
  · exact ⟨m, hpre, hs⟩
  · cases m with
    | nil =>
      rw [List.append_nil] at hm
      exact ⟨[], by rw [List.append_nil, hm], hs.symm⟩
    | cons d m =>
      rw [List.cons_append, List.cons.injEq] at hs
      rw [hm, hs.1] at hl
      exact absurd (List.mem_append_right pre List.mem_cons_self) hl

end foundation.text
