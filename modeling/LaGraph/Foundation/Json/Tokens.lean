import LaGraph.Foundation.Json

namespace foundation.json

section Strings

/-- A code point that is no surrogate. -/
def IsScalar (n : Nat) : Prop :=
  n < 55296 ∨ 57343 < n ∧ n < 1114112

theorem isScalar_toNat (c : Char) : IsScalar c.toNat := by
  rcases c.valid with h | h
  · exact Or.inl h
  · exact Or.inr h

theorem isScalar_codes {s : String} {n : Nat} (hn : n ∈ codes s) : IsScalar n := by
  obtain ⟨c, -, rfl⟩ := List.mem_map.mp hn
  exact isScalar_toNat c

theorem codes_injective {s t : String} (h : codes s = codes t) : s = t := by
  have hlist : s.toList = t.toList := by
    refine List.map_injective_iff.mpr (fun a b hab => ?_) h
    exact Char.ext (UInt32.toNat.inj hab)
  exact String.toList_inj.mp hlist

theorem hexValue_hexDigit {n : Nat} (h : n < 16) : hexValue (hexDigit n) = some n := by
  have hall : ∀ n < 16, hexValue (hexDigit n) = some n := by decide
  exact hall n h

theorem hex4_codeUnit {n : Nat} (h : n < 65536) :
    hex4 (hexDigit (n / 4096)) (hexDigit (n / 256 % 16)) (hexDigit (n / 16 % 16))
      (hexDigit (n % 16)) = some n := by
  unfold hex4
  rw [hexValue_hexDigit (by omega), hexValue_hexDigit (by omega), hexValue_hexDigit (by omega),
    hexValue_hexDigit (by omega)]
  simp only [Option.bind_eq_bind, Option.bind_some, Option.some.injEq]
  omega

/-- More read after the code points of a first part. -/
def prepend (ns : List Nat) (result : Option (List Nat × List Char)) :
    Option (List Nat × List Char) :=
  result.map fun r => (ns ++ r.1, r.2)

theorem units_codeUnit {n : Nat} (h : n < 65536) {s : List Char} :
    units (codeUnit n ++ s) = prepend [n] (units s) := by
  unfold codeUnit
  simp only [List.cons_append, List.nil_append, units, hex4_codeUnit h, Option.bind_eq_bind,
    Option.bind_some, prepend]
  cases units s <;> rfl

theorem units_simple {e : Char} {n : Nat} (he : e ≠ 'u') (hn : simpleEscape e = some n)
    {s : List Char} : units ('\\' :: e :: s) = prepend [n] (units s) := by
  rw [units.eq_4 e s (fun _ _ _ _ _ h _ => he h)]
  rw [hn, prepend]
  cases units s <;> rfl

theorem units_char {c : Char} (hquote : c ≠ '"') (hback : c ≠ '\\') (hmin : 32 ≤ c.toNat)
    {s : List Char} : units (c :: s) = prepend [c.toNat] (units s) := by
  have hnot : ¬ (c = '\\' ∨ c.toNat < 32) := by
    rintro (h | h)
    · exact hback h
    · omega
  rw [units.eq_5 c s (fun h => hquote h) (fun _ _ _ _ _ h => absurd h hback)
    (fun _ _ h => absurd h hback)]
  rw [if_neg hnot, prepend]
  cases units s <;> rfl

/-- The code points a string holds before surrogates are joined. -/
def unjoined (n : Nat) : List Nat :=
  if n < 65536 then [n] else [55296 + (n - 65536) / 1024, 56320 + (n - 65536) % 1024]

theorem prepend_prepend {ns ms : List Nat} {result : Option (List Nat × List Char)} :
    prepend ns (prepend ms result) = prepend (ns ++ ms) result := by
  cases result with
  | none => rfl
  | some r => simp [prepend]

theorem units_escapeCode {n : Nat} (h : n < 1114112) {s : List Char} :
    units (escapeCode n ++ s) = prepend (unjoined n) (units s) := by
  unfold escapeCode
  by_cases hprintable : 32 ≤ n ∧ n ≤ 126 ∧ n ≠ 34 ∧ n ≠ 92
  · have hascii : ∀ n < 127, (Char.ofNat n).toNat = n := by decide
    have htoNat : (Char.ofNat n).toNat = n := hascii n (by omega)
    have hne (c : Char) (hc : c.toNat ≠ n) : Char.ofNat n ≠ c := by
      intro heq
      rw [← heq, htoNat] at hc
      exact hc rfl
    rw [if_neg (by omega), if_neg (by omega), if_neg (by omega), if_neg (by omega),
      if_neg (by omega), if_neg (by omega), if_neg (by omega), if_pos (by omega)]
    have hchar := @units_char (Char.ofNat n) (hne '"' (by simp; omega)) (hne '\\' (by simp; omega))
      (by omega) s
    rw [htoNat] at hchar
    rw [unjoined, if_pos (by omega)]
    exact hchar
  · have hshort : n < 65536 → unjoined n = [n] := fun hlt => if_pos hlt
    split_ifs with h34 h92 h10 h13 h9 h8 h12 hplain hunit
    · rw [h34]
      exact units_simple (by decide) rfl
    · rw [h92]
      exact units_simple (by decide) rfl
    · rw [h10]
      exact units_simple (by decide) rfl
    · rw [h13]
      exact units_simple (by decide) rfl
    · rw [h9]
      exact units_simple (by decide) rfl
    · rw [h8]
      exact units_simple (by decide) rfl
    · rw [h12]
      exact units_simple (by decide) rfl
    · omega
    · rw [hshort hunit]
      exact units_codeUnit hunit
    · rw [List.append_assoc, units_codeUnit (by omega), units_codeUnit (by omega), prepend_prepend,
        unjoined, if_neg hunit]
      rfl

theorem units_escaped {ns : List Nat} (h : ∀ n ∈ ns, n < 1114112) {s : List Char} :
    units (ns.flatMap escapeCode ++ '"' :: s) = some (ns.flatMap unjoined, s) := by
  induction ns with
  | nil => simp [units]
  | cons n ns ih =>
    rw [List.flatMap_cons, List.append_assoc, units_escapeCode (h n List.mem_cons_self),
      ih fun m hm => h m (List.mem_cons_of_mem _ hm)]
    simp [prepend]

theorem join_unjoined {n : Nat} (h : IsScalar n) {ms : List Nat} :
    join (unjoined n ++ ms) = n :: join ms := by
  unfold unjoined
  split_ifs with hshort
  · cases ms with
    | nil => simp [join]
    | cons m ms =>
      have hnot : surrogates n m = false := by
        unfold IsScalar at h
        simp only [surrogates, Bool.and_eq_false_iff, decide_eq_false_iff_not]
        omega
      simp [join, hnot]
  · have hlong : n < 1114112 := by
      unfold IsScalar at h
      omega
    have hpair : surrogates (55296 + (n - 65536) / 1024) (56320 + (n - 65536) % 1024) = true := by
      simp only [surrogates, Bool.and_eq_true, decide_eq_true_eq]
      omega
    simp only [List.cons_append, List.nil_append, join, hpair, if_true, List.cons.injEq, and_true]
    omega

theorem join_flatMap_unjoined {ns : List Nat} (h : ∀ n ∈ ns, IsScalar n) :
    join (ns.flatMap unjoined) = ns := by
  induction ns with
  | nil => simp [join]
  | cons n ns ih =>
    rw [List.flatMap_cons, join_unjoined (h n List.mem_cons_self),
      ih fun m hm => h m (List.mem_cons_of_mem _ hm)]

/-- A string is read back. -/
theorem string_dumpsStr {ns : List Nat} (h : ∀ n ∈ ns, IsScalar n) {s : List Char} :
    string (ns.flatMap escapeCode ++ '"' :: s) = some (ns, s) := by
  have hbound : ∀ n ∈ ns, n < 1114112 := by
    intro n hn
    have hscalar := h n hn
    unfold IsScalar at hscalar
    omega
  rw [string, units_escaped hbound]
  simp [join_flatMap_unjoined h]

end Strings

section Numbers

/-- No number goes on there. -/
def Delimited : List Char → Prop
  | [] => True
  | c :: _ => c.isDigit = false ∧ c ≠ '.' ∧ c ≠ 'e' ∧ c ≠ 'E'

theorem delimited_cons {c : Char} {s : List Char}
    (h : c.isDigit = false ∧ c ≠ '.' ∧ c ≠ 'e' ∧ c ≠ 'E') : Delimited (c :: s) := h

theorem afterFraction_delimited {s : List Char} (h : Delimited s) : afterFraction s = s := by
  cases s with
  | nil => rfl
  | cons c s =>
    unfold afterFraction
    split
    · rename_i heq
      rw [List.cons.injEq] at heq
      exact absurd heq.1 h.2.1
    · rfl

theorem afterExponent_delimited {s : List Char} (h : Delimited s) : afterExponent s = s := by
  cases s with
  | nil => rfl
  | cons c s =>
    have hnot : ¬ (c = 'e' ∨ c = 'E') := by
      rintro (hc | hc)
      · exact h.2.2.1 hc
      · exact h.2.2.2 hc
    rw [afterExponent, if_neg hnot]

theorem takeWhile_digits {ds s : List Char} (hds : ∀ c ∈ ds, c.isDigit = true)
    (h : Delimited s) : (ds ++ s).takeWhile Char.isDigit = ds := by
  rw [List.takeWhile_append_of_pos hds]
  cases s with
  | nil => simp
  | cons c s => simp [h.1]

theorem head_toDigits {n : Nat} (hn : 0 < n) : (Nat.toDigits 10 n).head? ≠ some '0' := by
  induction n using Nat.strongRecOn with
  | ind n ih =>
    rw [Nat.toDigits_eq_if (by omega)]
    split_ifs with hlt
    · have hall : ∀ n < 10, 0 < n → n.digitChar ≠ '0' := by decide
      simpa using hall n hlt hn
    · have hrest := ih (n / 10) (by omega) (by omega)
      cases hdigits : Nat.toDigits 10 (n / 10) with
      | nil => simp at hdigits
      | cons c cs =>
        rw [hdigits] at hrest
        simpa using hrest

theorem isDigit_toDigits {n : Nat} {c : Char} (hc : c ∈ Nat.toDigits 10 n) : c.isDigit = true :=
  Nat.isDigit_of_mem_toDigits (by omega) (by omega) hc

theorem integerDigits_toDigits {n : Nat} {s : List Char} (h : Delimited s) :
    integerDigits (Nat.toDigits 10 n ++ s) = Nat.toDigits 10 n := by
  by_cases hn : n = 0
  · rw [hn, Nat.toDigits_zero]
    rfl
  · have hhead := head_toDigits (Nat.pos_of_ne_zero hn)
    unfold integerDigits
    split
    · rename_i heq
      cases hdigits : Nat.toDigits 10 n with
      | nil => simp at hdigits
      | cons c cs =>
        rw [hdigits] at heq hhead
        simp only [List.cons_append, List.cons.injEq] at heq
        rw [heq.1] at hhead
        exact absurd rfl hhead
    · exact takeWhile_digits (fun _ hc => isDigit_toDigits hc) h

/-- The integers whose digits are no more than are read. -/
def Short (i : Int) : Prop :=
  (Nat.toDigits 10 i.natAbs).length ≤ MAX_STR_DIGITS

theorem afterMinus_toDigits {n : Nat} {s : List Char} :
    afterMinus (Nat.toDigits 10 n ++ s) = Nat.toDigits 10 n ++ s := by
  unfold afterMinus
  split
  · rename_i t heq
    cases hdigits : Nat.toDigits 10 n with
    | nil => simp at hdigits
    | cons c cs =>
      have hc : c.isDigit = true := isDigit_toDigits (hdigits ▸ List.mem_cons_self)
      rw [hdigits] at heq
      simp only [List.cons_append, List.cons.injEq] at heq
      rw [heq.1] at hc
      cases hc
  · rfl

/-- An integer is read back. -/
theorem number_dumpsInt {i : Int} (hi : Short i) {s : List Char} (h : Delimited s) :
    number (dumpsInt i ++ s) = some (.int i, s) := by
  have hlen : ¬ MAX_STR_DIGITS < (Nat.toDigits 10 i.natAbs).length := Nat.not_lt.mpr hi
  cases i with
  | ofNat n =>
    have hlen' : ¬ MAX_STR_DIGITS < (Nat.toDigits 10 n).length := hlen
    unfold number dumpsInt
    simp [afterMinus_toDigits, integerDigits_toDigits h, afterFraction_delimited h,
      afterExponent_delimited h, hlen']
  | negSucc n =>
    have hlen' : ¬ MAX_STR_DIGITS < (Nat.toDigits 10 (n + 1)).length := hlen
    unfold number dumpsInt
    simp [afterMinus, integerDigits_toDigits h, afterFraction_delimited h,
      afterExponent_delimited h, hlen']
    omega

end Numbers

end foundation.json
