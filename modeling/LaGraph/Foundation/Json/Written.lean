import LaGraph.Foundation.Json.RoundTrip

namespace foundation.json

section Grammar

def Blank (c : Char) : Prop :=
  c = ' ' ∨ c = '\t' ∨ c = '\n' ∨ c = '\r'

instance : DecidablePred Blank :=
  fun c => inferInstanceAs (Decidable (c = ' ' ∨ c = '\t' ∨ c = '\n' ∨ c = '\r'))

def Blanks (s : List Char) : Prop :=
  ∀ c ∈ s, Blank c

/-- The ways to spell what stands between quotes: each unit raw or by an escape. -/
inductive Spells : List Nat → List Char → Prop
  | nil : Spells [] []
  | raw {c : Char} {ns : List Nat} {s : List Char} (hquote : c ≠ '"') (hback : c ≠ '\\')
      (hmin : 32 ≤ c.toNat) (h : Spells ns s) : Spells (c.toNat :: ns) (c :: s)
  | simple {e : Char} {n : Nat} {ns : List Nat} {s : List Char} (he : e ≠ 'u')
      (hn : simpleEscape e = some n) (h : Spells ns s) : Spells (n :: ns) ('\\' :: e :: s)
  | unit {a b c d : Char} {n : Nat} {ns : List Nat} {s : List Char}
      (hn : hex4 a b c d = some n) (h : Spells ns s) :
      Spells (n :: ns) ('\\' :: 'u' :: a :: b :: c :: d :: s)

def Digits (s : List Char) : Prop :=
  s ≠ [] ∧ ∀ c ∈ s, c.isDigit = true

inductive Sign : List Char → Prop
  | plus : Sign []
  | minus : Sign ['-']

/-- Digits without a zero in front. -/
def Integer (s : List Char) : Prop :=
  Digits s ∧ (s = ['0'] ∨ s.head? ≠ some '0')

inductive Fraction : List Char → Prop
  | none : Fraction []
  | some {ds : List Char} (h : Digits ds) : Fraction ('.' :: ds)

inductive Exponent : List Char → Prop
  | none : Exponent []
  | some {e : Char} {sign ds : List Char} (he : e = 'e' ∨ e = 'E')
      (hsign : sign = [] ∨ sign = ['+'] ∨ sign = ['-']) (h : Digits ds) :
      Exponent (e :: (sign ++ ds))

/-- The integer of its sign and digits. -/
def signed (sign ds : List Char) : Int :=
  if sign = [] then (Nat.ofDigitChars 10 ds 0 : Int) else -(Nat.ofDigitChars 10 ds 0 : Int)

mutual

/-- The texts of a value, with any blanks, escapes and spellings of numbers. -/
inductive Written : Value → List Char → Prop
  | constant {name : List Char} {v : Value} (h : (name, v) ∈ constants) : Written v name
  | int {sign ds : List Char} (hsign : Sign sign) (hds : Integer ds) :
      Written (.int (signed sign ds)) (sign ++ ds)
  | float {sign ds fraction exponent : List Char} (hsign : Sign sign) (hds : Integer ds)
      (hfraction : Fraction fraction) (hexponent : Exponent exponent)
      (hne : fraction ++ exponent ≠ []) :
      Written (.float (sign ++ (ds ++ (fraction ++ exponent))))
        (sign ++ (ds ++ (fraction ++ exponent)))
  | str {ns : List Nat} {s : List Char} (h : Spells ns s) :
      Written (.str (join ns)) ('"' :: (s ++ ['"']))
  | no_items {w : List Char} (hw : Blanks w) : Written (.arr []) ('[' :: (w ++ [']']))
  | arr {v : Value} {vs : List Value} {s : List Char} (h : WrittenItems (v :: vs) s) :
      Written (.arr (v :: vs)) ('[' :: s)
  | no_fields {w : List Char} (hw : Blanks w) : Written (.obj []) ('\x7b' :: (w ++ ['\x7d']))
  | obj {field : List Nat × Value} {fields : List (List Nat × Value)} {s : List Char}
      (h : WrittenFields (field :: fields) s) : Written (.obj (field :: fields)) ('\x7b' :: s)

/-- The rest of an array with items. -/
inductive WrittenItems : List Value → List Char → Prop
  | last {v : Value} {w s w' : List Char} (hw : Blanks w) (h : Written v s) (hw' : Blanks w') :
      WrittenItems [v] (w ++ (s ++ (w' ++ [']'])))
  | next {v v' : Value} {vs : List Value} {w s w' t : List Char} (hw : Blanks w)
      (h : Written v s) (hw' : Blanks w') (ht : WrittenItems (v' :: vs) t) :
      WrittenItems (v :: v' :: vs) (w ++ (s ++ (w' ++ ',' :: t)))

/-- The rest of an object with fields. -/
inductive WrittenFields : List (List Nat × Value) → List Char → Prop
  | last {key : List Nat} {v : Value} {k w₀ w₁ w₂ w₃ s : List Char} (hw₀ : Blanks w₀)
      (hkey : Spells key k) (hw₁ : Blanks w₁) (hw₂ : Blanks w₂) (h : Written v s)
      (hw₃ : Blanks w₃) :
      WrittenFields [(join key, v)]
        (w₀ ++ '"' :: (k ++ '"' :: (w₁ ++ ':' :: (w₂ ++ (s ++ (w₃ ++ ['\x7d']))))))
  | next {key : List Nat} {v : Value} {field : List Nat × Value}
      {fields : List (List Nat × Value)} {k w₀ w₁ w₂ w₃ s t : List Char} (hw₀ : Blanks w₀)
      (hkey : Spells key k) (hw₁ : Blanks w₁) (hw₂ : Blanks w₂) (h : Written v s)
      (hw₃ : Blanks w₃) (ht : WrittenFields (field :: fields) t) :
      WrittenFields ((join key, v) :: field :: fields)
        (w₀ ++ '"' :: (k ++ '"' :: (w₁ ++ ':' :: (w₂ ++ (s ++ (w₃ ++ ',' :: t))))))

end

mutual

/-- No integer of a value has more digits than are read. -/
def Value.Readable : Value → Prop
  | .int value => Short value
  | .arr items => ReadableItems items
  | .obj fields => ReadableFields fields
  | _ => True

def ReadableItems : List Value → Prop
  | [] => True
  | v :: vs => v.Readable ∧ ReadableItems vs

def ReadableFields : List (List Nat × Value) → Prop
  | [] => True
  | (_, v) :: fields => v.Readable ∧ ReadableFields fields

end

end Grammar

section Tokens

theorem skip_append {w s : List Char} (hw : Blanks w) : skip (w ++ s) = skip s := by
  have hall : ∀ c ∈ w, (decide (c = ' ' ∨ c = '\t' ∨ c = '\n' ∨ c = '\r')) = true :=
    fun c hc => decide_eq_true (hw c hc)
  rw [skip, List.dropWhile_append_of_pos hall]

/-- What spells the units is read up to the closing quote. -/
theorem units_spelled {ns : List Nat} {s rest : List Char} (h : Spells ns s) :
    units (s ++ '"' :: rest) = some (ns, rest) := by
  induction h with
  | nil => rfl
  | raw hquote hback hmin _ ih =>
    rw [List.cons_append, units_char hquote hback hmin, ih]
    rfl
  | simple he hn _ ih =>
    rw [List.cons_append, List.cons_append, units_simple he hn, ih]
    rfl
  | unit hn _ ih =>
    simp only [List.cons_append, units, hn, ih, Option.bind_eq_bind, Option.bind_some]

theorem string_spelled {ns : List Nat} {s rest : List Char} (h : Spells ns s) :
    string (s ++ '"' :: rest) = some (join ns, rest) := by
  rw [string, units_spelled h]
  rfl

end Tokens

section Numbers

variable {sign ds fraction exponent rest : List Char}

/-- No digit follows. -/
def Ends (s : List Char) : Prop :=
  ∀ c ∈ s.head?, c.isDigit = false

theorem takeWhile_ends (hds : ∀ c ∈ ds, c.isDigit = true) (h : Ends rest) :
    (ds ++ rest).takeWhile Char.isDigit = ds := by
  rw [List.takeWhile_append_of_pos hds]
  cases rest with
  | nil => simp
  | cons c s =>
    have hc : c.isDigit = false := h c rfl
    simp [hc]

theorem dropWhile_ends (hds : ∀ c ∈ ds, c.isDigit = true) (h : Ends rest) :
    (ds ++ rest).dropWhile Char.isDigit = rest := by
  rw [List.dropWhile_append_of_pos hds]
  cases rest with
  | nil => rfl
  | cons c s =>
    have hc : c.isDigit = false := h c rfl
    simp [hc]

theorem Delimited.ends (h : Delimited rest) : Ends rest := by
  cases rest with
  | nil => exact fun c hc => by cases hc
  | cons c s =>
    intro d hd
    obtain rfl := Option.some.inj hd
    exact h.1

theorem Exponent.ends (h : Exponent exponent) (hrest : Delimited rest) : Ends (exponent ++ rest) := by
  cases h with
  | none => exact hrest.ends
  | some he _ _ =>
    intro d hd
    obtain rfl := Option.some.inj hd
    obtain rfl | rfl := he <;> rfl

theorem Fraction.ends (h : Fraction fraction) (hexponent : Exponent exponent)
    (hrest : Delimited rest) : Ends (fraction ++ (exponent ++ rest)) := by
  cases h with
  | none => exact hexponent.ends hrest
  | some _ =>
    intro d hd
    obtain rfl := Option.some.inj hd
    rfl

theorem digits_ne_nil (h : Digits ds) (hrest : Ends rest) :
    (ds ++ rest).takeWhile Char.isDigit ≠ [] := by
  rw [takeWhile_ends h.2 hrest]
  exact h.1

theorem afterSign_digits (h : Digits ds) : afterSign (ds ++ rest) = ds ++ rest := by
  cases ds with
  | nil => exact absurd rfl h.1
  | cons c ds =>
    have hc : c.isDigit = true := h.2 c List.mem_cons_self
    rw [List.cons_append]
    unfold afterSign
    split
    · rename_i heq
      rw [(List.cons.inj heq).1] at hc
      cases hc
    · rename_i heq
      rw [(List.cons.inj heq).1] at hc
      cases hc
    · rfl

theorem afterExponent_spelled (h : Exponent exponent) (hrest : Delimited rest) :
    afterExponent (exponent ++ rest) = rest := by
  cases h with
  | none => exact afterExponent_delimited hrest
  | @some e sign ds he hsign hds =>
    have hafter : afterSign (sign ++ (ds ++ rest)) = ds ++ rest := by
      obtain rfl | rfl | rfl := hsign
      · rw [List.nil_append, afterSign_digits hds]
      · rfl
      · rfl
    rw [List.cons_append, List.append_assoc, afterExponent, if_pos he, hafter,
      if_neg (digits_ne_nil hds hrest.ends), dropWhile_ends hds.2 hrest.ends]

theorem afterFraction_spelled (h : Fraction fraction) (hexponent : Exponent exponent)
    (hrest : Delimited rest) :
    afterFraction (fraction ++ (exponent ++ rest)) = exponent ++ rest := by
  cases h with
  | none =>
    cases hexponent with
    | none => exact afterFraction_delimited hrest
    | some he _ _ => obtain rfl | rfl := he <;> rfl
  | some hds =>
    have hends := hexponent.ends hrest
    rw [List.cons_append, afterFraction, if_neg (digits_ne_nil hds hends), dropWhile_ends hds.2 hends]

theorem integerDigits_spelled (h : Integer ds) (hrest : Ends rest) :
    integerDigits (ds ++ rest) = ds := by
  obtain ⟨hds, hzero | hhead⟩ := h
  · rw [hzero]
    rfl
  · cases ds with
    | nil => exact absurd rfl hds.1
    | cons c ds =>
      have hc : c ≠ '0' := fun hc => hhead (congrArg some hc)
      have htake := takeWhile_ends hds.2 hrest
      rw [List.cons_append] at htake ⊢
      unfold integerDigits
      split
      · rename_i heq
        exact absurd (List.cons.inj heq).1 hc
      · exact htake

theorem afterMinus_integer (h : Digits ds) : afterMinus (ds ++ rest) = ds ++ rest := by
  cases ds with
  | nil => exact absurd rfl h.1
  | cons c ds =>
    have hc : c.isDigit = true := h.2 c List.mem_cons_self
    rw [List.cons_append]
    unfold afterMinus
    split
    · rename_i heq
      rw [(List.cons.inj heq).1] at hc
      cases hc
    · rfl

theorem afterMinus_signed (hsign : Sign sign) (h : Digits ds) :
    afterMinus (sign ++ (ds ++ rest)) = ds ++ rest := by
  cases hsign with
  | plus => rw [List.nil_append, afterMinus_integer h]
  | minus => rfl

/-- What a number gives, by its parts. -/
theorem number_parts {s : List Char} (hsign : Sign sign) (hs : s = sign ++ afterMinus s)
    (hminus : afterMinus s = ds ++ (fraction ++ (exponent ++ rest)))
    (hdigits : integerDigits (afterMinus s) = ds)
    (hfraction : afterFraction (fraction ++ (exponent ++ rest)) = exponent ++ rest)
    (hexponent : afterExponent (exponent ++ rest) = rest) :
    number s =
      if ds = [] then none
      else if fraction ++ exponent = [] then
        if MAX_STR_DIGITS < ds.length then none else some (.int (signed sign ds), rest)
      else some (.float (sign ++ (ds ++ (fraction ++ exponent))), rest) := by
  have hnegative : (afterMinus s).length < s.length ↔ sign ≠ [] := by
    have hlength := congrArg List.length hs
    rw [List.length_append] at hlength
    rw [← List.length_pos_iff]
    omega
  rw [number, hdigits]
  simp only [hnegative]
  rw [hminus, List.drop_left, hfraction, hexponent]
  by_cases hnone : fraction ++ exponent = []
  · obtain ⟨rfl, rfl⟩ := List.append_eq_nil_iff.mp hnone
    rw [if_pos hnone, List.nil_append, List.nil_append, if_neg (lt_irrefl _)]
    cases hsign with
    | plus => simp [signed]
    | minus => simp [signed]
  · have hpos : 0 < (fraction ++ exponent).length := List.length_pos_iff.mpr hnone
    have hlonger : rest.length < (fraction ++ (exponent ++ rest)).length := by
      rw [← List.append_assoc, List.length_append]
      omega
    have hassoc : s = (sign ++ (ds ++ (fraction ++ exponent))) ++ rest := by
      simp only [List.append_assoc]
      rw [← hminus]
      exact hs
    have htake : s.take (s.length - rest.length) = sign ++ (ds ++ (fraction ++ exponent)) := by
      rw [hassoc, List.length_append, Nat.add_sub_cancel, List.take_left]
    rw [if_neg hnone, if_pos hlonger, htake]

/-- A number is read with all of its parts. -/
theorem number_spelled (hsign : Sign sign) (hds : Integer ds) (hfraction : Fraction fraction)
    (hexponent : Exponent exponent) (hrest : Delimited rest) :
    number (sign ++ (ds ++ (fraction ++ (exponent ++ rest)))) =
      if fraction ++ exponent = [] then
        if MAX_STR_DIGITS < ds.length then none else some (.int (signed sign ds), rest)
      else some (.float (sign ++ (ds ++ (fraction ++ exponent))), rest) := by
  have hends := hfraction.ends hexponent hrest
  have hminus := @afterMinus_signed sign ds (fraction ++ (exponent ++ rest)) hsign hds.1
  have hnumber := number_parts hsign (by rw [hminus]) hminus
    (by rw [hminus, integerDigits_spelled hds hends])
    (afterFraction_spelled hfraction hexponent hrest) (afterExponent_spelled hexponent hrest)
  rwa [if_neg hds.1.1] at hnumber

theorem digit_pos {c : Char} (h : c.isDigit = true) (hne : c ≠ '0') : 1 ≤ c.toNat - 48 := by
  have hnat : c.toNat ≠ 48 := fun heq => hne (Char.toNat_inj.mp heq)
  have hmin : 48 ≤ c.toNat := (Char.isDigit_iff_toNat.mp h).1
  omega

theorem natAbs_signed : (signed sign ds).natAbs = Nat.ofDigitChars 10 ds 0 := by
  unfold signed
  split_ifs
  · exact Int.natAbs_natCast _
  · rw [Int.natAbs_neg, Int.natAbs_natCast]

/-- Integers that are read have no more digits than the limit. -/
theorem length_of_short (hds : Integer ds) (h : Short (signed sign ds)) :
    ds.length ≤ MAX_STR_DIGITS := by
  rw [Short, natAbs_signed, Nat.length_toDigits_le_iff (by decide) (by decide)] at h
  obtain ⟨hdigits, hzero | hhead⟩ := hds
  · rw [hzero]
    decide
  · cases ds with
    | nil => exact absurd rfl hdigits.1
    | cons c ds =>
      have hc : c.isDigit = true := hdigits.2 c List.mem_cons_self
      have hne : c ≠ '0' := fun hc => hhead (congrArg some hc)
      have hpos : 1 ≤ c.toNat - 48 := digit_pos hc hne
      rw [Nat.ofDigitChars_cons, Nat.ofDigitChars_eq_ofDigitChars_zero] at h
      by_contra hlong
      have hmany : MAX_STR_DIGITS ≤ ds.length := by
        rw [List.length_cons] at hlong
        omega
      have hpow : 10 ^ MAX_STR_DIGITS ≤ 10 ^ ds.length := Nat.pow_le_pow_right (by decide) hmany
      have hmul : 10 ^ ds.length * 1 ≤ 10 ^ ds.length * (10 * 0 + (c.toNat - 48)) :=
        Nat.mul_le_mul_left _ (by omega)
      have hdigit : '0'.toNat = 48 := rfl
      rw [hdigit] at h
      omega

end Numbers

section Values

variable {sign ds rest : List Char}

theorem opens_digits (h : Digits ds) : Opens (ds ++ rest) := by
  cases ds with
  | nil => exact absurd rfl h.1
  | cons c ds => exact opens_digit (h.2 c List.mem_cons_self)

theorem opens_signed (hsign : Sign sign) (h : Digits ds) : Opens (sign ++ (ds ++ rest)) := by
  cases hsign with
  | plus =>
    rw [List.nil_append]
    exact opens_digits h
  | minus => exact ⟨'-', _, rfl, by decide⟩

theorem scalar_signed (hsign : Sign sign) (h : Digits ds) :
    scalar (sign ++ (ds ++ rest)) = number (sign ++ (ds ++ rest)) := by
  have hnone : constants.find? (·.1.isPrefixOf (sign ++ (ds ++ rest))) = none := by
    cases ds with
    | nil => exact absurd rfl h.1
    | cons c ds =>
      have hc : c.isDigit = true := h.2 c List.mem_cons_self
      have hne (d : Char) (hd : d.isDigit = false) : ¬ d = c := by
        rintro rfl
        rw [hd] at hc
        cases hc
      cases hsign with
      | plus =>
        simp [constants, List.isPrefixOf, hne 'n' rfl, hne 't' rfl, hne 'f' rfl, hne 'N' rfl,
          hne 'I' rfl, hne '-' rfl]
      | minus => simp [constants, List.isPrefixOf, hne 'I' rfl]
  rw [scalar, hnone]

theorem value_signed {fuel : Nat} (hsign : Sign sign) (h : Digits ds) :
    value (fuel + 1) (sign ++ (ds ++ rest)) = scalar (sign ++ (ds ++ rest)) := by
  cases ds with
  | nil => exact absurd rfl h.1
  | cons c ds =>
    have hc : c.isDigit = true := h.2 c List.mem_cons_self
    have hne (d : Char) (hd : d.isDigit = false) : c ≠ d := by
      rintro rfl
      rw [hd] at hc
      cases hc
    cases hsign with
    | plus => exact value_scalar (hne '"' rfl) (hne '[' rfl) (hne '\x7b' rfl)
    | minus => exact value_scalar (by decide) (by decide) (by decide)

theorem find_constant {name : List Char} {v : Value} (h : (name, v) ∈ constants)
    {rest : List Char} : scalar (name ++ rest) = some (v, rest) := by
  simp only [constants, List.mem_cons, List.not_mem_nil, or_false, Prod.mk.injEq] at h
  obtain ⟨rfl, rfl⟩ | ⟨rfl, rfl⟩ | ⟨rfl, rfl⟩ | ⟨rfl, rfl⟩ | ⟨rfl, rfl⟩ | ⟨rfl, rfl⟩ := h <;> rfl

theorem value_constant {fuel : Nat} {name : List Char} {v : Value} (h : (name, v) ∈ constants) :
    value (fuel + 1) (name ++ rest) = scalar (name ++ rest) := by
  simp only [constants, List.mem_cons, List.not_mem_nil, or_false, Prod.mk.injEq] at h
  obtain ⟨rfl, -⟩ | ⟨rfl, -⟩ | ⟨rfl, -⟩ | ⟨rfl, -⟩ | ⟨rfl, -⟩ | ⟨rfl, -⟩ := h <;>
    exact value_scalar (by decide) (by decide) (by decide)

theorem opens_written {v : Value} {s : List Char} (h : Written v s) : Opens s := by
  cases h with
  | constant h =>
    simp only [constants, List.mem_cons, List.not_mem_nil, or_false, Prod.mk.injEq] at h
    obtain ⟨rfl, -⟩ | ⟨rfl, -⟩ | ⟨rfl, -⟩ | ⟨rfl, -⟩ | ⟨rfl, -⟩ | ⟨rfl, -⟩ := h <;>
      exact ⟨_, _, rfl, by decide⟩
  | @int sign ds hsign hds =>
    have hopens := @opens_signed sign ds [] hsign hds.1
    rwa [List.append_nil] at hopens
  | float hsign hds _ _ _ => exact opens_signed hsign hds.1
  | str h => exact ⟨'"', _, rfl, by decide⟩
  | no_items hw => exact ⟨'[', _, rfl, by decide⟩
  | arr h => exact ⟨'[', _, rfl, by decide⟩
  | no_fields hw => exact ⟨'\x7b', _, rfl, by decide⟩
  | obj h => exact ⟨'\x7b', _, rfl, by decide⟩

theorem skip_items {vs : List Value} {s : List Char} (h : WrittenItems vs s) :
    Opens (skip (s ++ rest)) := by
  cases h with
  | last hw hv _ =>
    rw [List.append_assoc, skip_append hw, List.append_assoc, (opens_written hv).append.skip]
    exact (opens_written hv).append
  | next hw hv _ _ =>
    rw [List.append_assoc, skip_append hw, List.append_assoc, (opens_written hv).append.skip]
    exact (opens_written hv).append

theorem skip_fields {fields : List (List Nat × Value)} {s : List Char}
    (h : WrittenFields fields s) : Opens (skip (s ++ rest)) := by
  cases h with
  | last hw _ _ _ _ _ =>
    rw [List.append_assoc, skip_append hw]
    exact ⟨'"', _, rfl, by decide⟩
  | next hw _ _ _ _ _ _ =>
    rw [List.append_assoc, skip_append hw]
    exact ⟨'"', _, rfl, by decide⟩

theorem delimited_blanks {w : List Char} {c : Char} (hw : Blanks w) (hc : Delimited (c :: rest)) :
    Delimited (w ++ c :: rest) := by
  cases w with
  | nil => exact hc
  | cons d w =>
    obtain rfl | rfl | rfl | rfl := hw d List.mem_cons_self <;> exact delimited_cons (by decide)

/-- A value is closed by a mark, with blanks in between. -/
theorem skip_mark {w : List Char} {c : Char} (hw : Blanks w) (hc : ¬ Blank c) :
    skip (w ++ c :: rest) = c :: rest := by
  rw [skip_append hw, skip, List.dropWhile_cons_of_neg]
  intro h
  exact hc (of_decide_eq_true h)

theorem value_brackets {fuel : Nat} {w : List Char} (hw : Blanks w) :
    value (fuel + 1) ('[' :: (w ++ ']' :: rest)) = some (.arr [], rest) := by
  have hskip : skip (w ++ ']' :: rest) = ']' :: rest := skip_mark hw (by decide)
  unfold value
  simp only [hskip]

theorem value_braces {fuel : Nat} {w : List Char} (hw : Blanks w) :
    value (fuel + 1) ('\x7b' :: (w ++ '\x7d' :: rest)) = some (.obj [], rest) := by
  have hskip : skip (w ++ '\x7d' :: rest) = '\x7d' :: rest := skip_mark hw (by decide)
  unfold value
  simp only [hskip]

/-- `skip` before an item changes nothing. -/
theorem value_items {fuel : Nat} {s rest' : List Char} {vs : List Value} (hs : Opens (skip s))
    (h : elements fuel (skip s) = some (vs, rest')) :
    value (fuel + 1) ('[' :: s) = some (.arr vs, rest') := by
  obtain ⟨c, t, ht, hc⟩ := hs
  unfold value
  simp only
  rw [ht] at h ⊢
  split
  · rename_i heq
    exact absurd (List.cons.inj heq).1 hc.2.2.2.2.1
  · rw [h]
    rfl

theorem value_fields {fuel : Nat} {s rest' : List Char} {fields : List (List Nat × Value)}
    (hs : Opens (skip s)) (h : members fuel (skip s) = some (fields, rest')) :
    value (fuel + 1) ('\x7b' :: s) = some (.obj fields, rest') := by
  obtain ⟨c, t, ht, hc⟩ := hs
  unfold value
  simp only
  rw [ht] at h ⊢
  split
  · rename_i heq
    exact absurd (List.cons.inj heq).1 hc.2.2.2.2.2
  · rw [h]
    rfl

/-- However a value is written, it is read back, and so are the rests of arrays and objects. -/
theorem value_written (fuel : Nat) :
    (∀ v s rest, Written v s → v.Readable → Delimited rest → v.cost ≤ fuel →
      value fuel (s ++ rest) = some (v, rest)) ∧
    (∀ vs s rest, WrittenItems vs s → ReadableItems vs → costItems vs ≤ fuel →
      elements fuel (skip (s ++ rest)) = some (vs, rest)) ∧
    (∀ fields s rest, WrittenFields fields s → ReadableFields fields → costFields fields ≤ fuel →
      members fuel (skip (s ++ rest)) = some (fields, rest)) := by
  induction fuel with
  | zero =>
    refine ⟨fun v _ _ _ _ _ hcost => ?_, fun vs _ _ h _ hcost => ?_, fun fields _ _ h _ hcost => ?_⟩
    · cases v <;> simp [Value.cost] at hcost
    · cases h <;> simp [costItems] at hcost
    · cases h <;> simp [costFields] at hcost
  | succ fuel ih =>
    obtain ⟨ihvalue, ihitems, ihfields⟩ := ih
    refine ⟨fun v s rest h hread hrest hcost => ?_, fun vs s rest h hread hcost => ?_,
      fun fields s rest h hread hcost => ?_⟩
    · cases h with
      | constant h => rw [value_constant h, find_constant h]
      | @int sign ds hsign hds =>
        have hnumber := number_spelled hsign hds Fraction.none Exponent.none hrest
        simp only [List.nil_append, List.append_nil, if_true] at hnumber
        rw [if_neg (Nat.not_lt.mpr (length_of_short hds hread))] at hnumber
        rw [List.append_assoc, value_signed hsign hds.1, scalar_signed hsign hds.1, hnumber]
      | float hsign hds hfraction hexponent hne =>
        have hnumber := number_spelled hsign hds hfraction hexponent hrest
        rw [if_neg hne] at hnumber
        simp only [List.append_assoc]
        rw [value_signed hsign hds.1, scalar_signed hsign hds.1, hnumber]
      | str h =>
        rw [List.cons_append, List.append_assoc, List.singleton_append]
        unfold value
        simp only [string_spelled h, Option.map_some]
      | no_items hw =>
        rw [List.cons_append, List.append_assoc, List.singleton_append]
        exact value_brackets hw
      | arr h =>
        simp only [Value.cost] at hcost
        exact value_items (skip_items h) (ihitems _ _ _ h hread (by omega))
      | no_fields hw =>
        rw [List.cons_append, List.append_assoc, List.singleton_append]
        exact value_braces hw
      | obj h =>
        simp only [Value.cost] at hcost
        exact value_fields (skip_fields h) (ihfields _ _ _ h hread (by omega))
    · cases h with
      | @last v w s w' hw hv hw' =>
        simp only [costItems] at hcost
        have hclose : Delimited (w' ++ ']' :: rest) := delimited_blanks hw' (delimited_cons (by decide))
        have hvalue := ihvalue v s _ hv hread.1 hclose (by omega)
        have hskip : skip (w' ++ ']' :: rest) = ']' :: rest := skip_mark hw' (by decide)
        simp only [List.append_assoc, List.singleton_append]
        rw [skip_append hw, (opens_written hv).append.skip, elements, hvalue]
        simp only [Option.bind_eq_bind, Option.bind_some, hskip]
      | @next v v' vs w s w' t hw hv hw' ht =>
        simp only [costItems] at hcost
        have hclose : Delimited (w' ++ ',' :: (t ++ rest)) := delimited_blanks hw' (delimited_cons (by decide))
        have hvalue := ihvalue v s _ hv hread.1 hclose (by omega)
        have hitems := ihitems _ _ rest ht hread.2 (by simp only [costItems]; omega)
        have hskip : skip (w' ++ ',' :: (t ++ rest)) = ',' :: (t ++ rest) :=
          skip_mark hw' (by decide)
        simp only [List.append_assoc, List.cons_append]
        rw [skip_append hw, (opens_written hv).append.skip, elements, hvalue]
        simp only [Option.bind_eq_bind, Option.bind_some, hskip, hitems]
    · cases h with
      | @last key v k w₀ w₁ w₂ w₃ s hw₀ hkey hw₁ hw₂ hv hw₃ =>
        simp only [costFields] at hcost
        have hclose : Delimited (w₃ ++ '\x7d' :: rest) := delimited_blanks hw₃ (delimited_cons (by decide))
        have hvalue := ihvalue v s _ hv hread.1 hclose (by omega)
        have hskip : skip (w₃ ++ '\x7d' :: rest) = '\x7d' :: rest := skip_mark hw₃ (by decide)
        have hcolon {t : List Char} : skip (w₁ ++ ':' :: t) = ':' :: t := skip_mark hw₁ (by decide)
        simp only [List.append_assoc, List.cons_append, List.nil_append]
        rw [skip_append hw₀, Opens.skip ⟨'"', _, rfl, by decide⟩, members]
        simp only [Option.bind_eq_bind, Option.bind_some, string_spelled hkey, hcolon]
        rw [skip_append hw₂, (opens_written hv).append.skip, hvalue]
        simp only [Option.bind_some, hskip]
      | @next key v field fields k w₀ w₁ w₂ w₃ s t hw₀ hkey hw₁ hw₂ hv hw₃ ht =>
        simp only [costFields] at hcost
        have hclose : Delimited (w₃ ++ ',' :: (t ++ rest)) :=
          delimited_blanks hw₃ (delimited_cons (by decide))
        have hvalue := ihvalue v s _ hv hread.1 hclose (by omega)
        have hfields := ihfields _ _ rest ht hread.2 (by simp only [costFields]; omega)
        have hskip : skip (w₃ ++ ',' :: (t ++ rest)) = ',' :: (t ++ rest) :=
          skip_mark hw₃ (by decide)
        have hcolon {t : List Char} : skip (w₁ ++ ':' :: t) = ':' :: t := skip_mark hw₁ (by decide)
        simp only [List.append_assoc, List.cons_append]
        rw [skip_append hw₀, Opens.skip ⟨'"', _, rfl, by decide⟩, members]
        simp only [Option.bind_eq_bind, Option.bind_some, string_spelled hkey, hcolon]
        rw [skip_append hw₂, (opens_written hv).append.skip, hvalue]
        simp only [Option.bind_some, hskip, hfields]

mutual

theorem cost_written {v : Value} {s : List Char} (h : Written v s) : v.cost ≤ 2 * s.length := by
  have hpos := (opens_written h).length_pos
  cases h with
  | arr hitems =>
    have hcost := costItems_written hitems
    simp only [Value.cost, List.length_cons]
    omega
  | obj hfields =>
    have hcost := costFields_written hfields
    simp only [Value.cost, List.length_cons]
    omega
  | constant hname =>
    simp only [constants, List.mem_cons, List.not_mem_nil, or_false, Prod.mk.injEq] at hname
    obtain ⟨rfl, rfl⟩ | ⟨rfl, rfl⟩ | ⟨rfl, rfl⟩ | ⟨rfl, rfl⟩ | ⟨rfl, rfl⟩ | ⟨rfl, rfl⟩ := hname <;>
      decide
  | _ =>
    simp only [Value.cost, costItems, costFields]
    omega

theorem costItems_written {vs : List Value} {s : List Char} (h : WrittenItems vs s) :
    costItems vs ≤ 2 * s.length := by
  cases h with
  | last hw hv hw' =>
    have hcost := cost_written hv
    simp only [costItems, List.length_append, List.length_singleton]
    omega
  | next hw hv hw' ht =>
    have hcost := cost_written hv
    have hitems := costItems_written ht
    rw [costItems]
    simp only [List.length_append, List.length_cons]
    omega

theorem costFields_written {fields : List (List Nat × Value)} {s : List Char}
    (h : WrittenFields fields s) : costFields fields ≤ 2 * s.length := by
  cases h with
  | last hw₀ hkey hw₁ hw₂ hv hw₃ =>
    have hcost := cost_written hv
    simp only [costFields, List.length_append, List.length_cons]
    omega
  | next hw₀ hkey hw₁ hw₂ hv hw₃ ht =>
    have hcost := cost_written hv
    have hfields := costFields_written ht
    rw [costFields]
    simp only [List.length_append, List.length_cons]
    omega

end

/-- Whatever blanks stand around a value, it is loaded. -/
theorem loads_written {v : Value} {s w w' : List Char} (h : Written v s) (hread : v.Readable)
    (hw : Blanks w) (hw' : Blanks w') : loads (w ++ (s ++ w')) = some v := by
  have hskip : skip (w ++ (s ++ w')) = s ++ w' := by
    rw [skip_append hw, (opens_written h).append.skip]
  have hrest : skip w' = [] := by
    have hall := @skip_append w' [] hw'
    rwa [List.append_nil] at hall
  have hdelimited : Delimited w' := by
    cases w' with
    | nil => trivial
    | cons c w' =>
      obtain rfl | rfl | rfl | rfl := hw' c List.mem_cons_self <;> exact delimited_cons (by decide)
  have hcost : v.cost ≤ 2 * (w ++ (s ++ w')).length + 2 := by
    have hlength := cost_written h
    simp only [List.length_append]
    omega
  have hvalue := (value_written _).1 v s w' h hread hdelimited hcost
  rw [loads, hskip, hvalue]
  simp only [hrest, if_true]

end Values

end foundation.json
