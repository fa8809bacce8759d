import LaGraph.Foundation.Json.Written

namespace foundation.json

section Strings

variable {s rest : List Char} {ns : List Nat}

/-- What is read up to a closing quote spells the units. -/
theorem spells_of_units (h : units s = some (ns, rest)) :
    ∃ k, s = k ++ '"' :: rest ∧ Spells ns k := by
  fun_induction units s generalizing ns rest with
  | case1 => cases h
  | case2 s =>
    cases h
    exact ⟨[], rfl, .nil⟩
  | case3 a b c d s ih =>
    cases hn : hex4 a b c d with
    | none => simp [hn] at h
    | some n =>
      cases hs : units s with
      | none => simp [hn, hs] at h
      | some r =>
        simp only [hn, hs, Option.bind_eq_bind, Option.bind_some, Option.some.injEq,
          Prod.mk.injEq] at h
        obtain ⟨rfl, rfl⟩ := h
        obtain ⟨k, rfl, hk⟩ := ih hs
        exact ⟨'\\' :: 'u' :: a :: b :: c :: d :: k, rfl, .unit hn hk⟩
  | case4 e s _ ih =>
    cases hn : simpleEscape e with
    | none => simp [hn] at h
    | some n =>
      have he : e ≠ 'u' := by
        rintro rfl
        cases hn
      cases hs : units s with
      | none => simp [hn, hs] at h
      | some r =>
        simp only [hn, hs, Option.bind_eq_bind, Option.bind_some, Option.some.injEq,
          Prod.mk.injEq] at h
        obtain ⟨rfl, rfl⟩ := h
        obtain ⟨k, rfl, hk⟩ := ih hs
        exact ⟨'\\' :: e :: k, rfl, .simple he hn hk⟩
  | case5 c s hquote _ _ hcontrol => simp at h
  | case6 c s hquote _ _ _ hraw =>
    rename_i ih
    rw [not_or, Nat.not_lt] at hraw
    cases hs : units s with
    | none => simp [hs] at h
    | some r =>
      simp only [hs, Option.bind_eq_bind, Option.bind_some] at h
      cases h
      obtain ⟨k, rfl, hk⟩ := ih hs
      exact ⟨c :: k, rfl, .raw hquote hraw.1 hraw.2 hk⟩

theorem spells_of_string {key : List Nat} (h : string s = some (key, rest)) :
    ∃ ns k, key = join ns ∧ s = k ++ '"' :: rest ∧ Spells ns k := by
  rw [string, Option.map_eq_some_iff] at h
  obtain ⟨⟨ns, r⟩, hunits, heq⟩ := h
  cases heq
  obtain ⟨k, hs, hk⟩ := spells_of_units hunits
  exact ⟨ns, k, rfl, hs, hk⟩

end Strings

section Numbers

variable {s rest : List Char}

theorem digits_takeWhile (h : s.takeWhile Char.isDigit ≠ []) : Digits (s.takeWhile Char.isDigit) :=
  ⟨h, fun _ hc => List.all_eq_true.mp List.all_takeWhile _ hc⟩

theorem signed_afterMinus (s : List Char) : ∃ sign, Sign sign ∧ s = sign ++ afterMinus s := by
  unfold afterMinus
  split
  · exact ⟨['-'], .minus, rfl⟩
  · exact ⟨[], .plus, rfl⟩

theorem integer_integerDigits (h : integerDigits s ≠ []) :
    Integer (integerDigits s) ∧ s = integerDigits s ++ s.drop (integerDigits s).length := by
  unfold integerDigits at h ⊢
  split
  · exact ⟨⟨⟨by simp, by simp⟩, .inl rfl⟩, rfl⟩
  · rename_i hzero
    have hdigits : Digits (s.takeWhile Char.isDigit) := digits_takeWhile (by simpa using h)
    refine ⟨⟨hdigits, .inr ?_⟩, ?_⟩
    · cases s with
      | nil => simp
      | cons c s =>
        have hc : c ≠ '0' := fun hc => hzero s (by rw [hc])
        rw [List.takeWhile_cons]
        split <;> simp [hc]
    · exact (List.prefix_iff_eq_append.mp (List.takeWhile_prefix _)).symm

theorem fraction_afterFraction (s : List Char) :
    ∃ fraction, Fraction fraction ∧ s = fraction ++ afterFraction s := by
  unfold afterFraction
  split
  · rename_i s
    split_ifs with hnone
    · exact ⟨[], .none, rfl⟩
    · refine ⟨'.' :: s.takeWhile Char.isDigit, .some (digits_takeWhile hnone), ?_⟩
      rw [List.cons_append, List.takeWhile_append_dropWhile]
  · exact ⟨[], .none, rfl⟩

theorem sign_afterSign (s : List Char) :
    ∃ sign, (sign = [] ∨ sign = ['+'] ∨ sign = ['-']) ∧ s = sign ++ afterSign s := by
  unfold afterSign
  split
  · exact ⟨['+'], .inr (.inl rfl), rfl⟩
  · exact ⟨['-'], .inr (.inr rfl), rfl⟩
  · exact ⟨[], .inl rfl, rfl⟩

theorem exponent_afterExponent (s : List Char) :
    ∃ exponent, Exponent exponent ∧ s = exponent ++ afterExponent s := by
  cases s with
  | nil => exact ⟨[], .none, rfl⟩
  | cons e s =>
    rw [afterExponent]
    split_ifs with he hnone
    · exact ⟨[], .none, rfl⟩
    · obtain ⟨sign, hsign, hs⟩ := sign_afterSign s
      refine ⟨e :: (sign ++ (afterSign s).takeWhile Char.isDigit),
        .some he hsign (digits_takeWhile hnone), ?_⟩
      rw [List.cons_append, List.append_assoc, List.takeWhile_append_dropWhile, ← hs]
    · exact ⟨[], .none, rfl⟩

theorem ofDigitChars_lt {ds : List Char} (h : ∀ c ∈ ds, c.isDigit = true) :
    Nat.ofDigitChars 10 ds 0 < 10 ^ ds.length := by
  induction ds with
  | nil => simp
  | cons c ds ih =>
    have hc := Char.isDigit_iff_toNat.mp (h c List.mem_cons_self)
    have hds := ih fun d hd => h d (List.mem_cons_of_mem _ hd)
    have hzero : '0'.toNat = 48 := rfl
    have hnine : '9'.toNat = 57 := rfl
    have hdigit : 10 ^ ds.length * (c.toNat - 48) ≤ 10 ^ ds.length * 9 :=
      Nat.mul_le_mul_left _ (by omega)
    rw [Nat.ofDigitChars_cons, Nat.ofDigitChars_eq_ofDigitChars_zero, hzero, List.length_cons,
      Nat.pow_succ, Nat.mul_zero, Nat.zero_add]
    omega

theorem short_signed {sign ds : List Char} (h : Digits ds) (hlen : ds.length ≤ MAX_STR_DIGITS) :
    Short (signed sign ds) := by
  rw [Short, natAbs_signed, Nat.length_toDigits_le_iff (by decide) (by decide)]
  exact (ofDigitChars_lt h.2).trans_le (Nat.pow_le_pow_right (by decide) hlen)

/-- What is read as a number is written as one. -/
theorem written_of_number {v : Value} (h : number s = some (v, rest)) :
    (∃ k, s = k ++ rest ∧ Written v k) ∧ v.Readable := by
  obtain ⟨sign, hsign, hs⟩ := signed_afterMinus s
  by_cases hdigits : integerDigits (afterMinus s) = []
  · simp [number, hdigits] at h
  obtain ⟨hinteger, happend⟩ := integer_integerDigits hdigits
  obtain ⟨fraction, hfraction, hs'⟩ :=
    fraction_afterFraction ((afterMinus s).drop (integerDigits (afterMinus s)).length)
  obtain ⟨exponent, hexponent, hs''⟩ := exponent_afterExponent
    (afterFraction ((afterMinus s).drop (integerDigits (afterMinus s)).length))
  generalize hds : integerDigits (afterMinus s) = ds at *
  rw [hs'] at happend
  have hnumber := number_parts hsign hs (happend.trans (by rw [hs''])) hds (by rw [← hs'', ← hs'])
    (by rw [← hs''])
  rw [h, if_neg hinteger.1.1] at hnumber
  have hsplit : s = (sign ++ (ds ++ (fraction ++ exponent))) ++
      afterExponent (afterFraction ((afterMinus s).drop ds.length)) := by
    rw [List.append_assoc, List.append_assoc, List.append_assoc, ← hs'', ← happend, ← hs]
  split_ifs at hnumber with hnone hlong
  · obtain ⟨rfl, rfl⟩ := List.append_eq_nil_iff.mp hnone
    cases hnumber
    rw [List.nil_append, List.append_nil] at hsplit
    exact ⟨⟨_, hsplit, .int hsign hinteger⟩, short_signed hinteger.1 (Nat.not_lt.mp hlong)⟩
  · cases hnumber
    exact ⟨⟨_, hsplit, .float hsign hinteger hfraction hexponent hnone⟩, trivial⟩

end Numbers

section Values

variable {s rest : List Char} {v : Value}

theorem written_of_scalar (h : scalar s = some (v, rest)) :
    (∃ k, s = k ++ rest ∧ Written v k) ∧ v.Readable := by
  unfold scalar at h
  split at h
  · rename_i name v' hfind
    cases h
    have hmem := List.mem_of_find?_eq_some hfind
    have hstart := @List.find?_some _ (fun entry : List Char × Value => entry.1.isPrefixOf s) _ _ hfind
    refine ⟨⟨name, (List.prefix_iff_eq_append.mp (List.isPrefixOf_iff_prefix.mp hstart)).symm, .constant hmem⟩, ?_⟩
    simp only [constants, List.mem_cons, List.not_mem_nil, or_false, Prod.mk.injEq] at hmem
    obtain ⟨-, rfl⟩ | ⟨-, rfl⟩ | ⟨-, rfl⟩ | ⟨-, rfl⟩ | ⟨-, rfl⟩ | ⟨-, rfl⟩ := hmem <;> trivial
  · exact written_of_number h

theorem skip_split (s : List Char) : ∃ w, Blanks w ∧ s = w ++ skip s := by
  refine ⟨s.takeWhile fun c => c = ' ' ∨ c = '\t' ∨ c = '\n' ∨ c = '\r', fun c hc => ?_, ?_⟩
  · exact of_decide_eq_true (List.all_eq_true.mp List.all_takeWhile c hc)
  · rw [skip, List.takeWhile_append_dropWhile]

/-- Within the fuel, what is read as a value is written at the start of the text, and can be
read. -/
def ReadsValues (fuel : Nat) : Prop :=
  ∀ s v rest, value fuel s = some (v, rest) → (∃ k, s = k ++ rest ∧ Written v k) ∧ v.Readable

def ReadsItems (fuel : Nat) : Prop :=
  ∀ s vs rest, elements fuel (skip s) = some (vs, rest) →
    (∃ k, s = k ++ rest ∧ WrittenItems vs k) ∧ ReadableItems vs

def ReadsFields (fuel : Nat) : Prop :=
  ∀ s fields rest, members fuel (skip s) = some (fields, rest) →
    (∃ k, s = k ++ rest ∧ WrittenFields fields k) ∧ ReadableFields fields

variable {fuel : Nat}

theorem readsValues_succ (ihitems : ReadsItems fuel) (ihfields : ReadsFields fuel) :
    ReadsValues (fuel + 1) := by
  intro s v rest h
  unfold value at h
  split at h
  · rename_i s
    rw [Option.map_eq_some_iff] at h
    obtain ⟨⟨key, r⟩, hstring, heq⟩ := h
    cases heq
    obtain ⟨ns, k, rfl, rfl, hk⟩ := spells_of_string hstring
    exact ⟨⟨'"' :: (k ++ ['"']), by simp, .str hk⟩, trivial⟩
  · rename_i s
    obtain ⟨w, hw, hs⟩ := skip_split s
    split at h
    · rename_i r hskip
      cases h
      rw [hskip] at hs
      exact ⟨⟨'[' :: (w ++ [']']), by simp [hs], .no_items hw⟩, trivial⟩
    · rename_i hclose
      rw [Option.map_eq_some_iff] at h
      obtain ⟨⟨items, r⟩, helements, heq⟩ := h
      cases heq
      obtain ⟨⟨k, rfl, hk⟩, hread⟩ := ihitems s items _ helements
      cases items with
      | nil => cases hk
      | cons item items => exact ⟨⟨'[' :: k, rfl, .arr hk⟩, hread⟩
  · rename_i s
    obtain ⟨w, hw, hs⟩ := skip_split s
    split at h
    · rename_i r hskip
      cases h
      rw [hskip] at hs
      exact ⟨⟨'\x7b' :: (w ++ ['\x7d']), by simp [hs], .no_fields hw⟩, trivial⟩
    · rename_i hclose
      rw [Option.map_eq_some_iff] at h
      obtain ⟨⟨fields, r⟩, hmembers, heq⟩ := h
      cases heq
      obtain ⟨⟨k, rfl, hk⟩, hread⟩ := ihfields s fields _ hmembers
      cases fields with
      | nil => cases hk
      | cons field fields => exact ⟨⟨'\x7b' :: k, rfl, .obj hk⟩, hread⟩
  · exact written_of_scalar h

theorem readsItems_succ (ihvalue : ReadsValues fuel) (ihitems : ReadsItems fuel) :
    ReadsItems (fuel + 1) := by
  intro s vs rest h
  obtain ⟨w, hw, hs⟩ := skip_split s
  rw [elements] at h
  cases hvalue : value fuel (skip s) with
  | none => simp [hvalue] at h
  | some r =>
    obtain ⟨v, t⟩ := r
    obtain ⟨⟨k, hk, hwritten⟩, hread⟩ := ihvalue _ v t hvalue
    obtain ⟨w', hw', ht⟩ := skip_split t
    simp only [hvalue, Option.bind_eq_bind, Option.bind_some] at h
    split at h
    · rename_i r hskip
      cases h
      rw [hskip] at ht
      refine ⟨⟨w ++ (k ++ (w' ++ [']'])), ?_, .last hw hwritten hw'⟩, hread, trivial⟩
      rw [hs, hk, ht]
      simp only [List.append_assoc, List.singleton_append]
    · rename_i r hskip
      cases helements : elements fuel (skip r) with
      | none => simp [helements] at h
      | some r' =>
        obtain ⟨vs', t'⟩ := r'
        rw [helements] at h
        cases h
        obtain ⟨⟨k', hk', hitems⟩, hreads⟩ := ihitems r _ _ helements
        rw [hskip, hk'] at ht
        cases vs' with
        | nil => cases hitems
        | cons v' vs =>
          refine ⟨⟨w ++ (k ++ (w' ++ ',' :: k')), ?_, .next hw hwritten hw' hitems⟩, hread, hreads⟩
          rw [hs, hk, ht]
          simp only [List.append_assoc, List.cons_append]
    · cases h

theorem readsFields_succ (ihvalue : ReadsValues fuel) (ihfields : ReadsFields fuel) :
    ReadsFields (fuel + 1) := by
  intro s fields rest h
  obtain ⟨w₀, hw₀, hs⟩ := skip_split s
  unfold members at h
  split at h
  · rename_i t hquote
    cases hstring : string t with
    | none => simp [hstring] at h
    | some r =>
      obtain ⟨key, t₁⟩ := r
      obtain ⟨ns, k, rfl, ht, hk⟩ := spells_of_string hstring
      obtain ⟨w₁, hw₁, ht₁⟩ := skip_split t₁
      simp only [hstring, Option.bind_eq_bind, Option.bind_some] at h
      split at h
      · rename_i t₂ hcolon
        obtain ⟨w₂, hw₂, ht₂⟩ := skip_split t₂
        cases hvalue : value fuel (skip t₂) with
        | none => simp [hvalue] at h
        | some r =>
          obtain ⟨v, t₃⟩ := r
          obtain ⟨⟨k', hk', hwritten⟩, hread⟩ := ihvalue _ v t₃ hvalue
          obtain ⟨w₃, hw₃, ht₃⟩ := skip_split t₃
          simp only [hvalue, Option.bind_some] at h
          rw [hquote, ht, ht₁, hcolon, ht₂, hk'] at hs
          split at h
          · rename_i r hskip
            cases h
            rw [hskip] at ht₃
            refine ⟨⟨_, ?_, .last hw₀ hk hw₁ hw₂ hwritten hw₃⟩, hread, trivial⟩
            rw [hs, ht₃]
            simp only [List.append_assoc, List.cons_append, List.nil_append]
          · rename_i r hskip
            cases hmembers : members fuel (skip r) with
            | none => simp [hmembers] at h
            | some r' =>
              obtain ⟨fields', t'⟩ := r'
              rw [hmembers] at h
              cases h
              obtain ⟨⟨k₃, hk₃, hfields⟩, hreads⟩ := ihfields r _ _ hmembers
              rw [hskip, hk₃] at ht₃
              cases fields' with
              | nil => cases hfields
              | cons field fields =>
                refine ⟨⟨_, ?_, .next hw₀ hk hw₁ hw₂ hwritten hw₃ hfields⟩, hread, hreads⟩
                rw [hs, ht₃]
                simp only [List.append_assoc, List.cons_append]
          · cases h
      · cases h
  · cases h

theorem reads (fuel : Nat) : ReadsValues fuel ∧ ReadsItems fuel ∧ ReadsFields fuel := by
  induction fuel with
  | zero =>
    refine ⟨fun s v rest h => ?_, fun s vs rest h => ?_, fun s fields rest h => ?_⟩
    · cases h
    · cases h
    · cases h
  | succ fuel ih =>
    obtain ⟨ihvalue, ihitems, ihfields⟩ := ih
    exact ⟨readsValues_succ ihitems ihfields, readsItems_succ ihvalue ihitems,
      readsFields_succ ihvalue ihfields⟩

/-- Whatever is read is written at the start of the text. -/
theorem written_of_value (h : value fuel s = some (v, rest)) :
    (∃ k, s = k ++ rest ∧ Written v k) ∧ v.Readable :=
  (reads fuel).1 s v rest h

/-- What is loaded is all that the text holds between blanks. -/
theorem written_of_loads (h : loads s = some v) :
    (∃ w k w', Blanks w ∧ Blanks w' ∧ Written v k ∧ s = w ++ (k ++ w')) ∧ v.Readable := by
  unfold loads at h
  split at h
  · rename_i v' rest hvalue
    split_ifs at h with hrest
    cases h
    obtain ⟨⟨k, hk, hwritten⟩, hread⟩ := written_of_value hvalue
    obtain ⟨w, hw, hs⟩ := skip_split s
    obtain ⟨w', hw', ht⟩ := skip_split rest
    rw [hrest, List.append_nil] at ht
    rw [hk, ht] at hs
    exact ⟨⟨w, k, w', hw, hw', hwritten, hs⟩, hread⟩
  · cases h

/-- An object is read whatever follows it. -/
theorem value_object {fields : List (List Nat × Value)} {k : List Char}
    (h : Written (.obj fields) k) (hread : (Value.obj fields).Readable)
    (hfuel : 2 * k.length ≤ fuel) : value fuel (k ++ rest) = some (.obj fields, rest) := by
  have hcost := (cost_written h).trans hfuel
  cases fuel with
  | zero => simp [Value.cost] at hcost
  | succ fuel =>
    cases h with
    | constant hname => simp [constants] at hname
    | no_fields hw =>
      rw [List.cons_append, List.append_assoc, List.singleton_append]
      exact value_braces hw
    | obj h =>
      simp only [Value.cost] at hcost
      exact value_fields (skip_fields h) ((value_written fuel).2.2 _ _ _ h hread (by omega))

/-- No text of an object starts another one. -/
theorem eq_of_object {fields fields' : List (List Nat × Value)} {k k' rest' : List Char}
    (h : Written (.obj fields) k) (hread : (Value.obj fields).Readable)
    (h' : Written (.obj fields') k') (hread' : (Value.obj fields').Readable)
    (heq : k ++ rest = k' ++ rest') : fields = fields' ∧ k = k' ∧ rest = rest' := by
  have hvalue := @value_object rest (2 * k.length + 2 * k'.length) fields k h hread (by omega)
  have hvalue' := @value_object rest' (2 * k.length + 2 * k'.length) fields' k' h' hread' (by omega)
  rw [heq, hvalue'] at hvalue
  cases hvalue
  exact ⟨rfl, List.append_cancel_right heq, rfl⟩

end Values

end foundation.json
