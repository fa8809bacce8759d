import LaGraph.Foundation.Json.Accepted

namespace foundation.json

/-- How reading a text fails: it is no JSON, or an integer has more digits than are converted. -/
inductive Failure
  | decode_error
  | value_error
  deriving DecidableEq, Repr

section Decoder

/-- What is not read is no JSON. -/
def required {α : Type} : Option α → Except Failure α
  | some a => .ok a
  | none => .error .decode_error

/-- A number is refused with its first digits read only where there are too many. -/
def decodeScalar (s : List Char) : Except Failure (Value × List Char) :=
  match scalar s with
  | some result => .ok result
  | none =>
    if integerDigits (afterMinus s) = [] then .error .decode_error else .error .value_error

mutual

/-- `scan_once`, by at most `fuel` nested steps. -/
def decodeValue : Nat → List Char → Except Failure (Value × List Char)
  | 0, _ => .error .decode_error
  | fuel + 1, s =>
    match s with
    | '"' :: s => (required (string s)).map fun result => (.str result.1, result.2)
    | '[' :: s =>
      match skip s with
      | ']' :: rest => .ok (.arr [], rest)
      | s => (decodeElements fuel s).map fun result => (.arr result.1, result.2)
    | '\x7b' :: s =>
      match skip s with
      | '\x7d' :: rest => .ok (.obj [], rest)
      | s => (decodeMembers fuel s).map fun result => (.obj result.1, result.2)
    | s => decodeScalar s

def decodeElements : Nat → List Char → Except Failure (List Value × List Char)
  | 0, _ => .error .decode_error
  | fuel + 1, s => do
    let (v, s) ← decodeValue fuel s
    match skip s with
    | ']' :: rest => .ok ([v], rest)
    | ',' :: s =>
      let (vs, rest) ← decodeElements fuel (skip s)
      .ok (v :: vs, rest)
    | _ => .error .decode_error

def decodeMembers : Nat → List Char → Except Failure (List (List Nat × Value) × List Char)
  | 0, _ => .error .decode_error
  | fuel + 1, s =>
    match s with
    | '"' :: s => do
      let (key, s) ← required (string s)
      match skip s with
      | ':' :: s =>
        let (v, s) ← decodeValue fuel (skip s)
        match skip s with
        | '\x7d' :: rest => .ok ([(key, v)], rest)
        | ',' :: s =>
          let (fields, rest) ← decodeMembers fuel (skip s)
          .ok ((key, v) :: fields, rest)
        | _ => .error .decode_error
      | _ => .error .decode_error
    | _ => .error .decode_error

end

/-- `JSONDecoder.raw_decode`: a value at the start of the text, and what follows it. -/
def raw_decode (s : List Char) : Except Failure (Value × List Char) :=
  decodeValue (2 * s.length + 2) s

/-- `JSONDecoder.decode`: the value of the whole text. -/
def decode (s : List Char) : Except Failure Value :=
  match decodeValue (2 * s.length + 2) (skip s) with
  | .ok (v, rest) => if skip rest = [] then .ok v else .error .decode_error
  | .error failure => .error failure

end Decoder

section Agreement

variable {s : List Char}

theorem toOption_required {α : Type} {result : Option α} : (required result).toOption = result := by
  cases result <;> rfl

theorem toOption_map {ε α β : Type} {f : α → β} {result : Except ε α} :
    (result.map f).toOption = result.toOption.map f := by
  cases result <;> rfl

theorem toOption_decodeScalar : (decodeScalar s).toOption = scalar s := by
  unfold decodeScalar
  cases scalar s with
  | some result => rfl
  | none => split_ifs <;> rfl

theorem toOption_bind {ε α β : Type} {f : α → Except ε β} {result : Except ε α} :
    (result >>= f).toOption = result.toOption >>= fun a => (f a).toOption := by
  cases result <;> rfl

-- the two readers may share what they match on, and are then split together
theorem toOption_decodeElements {fuel : Nat}
    (ihvalue : ∀ s, (decodeValue fuel s).toOption = value fuel s)
    (ihitems : ∀ s, (decodeElements fuel s).toOption = elements fuel s) :
    (decodeElements (fuel + 1) s).toOption = elements (fuel + 1) s := by
  rw [decodeElements, elements, toOption_bind, ihvalue]
  congr 1
  funext r
  obtain ⟨v, t⟩ := r
  dsimp only
  generalize skip t = t
  split
  · rfl
  · rw [toOption_bind, ihitems]
    rfl
  · rename_i hclose hcomma
    first
    | rfl
    | split
      · exact absurd rfl (hclose _)
      · exact absurd rfl (hcomma _)
      · rfl

theorem toOption_decodeMembers {fuel : Nat}
    (ihvalue : ∀ s, (decodeValue fuel s).toOption = value fuel s)
    (ihfields : ∀ s, (decodeMembers fuel s).toOption = members fuel s) :
    (decodeMembers (fuel + 1) s).toOption = members (fuel + 1) s := by
  unfold decodeMembers
  split
  · rw [toOption_bind, toOption_required, members]
    congr 1
    funext r
    obtain ⟨key, t⟩ := r
    dsimp only
    generalize skip t = t
    split
    · rw [toOption_bind, ihvalue]
      congr 1
      funext r
      obtain ⟨v, t⟩ := r
      dsimp only
      generalize skip t = t
      split
      · rfl
      · rw [toOption_bind, ihfields]
        rfl
      · rename_i hclose hcomma
        first
        | rfl
        | split
          · exact absurd rfl (hclose _)
          · exact absurd rfl (hcomma _)
          · rfl
    · rename_i hcolon
      first
      | rfl
      | split
        · exact absurd rfl (hcolon _)
        · rfl
  · rename_i hquote
    unfold members
    split
    · exact absurd rfl (hquote _)
    · rfl

theorem toOption_decodeValue_succ {fuel : Nat}
    (ihitems : ∀ s, (decodeElements fuel s).toOption = elements fuel s)
    (ihfields : ∀ s, (decodeMembers fuel s).toOption = members fuel s) :
    (decodeValue (fuel + 1) s).toOption = value (fuel + 1) s := by
  unfold decodeValue
  split
  · rw [toOption_map, toOption_required, value]
  · rename_i s
    rw [value]
    generalize skip s = t
    split
    · rfl
    · rename_i hclose
      refine toOption_map.trans ?_
      first
      | exact congrArg _ (ihitems _)
      | split
        · exact absurd rfl (hclose _)
        · exact congrArg _ (ihitems _)
  · rename_i s
    rw [value]
    generalize skip s = t
    split
    · rfl
    · rename_i hclose
      refine toOption_map.trans ?_
      first
      | exact congrArg _ (ihfields _)
      | split
        · exact absurd rfl (hclose _)
        · exact congrArg _ (ihfields _)
  · rename_i hquote harr hobj
    unfold value
    split
    · exact absurd rfl (hquote _)
    · exact absurd rfl (harr _)
    · exact absurd rfl (hobj _)
    · exact toOption_decodeScalar

/-- The decoder reads what is read where the reasons do not matter. -/
theorem toOption_decodeValue (fuel : Nat) :
    (∀ s, (decodeValue fuel s).toOption = value fuel s) ∧
    (∀ s, (decodeElements fuel s).toOption = elements fuel s) ∧
    (∀ s, (decodeMembers fuel s).toOption = members fuel s) := by
  induction fuel with
  | zero => exact ⟨fun s => rfl, fun s => rfl, fun s => rfl⟩
  | succ fuel ih =>
    obtain ⟨ihvalue, ihitems, ihfields⟩ := ih
    exact ⟨fun s => toOption_decodeValue_succ ihitems ihfields,
      fun s => toOption_decodeElements ihvalue ihitems,
      fun s => toOption_decodeMembers ihvalue ihfields⟩

theorem toOption_decode : (decode s).toOption = loads s := by
  unfold decode loads
  rw [← (toOption_decodeValue _).1]
  cases decodeValue (2 * s.length + 2) (skip s) with
  | error failure => rfl
  | ok r =>
    dsimp only [Except.toOption]
    split_ifs <;> rfl

theorem ok_of_toOption {ε α : Type} {a : α} {result : Except ε α} (h : result.toOption = some a) :
    result = .ok a := by
  cases result with
  | error failure => cases h
  | ok b => exact congrArg Except.ok (Option.some.inj h)

/-- However a value is written, and whatever blanks stand around it, it is decoded. -/
theorem decode_written {v : Value} {k w w' : List Char} (h : Written v k) (hread : v.Readable)
    (hw : Blanks w) (hw' : Blanks w') : decode (w ++ (k ++ w')) = .ok v :=
  ok_of_toOption (toOption_decode.trans (loads_written h hread hw hw'))

/-- What the decoder accepts is written between blanks. -/
theorem written_of_decode {v : Value} (h : decode s = .ok v) :
    (∃ w k w', Blanks w ∧ Blanks w' ∧ Written v k ∧ s = w ++ (k ++ w')) ∧ v.Readable := by
  apply written_of_loads
  rw [← toOption_decode, h]
  rfl

theorem raw_decode_object {fields : List (List Nat × Value)} {k rest : List Char}
    (h : Written (.obj fields) k) (hread : (Value.obj fields).Readable) :
    raw_decode (k ++ rest) = .ok (.obj fields, rest) := by
  apply ok_of_toOption
  rw [raw_decode, (toOption_decodeValue _).1]
  exact value_object h hread (by rw [List.length_append]; omega)

theorem written_of_raw_decode {v : Value} {rest : List Char} (h : raw_decode s = .ok (v, rest)) :
    (∃ k, s = k ++ rest ∧ Written v k) ∧ v.Readable := by
  have hvalue := (toOption_decodeValue (2 * s.length + 2)).1 s
  rw [← raw_decode, h] at hvalue
  exact written_of_value hvalue.symm

/-- No value starts with a character that starts no constant and no number. -/
theorem decode_other {c : Char} (hblank : ¬Blank c) (hmark : c ∉ ['"', '[', '\x7b', '-'])
    (hdigit : c.isDigit = false) (hnone : constants.find? (·.1.isPrefixOf (c :: s)) = none) :
    decode (c :: s) = .error .decode_error := by
  simp only [List.mem_cons, List.not_mem_nil, or_false, not_or] at hmark
  obtain ⟨hquote, harr, hobj, hminus⟩ := hmark
  have hskip : skip (c :: s) = c :: s := by
    rw [skip, List.dropWhile_cons_of_neg]
    exact fun h => hblank (of_decide_eq_true h)
  have hunsigned : afterMinus (c :: s) = c :: s := by
    unfold afterMinus
    split
    · rename_i heq
      exact absurd (List.cons.inj heq).1 hminus
    · rfl
  have hdigits : integerDigits (c :: s) = [] := by
    unfold integerDigits
    split
    · rename_i heq
      rw [(List.cons.inj heq).1] at hdigit
      cases hdigit
    · rw [List.takeWhile_cons_of_neg]
      rw [hdigit]
      exact Bool.false_ne_true
  have hnumber : number (c :: s) = none := by
    rw [number, hunsigned, hdigits]
    rfl
  have hvalue : decodeValue (2 * (c :: s).length + 2) (c :: s) = decodeScalar (c :: s) := by
    unfold decodeValue
    split
    · rename_i heq
      exact absurd (List.cons.inj heq).1 hquote
    · rename_i heq
      exact absurd (List.cons.inj heq).1 harr
    · rename_i heq
      exact absurd (List.cons.inj heq).1 hobj
    · rfl
  rw [decode, hskip, hvalue, decodeScalar, scalar, hnone]
  simp only [hnumber, hunsigned, hdigits, if_true]

end Agreement

end foundation.json
