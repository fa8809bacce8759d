import LaGraph.Foundation.Json.Tokens

namespace foundation.json

mutual

/-- The values that are read back: no number with a fraction, no surrogates and no
integer with too many digits. -/
def Value.Plain : Value → Prop
  | .int value => Short value
  | .float _ => False
  | .str codes => ∀ n ∈ codes, IsScalar n
  | .arr items => PlainItems items
  | .obj fields => PlainFields fields
  | _ => True

def PlainItems : List Value → Prop
  | [] => True
  | v :: vs => v.Plain ∧ PlainItems vs

def PlainFields : List (List Nat × Value) → Prop
  | [] => True
  | (key, v) :: fields => (∀ n ∈ key, IsScalar n) ∧ v.Plain ∧ PlainFields fields

end

mutual

/-- The nested steps that reading the value takes. -/
def Value.cost : Value → Nat
  | .arr items => 1 + costItems items
  | .obj fields => 1 + costFields fields
  | _ => 1

def costItems : List Value → Nat
  | [] => 0
  | v :: vs => 1 + v.cost + costItems vs

def costFields : List (List Nat × Value) → Nat
  | [] => 0
  | (_, v) :: fields => 1 + v.cost + costFields fields

end

/-- No blank and no closing bracket. -/
def Opens (s : List Char) : Prop :=
  ∃ c t, s = c :: t ∧ c ≠ ' ' ∧ c ≠ '\t' ∧ c ≠ '\n' ∧ c ≠ '\r' ∧ c ≠ ']' ∧ c ≠ '\x7d'

theorem Opens.append {s t : List Char} (h : Opens s) : Opens (s ++ t) := by
  obtain ⟨c, s', rfl, hc⟩ := h
  exact ⟨c, s' ++ t, rfl, hc⟩

theorem Opens.skip {s : List Char} (h : Opens s) : skip s = s := by
  obtain ⟨c, t, rfl, h⟩ := h
  simp [json.skip, h]

theorem skip_blanks {n : Nat} {s : List Char} : skip (List.replicate n ' ' ++ s) = skip s := by
  induction n with
  | zero => rfl
  | succ n ih =>
    rw [List.replicate_succ, List.cons_append]
    have hblank : skip (' ' :: (List.replicate n ' ' ++ s)) = skip (List.replicate n ' ' ++ s) := by
      simp [skip]
    rw [hblank, ih]

theorem opens_digit {c : Char} {s : List Char} (hc : c.isDigit = true) : Opens (c :: s) := by
  have hne (d : Char) (hd : d.isDigit = false) : c ≠ d := by
    rintro rfl
    rw [hd] at hc
    cases hc
  exact ⟨c, s, rfl, hne _ (by decide), hne _ (by decide), hne _ (by decide), hne _ (by decide),
    hne _ (by decide), hne _ (by decide)⟩

theorem opens_dumpsInt {i : Int} : Opens (dumpsInt i) := by
  cases i with
  | ofNat n =>
    rw [dumpsInt]
    cases hdigits : Nat.toDigits 10 n with
    | nil => simp at hdigits
    | cons c cs => exact opens_digit (isDigit_toDigits (hdigits ▸ List.mem_cons_self))
  | negSucc n => exact ⟨'-', _, rfl, by decide⟩

variable {spacing : Spacing}

theorem opens_dumps {v : Value} (h : v.Plain) : Opens (dumps spacing v) := by
  cases v with
  | null => exact ⟨'n', _, rfl, by decide⟩
  | bool value =>
    cases value
    · exact ⟨'f', _, rfl, by decide⟩
    · exact ⟨'t', _, rfl, by decide⟩
  | int value =>
    rw [dumps]
    exact opens_dumpsInt
  | float text => exact absurd h (by simp [Value.Plain])
  | str codes =>
    rw [dumps, dumpsStr]
    exact ⟨'"', _, rfl, by decide⟩
  | arr items =>
    rw [dumps]
    exact ⟨'[', _, rfl, by decide⟩
  | obj fields =>
    rw [dumps]
    exact ⟨'\x7b', _, rfl, by decide⟩

/-- No constant starts like an integer. -/
theorem scalar_dumpsInt {i : Int} (hi : Short i) {s : List Char} (h : Delimited s) :
    scalar (dumpsInt i ++ s) = some (.int i, s) := by
  have hnone : constants.find? (·.1.isPrefixOf (dumpsInt i ++ s)) = none := by
    have hdigit {n : Nat} : ∃ c cs, Nat.toDigits 10 n = c :: cs ∧ c.isDigit = true := by
      cases hdigits : Nat.toDigits 10 n with
      | nil => simp at hdigits
      | cons c cs => exact ⟨c, cs, rfl, isDigit_toDigits (hdigits ▸ List.mem_cons_self)⟩
    have hne {c d : Char} (hc : c.isDigit = true) (hd : d.isDigit = false) : (d == c) = false := by
      rw [beq_eq_false_iff_ne]
      rintro rfl
      rw [hd] at hc
      cases hc
    cases i with
    | ofNat n =>
      obtain ⟨c, cs, hdigits, hc⟩ := @hdigit n
      rw [dumpsInt, hdigits]
      simp [constants, List.isPrefixOf, @hne c 'n' hc, @hne c 't' hc, @hne c 'f' hc, @hne c 'N' hc,
        @hne c 'I' hc, @hne c '-' hc]
    | negSucc n =>
      obtain ⟨c, cs, hdigits, hc⟩ := @hdigit (n + 1)
      rw [dumpsInt, hdigits]
      simp [constants, List.isPrefixOf, @hne c 'I' hc]
  rw [scalar, hnone]
  exact number_dumpsInt hi h

theorem opens_dumpsItems {v : Value} {vs : List Value} (h : v.Plain) :
    Opens (dumpsItems spacing (v :: vs)) := by
  cases vs with
  | nil =>
    rw [dumpsItems]
    exact (opens_dumps h).append
  | cons w vs =>
    rw [dumpsItems]
    exact (opens_dumps h).append

theorem opens_dumpsFields {field : List Nat × Value} {fields : List (List Nat × Value)} :
    Opens (dumpsFields spacing (field :: fields)) := by
  obtain ⟨key, v⟩ := field
  cases fields with
  | nil =>
    rw [dumpsFields, dumpsStr]
    exact ⟨'"', _, rfl, by decide⟩
  | cons field fields =>
    rw [dumpsFields, dumpsStr]
    exact ⟨'"', _, rfl, by decide⟩

theorem value_scalar {fuel : Nat} {c : Char} {s : List Char} (hquote : c ≠ '"') (harr : c ≠ '[')
    (hobj : c ≠ '\x7b') : value (fuel + 1) (c :: s) = scalar (c :: s) := by
  unfold value
  split
  · rename_i heq
    exact absurd (List.cons.inj heq).1 hquote
  · rename_i heq
    exact absurd (List.cons.inj heq).1 harr
  · rename_i heq
    exact absurd (List.cons.inj heq).1 hobj
  · rfl

theorem value_dumpsInt {fuel : Nat} {i : Int} (hi : Short i) {s : List Char} (h : Delimited s) :
    value (fuel + 1) (dumpsInt i ++ s) = some (.int i, s) := by
  have hscalar := scalar_dumpsInt hi h
  cases i with
  | ofNat n =>
    rw [dumpsInt] at hscalar ⊢
    cases hdigits : Nat.toDigits 10 n with
    | nil => simp at hdigits
    | cons c cs =>
      have hc : c.isDigit = true := isDigit_toDigits (hdigits ▸ List.mem_cons_self)
      have hne (d : Char) (hd : d.isDigit = false) : c ≠ d := by
        rintro rfl
        rw [hd] at hc
        cases hc
      rw [hdigits] at hscalar
      exact (value_scalar (hne _ (by decide)) (hne _ (by decide)) (hne _ (by decide))).trans hscalar
  | negSucc n =>
    rw [dumpsInt] at hscalar ⊢
    exact (value_scalar (by decide) (by decide) (by decide)).trans hscalar

theorem value_arr {fuel : Nat} {s rest : List Char} {vs : List Value} (hs : Opens s)
    (h : elements fuel s = some (vs, rest)) : value (fuel + 1) ('[' :: s) = some (.arr vs, rest) := by
  have hskip := hs.skip
  obtain ⟨c, t, rfl, hc⟩ := hs
  unfold value
  simp only [hskip]
  split
  · rename_i heq
    exact absurd (List.cons.inj heq).1 hc.2.2.2.2.1
  · rw [h]
    rfl

theorem value_obj {fuel : Nat} {s rest : List Char} {fields : List (List Nat × Value)}
    (hs : Opens s) (h : members fuel s = some (fields, rest)) :
    value (fuel + 1) ('\x7b' :: s) = some (.obj fields, rest) := by
  have hskip := hs.skip
  obtain ⟨c, t, rfl, hc⟩ := hs
  unfold value
  simp only [hskip]
  split
  · rename_i heq
    exact absurd (List.cons.inj heq).1 hc.2.2.2.2.2
  · rw [h]
    rfl

theorem skip_comma {s : List Char} (hs : Opens s) :
    skip (comma spacing ++ s) = ',' :: (List.replicate spacing.item ' ' ++ s) ∧
      skip (List.replicate spacing.item ' ' ++ s) = s := by
  refine ⟨rfl, ?_⟩
  rw [skip_blanks, hs.skip]

theorem skip_colon {s : List Char} (hs : Opens s) :
    skip (colon spacing ++ s) = ':' :: (List.replicate spacing.key ' ' ++ s) ∧
      skip (List.replicate spacing.key ' ' ++ s) = s := by
  refine ⟨rfl, ?_⟩
  rw [skip_blanks, hs.skip]

/-- Every value, and every rest of an array or of an object, is read back. -/
theorem value_dumps (fuel : Nat) :
    (∀ v rest, v.Plain → Delimited rest → v.cost ≤ fuel →
      value fuel (dumps spacing v ++ rest) = some (v, rest)) ∧
    (∀ v vs rest, PlainItems (v :: vs) → costItems (v :: vs) ≤ fuel →
      elements fuel (dumpsItems spacing (v :: vs) ++ rest) = some (v :: vs, rest)) ∧
    (∀ field fields rest, PlainFields (field :: fields) → costFields (field :: fields) ≤ fuel →
      members fuel (dumpsFields spacing (field :: fields) ++ rest) =
        some (field :: fields, rest)) := by
  induction fuel with
  | zero =>
    refine ⟨fun v _ _ _ hcost => ?_, fun v _ _ _ hcost => ?_, fun field _ _ _ hcost => ?_⟩
    · cases v <;> simp [Value.cost] at hcost
    · simp [costItems] at hcost
    · simp [costFields] at hcost
  | succ fuel ih =>
    obtain ⟨ihvalue, ihitems, ihfields⟩ := ih
    refine ⟨fun v rest hplain hrest hcost => ?_, fun v vs rest hplain hcost => ?_,
      fun field fields rest hplain hcost => ?_⟩
    · cases v with
      | null => rfl
      | bool value =>
        cases value
        · rfl
        · rfl
      | int value =>
        rw [dumps]
        exact value_dumpsInt hplain hrest
      | float text => exact absurd hplain (by simp [Value.Plain])
      | str codes =>
        have hread := @string_dumpsStr codes hplain rest
        simp [dumps, dumpsStr, value, hread]
      | arr items =>
        cases items with
        | nil => rfl
        | cons v vs =>
          simp only [Value.cost] at hcost
          have hitems : PlainItems (v :: vs) := hplain
          rw [dumps]
          exact value_arr (opens_dumpsItems hitems.1).append (ihitems v vs rest hitems (by omega))
      | obj fields =>
        cases fields with
        | nil => rfl
        | cons field fields =>
          simp only [Value.cost] at hcost
          rw [dumps]
          exact value_obj opens_dumpsFields.append (ihfields field fields rest hplain (by omega))
    · obtain ⟨hv, hvs⟩ := hplain
      simp only [costItems] at hcost
      cases vs with
      | nil =>
        have hvalue := ihvalue v (']' :: rest) hv (delimited_cons (by decide)) (by omega)
        simp [dumpsItems, elements, hvalue, skip]
      | cons w vs =>
        have hopens : Opens (dumpsItems spacing (w :: vs) ++ rest) := (opens_dumpsItems hvs.1).append
        obtain ⟨hskip, hblanks⟩ := @skip_comma spacing _ hopens
        have hvalue := ihvalue v (comma spacing ++ (dumpsItems spacing (w :: vs) ++ rest)) hv
          (delimited_cons (by decide)) (by omega)
        have hitems := ihitems w vs rest hvs (by simp only [costItems] at hcost ⊢; omega)
        rw [dumpsItems, List.append_assoc, List.append_assoc, elements, hvalue]
        simp [hskip, hblanks, hitems]
    · obtain ⟨key, v⟩ := field
      obtain ⟨hkey, hv, hfields⟩ := hplain
      simp only [costFields] at hcost
      have hname (s : List Char) := @string_dumpsStr key hkey s
      cases fields with
      | nil =>
        have hopens : Opens (dumps spacing v ++ '\x7d' :: rest) := (opens_dumps hv).append
        obtain ⟨hskip, hblanks⟩ := @skip_colon spacing _ hopens
        have hvalue := ihvalue v ('\x7d' :: rest) hv (delimited_cons (by decide)) (by omega)
        have hclose : skip ('\x7d' :: rest) = '\x7d' :: rest := rfl
        simp [dumpsFields, dumpsStr, members, hname, hskip, hblanks, hvalue, hclose]
      | cons field fields =>
        have hnext : Opens (dumpsFields spacing (field :: fields) ++ rest) :=
          opens_dumpsFields.append
        obtain ⟨hcomma, hafter⟩ := @skip_comma spacing _ hnext
        have hopens : Opens (dumps spacing v ++
            (comma spacing ++ (dumpsFields spacing (field :: fields) ++ rest))) :=
          (opens_dumps hv).append
        obtain ⟨hskip, hblanks⟩ := @skip_colon spacing _ hopens
        have hvalue := ihvalue v
          (comma spacing ++ (dumpsFields spacing (field :: fields) ++ rest)) hv
          (delimited_cons (by decide)) (by omega)
        have hmembers := ihfields field fields rest hfields
          (by obtain ⟨key', v'⟩ := field; simp only [costFields] at hcost ⊢; omega)
        simp [dumpsFields, dumpsStr, members, hname, hskip, hblanks, hvalue, hcomma, hafter,
          hmembers]

theorem Opens.length_pos {s : List Char} (h : Opens s) : 0 < s.length := by
  obtain ⟨c, t, rfl, -⟩ := h
  simp

mutual

theorem cost_le {v : Value} (h : v.Plain) : v.cost ≤ 2 * (dumps spacing v).length := by
  have hpos := (@opens_dumps spacing _ h).length_pos
  cases v with
  | arr items =>
    have hitems : costItems items ≤ 2 * (dumpsItems spacing items).length := costItems_le h
    simp only [Value.cost, dumps, List.length_cons]
    omega
  | obj fields =>
    have hfields : costFields fields ≤ 2 * (dumpsFields spacing fields).length :=
      costFields_le h
    simp only [Value.cost, dumps, List.length_cons]
    omega
  | _ =>
    simp only [Value.cost]
    omega

theorem costItems_le {vs : List Value} (h : PlainItems vs) :
    costItems vs ≤ 2 * (dumpsItems spacing vs).length := by
  match vs, h with
  | [], _ => simp [costItems]
  | [v], h =>
    have hv := cost_le h.1
    simp only [costItems, dumpsItems, List.length_append, List.length_cons]
    omega
  | v :: w :: vs, h =>
    have hv := cost_le h.1
    have hvs := costItems_le h.2
    rw [costItems, dumpsItems]
    simp only [List.length_append, comma, List.length_cons]
    omega

theorem costFields_le {fields : List (List Nat × Value)} (h : PlainFields fields) :
    costFields fields ≤ 2 * (dumpsFields spacing fields).length := by
  match fields, h with
  | [], _ => simp [costFields]
  | [(key, v)], h =>
    have hv := cost_le h.2.1
    simp only [costFields, dumpsFields, List.length_append, List.length_cons]
    omega
  | (key, v) :: field :: fields, h =>
    have hv := cost_le h.2.1
    have hfields := costFields_le h.2.2
    rw [costFields, dumpsFields]
    simp only [List.length_append, comma, List.length_cons]
    omega

end

/-- What is dumped is loaded again. -/
theorem loads_dumps {v : Value} (h : v.Plain) : loads (dumps spacing v) = some v := by
  have hcost : v.cost ≤ 2 * (dumps spacing v).length + 2 := Nat.le_add_right_of_le (cost_le h)
  have hread := (@value_dumps spacing _).1 v [] h trivial hcost
  rw [List.append_nil] at hread
  rw [loads, (opens_dumps h).skip, hread]
  rfl

theorem dumps_injective {v w : Value} (hv : v.Plain) (hw : w.Plain)
    (h : dumps spacing v = dumps spacing w) : v = w := by
  have hload := @loads_dumps spacing _ hv
  rw [h, loads_dumps hw] at hload
  exact (Option.some.inj hload).symm

end foundation.json
