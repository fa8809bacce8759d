import LaGraph.Foundation.Json.RoundTrip

namespace foundation.json

/-- Characters that stand for themselves in ASCII. -/
def Printable (s : List Char) : Prop :=
  ∀ c ∈ s, 32 ≤ c.toNat ∧ c.toNat < 127

theorem Printable.append {s t : List Char} (hs : Printable s) (ht : Printable t) :
    Printable (s ++ t) := by
  intro c hc
  rcases List.mem_append.mp hc with hc | hc
  · exact hs c hc
  · exact ht c hc

theorem Printable.cons {c : Char} {s : List Char} (hc : 32 ≤ c.toNat ∧ c.toNat < 127)
    (hs : Printable s) : Printable (c :: s) := by
  intro d hd
  rcases List.mem_cons.mp hd with rfl | hd
  · exact hc
  · exact hs d hd

theorem printable_nil : Printable [] :=
  fun _ hc => absurd hc List.not_mem_nil

theorem printable_hexDigit (n : Nat) : 32 ≤ (hexDigit n).toNat ∧ (hexDigit n).toNat < 127 := by
  by_cases h : n < 16
  · have hall : ∀ n < 16, 32 ≤ (hexDigit n).toNat ∧ (hexDigit n).toNat < 127 := by decide
    exact hall n h
  · have hdefault : hexDigit n = '0' := by
      have hlen : "0123456789abcdef".toList.length ≤ n := Nat.not_lt.mp h
      rw [hexDigit, List.getD_eq_getElem?_getD, List.getElem?_eq_none hlen]
      rfl
    rw [hdefault]
    decide

theorem printable_codeUnit (n : Nat) : Printable (codeUnit n) :=
  .cons (by decide) (.cons (by decide) (.cons (printable_hexDigit _) (.cons (printable_hexDigit _)
    (.cons (printable_hexDigit _) (.cons (printable_hexDigit _) printable_nil)))))

theorem printable_escapeCode (n : Nat) : Printable (escapeCode n) := by
  unfold escapeCode
  split_ifs with h34 h92 h10 h13 h9 h8 h12 hplain hunit
  · exact .cons (by decide) (.cons (by decide) printable_nil)
  · exact .cons (by decide) (.cons (by decide) printable_nil)
  · exact .cons (by decide) (.cons (by decide) printable_nil)
  · exact .cons (by decide) (.cons (by decide) printable_nil)
  · exact .cons (by decide) (.cons (by decide) printable_nil)
  · exact .cons (by decide) (.cons (by decide) printable_nil)
  · exact .cons (by decide) (.cons (by decide) printable_nil)
  · have hascii : ∀ n < 127, (Char.ofNat n).toNat = n := by decide
    refine .cons ?_ printable_nil
    rw [hascii n (by omega)]
    omega
  · exact printable_codeUnit n
  · exact (printable_codeUnit _).append (printable_codeUnit _)

theorem printable_dumpsStr (ns : List Nat) : Printable (dumpsStr ns) := by
  have hbody : Printable (ns.flatMap escapeCode) := by
    intro c hc
    obtain ⟨n, -, hn⟩ := List.mem_flatMap.mp hc
    exact printable_escapeCode n c hn
  exact (Printable.cons (by decide) hbody).append (.cons (by decide) printable_nil)

theorem printable_toDigits (n : Nat) : Printable (Nat.toDigits 10 n) := by
  intro c hc
  have hdigit : c.isDigit = true := isDigit_toDigits hc
  simp only [Char.isDigit, Bool.and_eq_true, decide_eq_true_eq] at hdigit
  have hlow : (48 : UInt32).toNat ≤ c.val.toNat := hdigit.1
  have hhigh : c.val.toNat ≤ (57 : UInt32).toNat := hdigit.2
  have hvalue : c.toNat = c.val.toNat := rfl
  simp only [UInt32.reduceToNat] at hlow hhigh
  omega

theorem printable_dumpsInt (i : Int) : Printable (dumpsInt i) := by
  cases i with
  | ofNat n => exact printable_toDigits n
  | negSucc n => exact .cons (by decide) (printable_toDigits _)

theorem printable_blanks (n : Nat) : Printable (List.replicate n ' ') := by
  intro c hc
  rw [List.eq_of_mem_replicate hc]
  decide

theorem printable_name {s : List Char} (h : s.all fun c => 32 ≤ c.toNat && c.toNat < 127) :
    Printable s := by
  intro c hc
  simpa using List.all_eq_true.mp h c hc

variable {spacing : Spacing}

theorem printable_comma : Printable (comma spacing) :=
  .cons (by decide) (printable_blanks _)

theorem printable_colon : Printable (colon spacing) :=
  .cons (by decide) (printable_blanks _)

mutual

/-- What is dumped is printable ASCII. -/
theorem printable_dumps {v : Value} (h : v.Plain) : Printable (dumps spacing v) := by
  match v, h with
  | .null, _ => exact printable_name (s := "null".toList) (by decide)
  | .bool true, _ => exact printable_name (s := "true".toList) (by decide)
  | .bool false, _ => exact printable_name (s := "false".toList) (by decide)
  | .int value, _ =>
    rw [dumps]
    exact printable_dumpsInt value
  | .float text, h => exact absurd h (by simp [Value.Plain])
  | .str ns, _ =>
    rw [dumps]
    exact printable_dumpsStr ns
  | .arr items, h =>
    rw [dumps]
    exact .cons (by decide) (printable_dumpsItems h)
  | .obj fields, h =>
    rw [dumps]
    exact .cons (by decide) (printable_dumpsFields h)

theorem printable_dumpsItems {vs : List Value} (h : PlainItems vs) :
    Printable (dumpsItems spacing vs) := by
  match vs, h with
  | [], _ =>
    rw [dumpsItems]
    exact .cons (by decide) printable_nil
  | [v], h =>
    rw [dumpsItems]
    exact (printable_dumps h.1).append (.cons (by decide) printable_nil)
  | v :: w :: vs, h =>
    rw [dumpsItems]
    exact (printable_dumps h.1).append (printable_comma.append (printable_dumpsItems h.2))

theorem printable_dumpsFields {fields : List (List Nat × Value)} (h : PlainFields fields) :
    Printable (dumpsFields spacing fields) := by
  match fields, h with
  | [], _ =>
    rw [dumpsFields]
    exact .cons (by decide) printable_nil
  | [(key, v)], h =>
    rw [dumpsFields]
    exact (printable_dumpsStr key).append (printable_colon.append
      ((printable_dumps h.2.1).append (.cons (by decide) printable_nil)))
  | (key, v) :: field :: fields, h =>
    rw [dumpsFields]
    exact (printable_dumpsStr key).append (printable_colon.append ((printable_dumps h.2.1).append
      (printable_comma.append (printable_dumpsFields h.2.2))))

end

/-- Bytes as text: ASCII without a zero stands for itself, and `decode` reads other bytes in
the encoding that is detected. -/
def decodeBytes (decode : List Nat → Option (List Char)) (bytes : List Nat) : Option (List Char) :=
  if bytes.all (fun b => 0 < b && b < 128) then some (bytes.map Char.ofNat) else decode bytes

/-- The bytes of printable text are read as the text. -/
theorem decodeBytes_printable {decode : List Nat → Option (List Char)} {s : List Char}
    (h : Printable s) : decodeBytes decode (s.map Char.toNat) = some s := by
  have hall : (s.map Char.toNat).all (fun b => 0 < b && b < 128) = true := by
    rw [List.all_map, List.all_eq_true]
    intro c hc
    have hprintable := h c hc
    simp only [Function.comp, Bool.and_eq_true, decide_eq_true_eq]
    omega
  rw [decodeBytes, if_pos hall, List.map_map]
  congr 1
  refine List.map_id'' (fun c => ?_) s
  exact Char.ofNat_toNat c

/-- They are bytes. -/
theorem Printable.bytes {s : List Char} (h : Printable s) : ∀ b ∈ s.map Char.toNat, b < 256 := by
  intro b hb
  obtain ⟨c, hc, rfl⟩ := List.mem_map.mp hb
  have hascii := h c hc
  omega

theorem plain_text {s : String} : (Value.text s).Plain :=
  fun _ hn => isScalar_codes hn

theorem plain_key {s : String} : ∀ n ∈ codes s, IsScalar n :=
  fun _ hn => isScalar_codes hn

end foundation.json
