import Mathlib.Data.Bool.AllAny
import Mathlib.Data.List.Basic

namespace foundation.base64

/-- The URL-safe alphabet. -/
def alphabet : List Char :=
  "ABCDEFGHIJKLMNOPQRSTUVWXYZabcdefghijklmnopqrstuvwxyz0123456789-_".toList

/-- The character of one six-bit group. -/
def char (n : Nat) : Char :=
  alphabet.getD n 'A'

/-- URL-safe base64 without padding. -/
def encode : List Nat → List Char
  | [] => []
  | [a] => [char (a / 4), char (a % 4 * 16)]
  | [a, b] => [char (a / 4), char (a % 4 * 16 + b / 16), char (b % 16 * 4)]
  | a :: b :: c :: rest =>
    char (a / 4) :: char (a % 4 * 16 + b / 16) :: char (b % 16 * 4 + c / 64) ::
      char (c % 64) :: encode rest

/-- The six bits of a character. The translation to the standard alphabet keeps
`+` and `/` valid. -/
def value? (c : Char) : Option Nat :=
  if c = '+' then some 62 else if c = '/' then some 63 else alphabet.idxOf? c

/-- The lenient decoder: characters outside the alphabet are skipped, complete
padding ends the input, and an incomplete group at the end is an error. The
state is the position in the group, the bits left over and the padding seen. -/
def decodeFrom : Nat → Nat → Nat → List Char → Option (List Nat)
  | pos, _, _, [] => if pos = 0 then some [] else none
  | pos, left, pads, c :: rest =>
    if c = '=' then
      if 2 ≤ pos then
        if 4 ≤ pos + (pads + 1) then some [] else decodeFrom pos left (pads + 1) rest
      else decodeFrom pos left pads rest
    else
      match value? c with
      | none => decodeFrom pos left pads rest
      | some n =>
        match pos with
        | 0 => decodeFrom 1 n 0 rest
        | 1 => (decodeFrom 2 (n % 16) 0 rest).map ((left * 4 + n / 16) :: ·)
        | 2 => (decodeFrom 3 (n % 4) 0 rest).map ((left * 16 + n / 4) :: ·)
        | _ => (decodeFrom 0 0 0 rest).map ((left * 64 + n) :: ·)

/-- Decoding of padded text; `none` where the text is not ASCII. -/
def decode (s : List Char) : Option (List Nat) :=
  if s.all (fun c => c.toNat < 128) then decodeFrom 0 0 0 s else none

example : decode (encode [72, 82, 46, 65] ++ ['=', '=']) = some [72, 82, 46, 65] := by decide

/-- What completes the last group. -/
def padding (s : List Char) : List Char :=
  List.replicate ((4 - s.length % 4) % 4) '='

/-- The strict decoder: groups of four characters of the alphabet, the last one padded. -/
def decodeStrict : List Char → Option (List Nat)
  | [] => some []
  | a :: b :: c :: d :: rest => do
    let x ← value? a
    let y ← value? b
    if c = '=' then
      if d = '=' ∧ rest = [] then some [x * 4 + y / 16] else none
    else
      let z ← value? c
      if d = '=' then
        if rest = [] then some [x * 4 + y / 16, y % 16 * 16 + z / 4] else none
      else
        let w ← value? d
        let bytes ← decodeStrict rest
        some ((x * 4 + y / 16) :: (y % 16 * 16 + z / 4) :: (z % 4 * 64 + w) :: bytes)
  | _ => none

set_option maxRecDepth 4000 in
theorem value_char {n : Nat} (h : n < 64) : value? (char n) = some n ∧ char n ≠ '=' := by
  have hall : ∀ n < 64, value? (char n) = some n ∧ char n ≠ '=' := by decide
  exact hall n h

/-- What is encoded and padded is decoded again. -/
theorem decodeStrict_encode (bytes : List Nat) (h : ∀ b ∈ bytes, b < 256) :
    decodeStrict (encode bytes ++ padding (encode bytes)) = some bytes := by
  induction bytes using encode.induct with
  | case1 => rfl
  | case2 a =>
    have ha : a < 256 := h a (by simp)
    obtain ⟨h₁, -⟩ := value_char (n := a / 4) (by omega)
    obtain ⟨h₂, -⟩ := value_char (n := a % 4 * 16) (by omega)
    simp [encode, padding, decodeStrict, h₁, h₂]
    omega
  | case3 a b =>
    have ha : a < 256 := h a (by simp)
    have hb : b < 256 := h b (by simp)
    obtain ⟨h₁, -⟩ := value_char (n := a / 4) (by omega)
    obtain ⟨h₂, -⟩ := value_char (n := a % 4 * 16 + b / 16) (by omega)
    obtain ⟨h₃, hne⟩ := value_char (n := b % 16 * 4) (by omega)
    simp [encode, padding, decodeStrict, h₁, h₂, h₃, hne]
    omega
  | case4 a b c rest ih =>
    have ha : a < 256 := h a (by simp)
    have hb : b < 256 := h b (by simp)
    have hc : c < 256 := h c (by simp)
    obtain ⟨h₁, -⟩ := value_char (n := a / 4) (by omega)
    obtain ⟨h₂, -⟩ := value_char (n := a % 4 * 16 + b / 16) (by omega)
    obtain ⟨h₃, hne⟩ := value_char (n := b % 16 * 4 + c / 64) (by omega)
    obtain ⟨h₄, hne'⟩ := value_char (n := c % 64) (by omega)
    have hpad : padding (encode (a :: b :: c :: rest)) = padding (encode rest) := by
      have hlen : ((encode rest).length + 1 + 1 + 1 + 1) % 4 = (encode rest).length % 4 := by omega
      simp only [padding, encode, List.length_cons, hlen]
    have hrest := ih fun x hx => h x (by simp [hx])
    rw [hpad]
    simp [encode, decodeStrict, h₁, h₂, h₃, h₄, hne, hne', hrest]
    omega

theorem char_mem (n : Nat) : char n ∈ alphabet := by
  unfold char
  rw [List.getD_eq_getElem?_getD]
  cases h : alphabet[n]? with
  | none => decide
  | some c => exact List.mem_of_getElem? h

theorem mem_encode {bytes : List Nat} {c : Char} (h : c ∈ encode bytes) : c ∈ alphabet := by
  induction bytes using encode.induct with
  | case1 => cases h
  | case2 a =>
    simp only [encode, List.mem_cons, List.not_mem_nil, or_false] at h
    rcases h with rfl | rfl <;> exact char_mem _
  | case3 a b =>
    simp only [encode, List.mem_cons, List.not_mem_nil, or_false] at h
    rcases h with rfl | rfl | rfl <;> exact char_mem _
  | case4 a b c rest ih =>
    simp only [encode, List.mem_cons] at h
    rcases h with rfl | rfl | rfl | rfl | h
    · exact char_mem _
    · exact char_mem _
    · exact char_mem _
    · exact char_mem _
    · exact ih h

/-- The lenient decoder reads it back as well. -/
theorem decodeFrom_encode (bytes : List Nat) (h : ∀ b ∈ bytes, b < 256) :
    decodeFrom 0 0 0 (encode bytes ++ padding (encode bytes)) = some bytes := by
  induction bytes using encode.induct with
  | case1 => rfl
  | case2 a =>
    have ha : a < 256 := h a (by simp)
    obtain ⟨h₁, hne₁⟩ := value_char (n := a / 4) (by omega)
    obtain ⟨h₂, hne₂⟩ := value_char (n := a % 4 * 16) (by omega)
    simp [encode, padding, decodeFrom, h₁, h₂, hne₁, hne₂, List.replicate]
    omega
  | case3 a b =>
    have ha : a < 256 := h a (by simp)
    have hb : b < 256 := h b (by simp)
    obtain ⟨h₁, hne₁⟩ := value_char (n := a / 4) (by omega)
    obtain ⟨h₂, hne₂⟩ := value_char (n := a % 4 * 16 + b / 16) (by omega)
    obtain ⟨h₃, hne₃⟩ := value_char (n := b % 16 * 4) (by omega)
    simp [encode, padding, decodeFrom, h₁, h₂, h₃, hne₁, hne₂, hne₃]
    omega
  | case4 a b c rest ih =>
    have ha : a < 256 := h a (by simp)
    have hb : b < 256 := h b (by simp)
    have hc : c < 256 := h c (by simp)
    obtain ⟨h₁, hne₁⟩ := value_char (n := a / 4) (by omega)
    obtain ⟨h₂, hne₂⟩ := value_char (n := a % 4 * 16 + b / 16) (by omega)
    obtain ⟨h₃, hne₃⟩ := value_char (n := b % 16 * 4 + c / 64) (by omega)
    obtain ⟨h₄, hne₄⟩ := value_char (n := c % 64) (by omega)
    have hpad : padding (encode (a :: b :: c :: rest)) = padding (encode rest) := by
      have hlen : ((encode rest).length + 1 + 1 + 1 + 1) % 4 = (encode rest).length % 4 := by omega
      simp only [padding, encode, List.length_cons, hlen]
    have hrest := ih fun x hx => h x (by simp [hx])
    rw [hpad]
    simp [encode, decodeFrom, h₁, h₂, h₃, h₄, hne₁, hne₂, hne₃, hne₄, hrest]
    omega

theorem decode_encode (bytes : List Nat) (h : ∀ b ∈ bytes, b < 256) :
    decode (encode bytes ++ padding (encode bytes)) = some bytes := by
  have hascii : (encode bytes ++ padding (encode bytes)).all (fun c => c.toNat < 128) = true := by
    have halphabet : ∀ c ∈ alphabet, c.toNat < 128 := by
      rw [← List.all_iff_forall_prop]
      decide
    rw [List.all_eq_true]
    intro c hc
    rw [decide_eq_true_eq]
    cases List.mem_append.mp hc with
    | inl hc => exact halphabet c (mem_encode hc)
    | inr hc =>
      rw [List.eq_of_mem_replicate hc]
      decide
  rw [decode, if_pos hascii, decodeFrom_encode bytes h]

theorem encode_injective {bytes bytes' : List Nat} (h : ∀ b ∈ bytes, b < 256)
    (h' : ∀ b ∈ bytes', b < 256) (heq : encode bytes = encode bytes') : bytes = bytes' := by
  have hdecode := decodeStrict_encode bytes h
  rw [heq, decodeStrict_encode bytes' h'] at hdecode
  exact (Option.some.inj hdecode).symm

/-- A byte takes one or two characters. -/
theorem length_encode (bytes : List Nat) :
    bytes.length ≤ (encode bytes).length ∧ (encode bytes).length ≤ 2 * bytes.length := by
  induction bytes using encode.induct with
  | case1 => simp [encode]
  | case2 a => simp [encode]
  | case3 a b => simp [encode]
  | case4 a b c rest ih =>
    simp only [encode, List.length_cons]
    omega

section Canonical

/-- The six bits of a character of the alphabet. -/
def bits (c : Char) : Nat :=
  (value? c).getD 0

/-- Text of the alphabet whose last group is no single character, and has no bits that
belong to no byte. -/
def canonical : List Char → Bool
  | [] => true
  | [_] => false
  | [a, b] => a ∈ alphabet && b ∈ alphabet && bits b % 16 = 0
  | [a, b, c] => a ∈ alphabet && b ∈ alphabet && c ∈ alphabet && bits c % 4 = 0
  | a :: b :: c :: d :: rest =>
    a ∈ alphabet && b ∈ alphabet && c ∈ alphabet && d ∈ alphabet && canonical rest

theorem bits_char {n : Nat} (h : n < 64) : bits (char n) = n := by
  rw [bits, (value_char h).1]
  rfl

theorem exists_char {c : Char} (h : c ∈ alphabet) : ∃ n < 64, char n = c := by
  obtain ⟨n, hn, hc⟩ := List.getElem_of_mem h
  refine ⟨n, hn, ?_⟩
  rw [char, List.getD_eq_getElem?_getD, List.getElem?_eq_getElem hn]
  exact hc

theorem bits_lt {c : Char} (h : c ∈ alphabet) : bits c < 64 := by
  obtain ⟨n, hn, rfl⟩ := exists_char h
  rw [bits_char hn]
  exact hn

theorem char_bits {c : Char} (h : c ∈ alphabet) : char (bits c) = c := by
  obtain ⟨n, hn, rfl⟩ := exists_char h
  rw [bits_char hn]

theorem canonical_encode {bytes : List Nat} (h : ∀ b ∈ bytes, b < 256) :
    canonical (encode bytes) = true := by
  induction bytes using encode.induct with
  | case1 => rfl
  | case2 a =>
    have ha : a < 256 := h a (by simp)
    have hbits := @bits_char (a % 4 * 16) (by omega)
    simp only [encode, canonical, char_mem, hbits, decide_true, Bool.true_and]
    rw [decide_eq_true_eq]
    omega
  | case3 a b =>
    have hbits := @bits_char (b % 16 * 4) (by omega)
    simp only [encode, canonical, char_mem, hbits, decide_true, Bool.true_and]
    rw [decide_eq_true_eq]
    omega
  | case4 a b c rest ih =>
    have hrest := ih fun x hx => h x (by simp [hx])
    simp only [encode, canonical, char_mem, hrest, decide_true, Bool.and_self]

/-- And what is so written encodes some bytes. -/
theorem encode_of_canonical {s : List Char} (h : canonical s = true) :
    ∃ bytes, (∀ b ∈ bytes, b < 256) ∧ encode bytes = s := by
  induction s using canonical.induct with
  | case1 => exact ⟨[], by simp, rfl⟩
  | case2 c => cases h
  | case3 a b =>
    simp only [canonical, Bool.and_eq_true, decide_eq_true_eq] at h
    obtain ⟨⟨ha, hb⟩, hzero⟩ := h
    have hlta := bits_lt ha
    have hltb := bits_lt hb
    have hfirst : (bits a * 4 + bits b / 16) / 4 = bits a := by omega
    have hsecond : (bits a * 4 + bits b / 16) % 4 * 16 = bits b := by omega
    refine ⟨[bits a * 4 + bits b / 16], fun x hx => ?_, ?_⟩
    · rw [List.mem_singleton] at hx
      omega
    · rw [encode, hfirst, hsecond, char_bits ha, char_bits hb]
  | case4 a b c =>
    simp only [canonical, Bool.and_eq_true, decide_eq_true_eq] at h
    obtain ⟨⟨⟨ha, hb⟩, hc⟩, hzero⟩ := h
    have hlta := bits_lt ha
    have hltb := bits_lt hb
    have hltc := bits_lt hc
    have hfirst : (bits a * 4 + bits b / 16) / 4 = bits a := by omega
    have hsecond : (bits a * 4 + bits b / 16) % 4 * 16 + (bits b % 16 * 16 + bits c / 4) / 16 =
        bits b := by omega
    have hthird : (bits b % 16 * 16 + bits c / 4) % 16 * 4 = bits c := by omega
    refine ⟨[bits a * 4 + bits b / 16, bits b % 16 * 16 + bits c / 4], fun x hx => ?_, ?_⟩
    · simp only [List.mem_cons, List.not_mem_nil, or_false] at hx
      omega
    · rw [encode, hfirst, hsecond, hthird, char_bits ha, char_bits hb, char_bits hc]
  | case5 a b c d rest ih =>
    simp only [canonical, Bool.and_eq_true, decide_eq_true_eq] at h
    obtain ⟨⟨⟨⟨ha, hb⟩, hc⟩, hd⟩, hrest⟩ := h
    obtain ⟨bytes, hbytes, hencode⟩ := ih hrest
    have hlta := bits_lt ha
    have hltb := bits_lt hb
    have hltc := bits_lt hc
    have hltd := bits_lt hd
    have hfirst : (bits a * 4 + bits b / 16) / 4 = bits a := by omega
    have hsecond : (bits a * 4 + bits b / 16) % 4 * 16 + (bits b % 16 * 16 + bits c / 4) / 16 =
        bits b := by omega
    have hthird : (bits b % 16 * 16 + bits c / 4) % 16 * 4 + (bits c % 4 * 64 + bits d) / 64 =
        bits c := by omega
    have hfourth : (bits c % 4 * 64 + bits d) % 64 = bits d := by omega
    refine ⟨(bits a * 4 + bits b / 16) :: (bits b % 16 * 16 + bits c / 4) ::
      (bits c % 4 * 64 + bits d) :: bytes, fun x hx => ?_, ?_⟩
    · simp only [List.mem_cons] at hx
      obtain rfl | rfl | rfl | hx := hx
      · omega
      · omega
      · omega
      · exact hbytes x hx
    · rw [encode, hfirst, hsecond, hthird, hfourth, char_bits ha, char_bits hb, char_bits hc,
        char_bits hd, hencode]

end Canonical

end foundation.base64
