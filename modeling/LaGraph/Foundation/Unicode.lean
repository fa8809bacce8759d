import Mathlib.Data.String.Basic

namespace foundation.unicode

/-- The general categories of other characters, and all further ones. -/
inductive Category
  | Cc | Cf | Cs | Co | Cn | visible
  deriving DecidableEq, Repr

/-- `category.startswith("C")`. -/
def Category.is_other (category : Category) : Bool :=
  category ≠ .visible

/-- The characters that Python's `str.strip` takes off. -/
def python_space (c : Char) : Bool :=
  c.toNat ∈ [0x9, 0xa, 0xb, 0xc, 0xd, 0x1c, 0x1d, 0x1e, 0x1f, 0x20, 0x85, 0xa0, 0x1680, 0x2000, 0x2001,
    0x2002, 0x2003, 0x2004, 0x2005, 0x2006, 0x2007, 0x2008, 0x2009, 0x200a, 0x2028, 0x2029,
    0x202f, 0x205f, 0x3000]

/-- The characters that `String.prototype.trim` takes off. -/
def javascript_space (c : Char) : Bool :=
  c.toNat ∈ [0x9, 0xa, 0xb, 0xc, 0xd, 0x20, 0xa0, 0x1680, 0x2000, 0x2001, 0x2002, 0x2003, 0x2004,
    0x2005, 0x2006, 0x2007, 0x2008, 0x2009, 0x200a, 0x2028, 0x2029, 0x202f, 0x205f, 0x3000,
    0xfeff]

/-- What the Unicode database says of characters and texts. -/
structure Database where
  category : Char → Category
  nfc : String → String
  /-- The separators of information and the next line are controls. -/
  controls : ∀ c : Char, c.toNat ∈ [0x1c, 0x1d, 0x1e, 0x1f, 0x85] → category c = .Cc
  /-- The zero width no-break space is a format character. -/
  no_break : ∀ c : Char, c.toNat = 0xfeff → category c = .Cf

/-- Where the two whitespaces differ, there is a control or a format character. -/
theorem Database.space_eq (unicode : Database) {c : Char} (hcontrol : unicode.category c ≠ .Cc)
    (hformat : unicode.category c ≠ .Cf) : javascript_space c = python_space c := by
  have hcontrols : c.toNat ∉ [0x1c, 0x1d, 0x1e, 0x1f, 0x85] :=
    fun hc => hcontrol (unicode.controls c hc)
  have hbreak : c.toNat ≠ 0xfeff := fun hc => hformat (unicode.no_break c hc)
  simp only [List.mem_cons, List.not_mem_nil, or_false, not_or] at hcontrols
  obtain ⟨h1, h2, h3, h4, h5⟩ := hcontrols
  simp [javascript_space, python_space, h1, h2, h3, h4, h5, hbreak]

/-- Lower case only moves the ASCII capital letters. -/
theorem toLower_cases (c : Char) :
    c.toLower = c ∨ 65 ≤ c.toNat ∧ c.toNat ≤ 90 ∧ c.toLower.toNat = c.toNat + 32 := by
  by_cases hcapital : c.val ≥ 'A'.val ∧ c.val ≤ 'Z'.val
  · right
    have hlower : 65 ≤ c.toNat := UInt32.le_iff_toNat_le.mp hcapital.1
    have hupper : c.toNat ≤ 90 := UInt32.le_iff_toNat_le.mp hcapital.2
    refine ⟨hlower, hupper, ?_⟩
    have hval : c.toLower.val = c.val + 32 := by
      delta Char.toLower
      rw [dif_pos hcapital]
      rfl
    change c.toLower.val.toNat = c.val.toNat + 32
    rw [hval, UInt32.toNat_add]
    change (c.toNat + 32) % 2 ^ 32 = c.toNat + 32
    omega
  · left
    delta Char.toLower
    rw [dif_neg hcapital]

theorem ascii_of_toLower {c : Char} (h : c.toLower.toNat < 128) : c.toNat < 128 := by
  rcases toLower_cases c with hsame | ⟨-, hupper, -⟩
  · rwa [hsame] at h
  · omega

theorem toLower_eq_dot {c : Char} (h : c.toLower = '.') : c = '.' := by
  rcases toLower_cases c with hsame | ⟨hlower, -, hmoved⟩
  · rwa [hsame] at h
  · rw [h] at hmoved
    change 46 = c.toNat + 32 at hmoved
    omega

end foundation.unicode
