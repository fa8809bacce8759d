import LaGraph.Foundation.Json.Accepted
import Mathlib.Data.Bool.AllAny

namespace foundation.json

section Raws

/-- What stands raw between quotes, with the quotes themselves; what is escaped is passed over. -/
def raws : Bool → List Char → List Char
  | inside, '\\' :: _ :: s => raws inside s
  | inside, '"' :: s => '"' :: raws (!inside) s
  | inside, c :: s => if inside then c :: raws inside s else raws inside s
  | _, [] => []

/-- The quotes of a text that are not escaped. -/
def quotes : List Char → Nat
  | '\\' :: _ :: s => quotes s
  | '"' :: s => quotes s + 1
  | _ :: s => quotes s
  | [] => 0

variable {inside : Bool} {c : Char} {s t : List Char}

theorem raws_char (hquote : c ≠ '"') (hback : c ≠ '\\') :
    raws inside (c :: s) = if inside then c :: raws inside s else raws inside s := by
  rw [raws.eq_def]
  split
  · rename_i heq
    exact absurd (List.cons.inj heq).1 hback
  · rename_i heq
    exact absurd (List.cons.inj heq).1 hquote
  · rename_i heq
    obtain ⟨rfl, rfl⟩ := List.cons.inj heq
    rfl
  · rename_i heq
    cases heq

theorem quotes_char (hquote : c ≠ '"') (hback : c ≠ '\\') : quotes (c :: s) = quotes s := by
  rw [quotes.eq_def]
  split
  · rename_i heq
    exact absurd (List.cons.inj heq).1 hback
  · rename_i heq
    exact absurd (List.cons.inj heq).1 hquote
  · rename_i heq
    rw [(List.cons.inj heq).2]
  · rename_i heq
    cases heq

theorem quotes_escape : quotes ('\\' :: c :: s) = quotes s := by
  rw [quotes]

theorem quotes_quote : quotes ('"' :: s) = quotes s + 1 := by
  rw [quotes]

theorem count_raws : (raws inside s).count '"' = quotes s := by
  fun_induction raws inside s with
  | case1 inside c s ih => rw [quotes_escape, ih]
  | case2 inside s ih => rw [List.count_cons_self, quotes_quote, ih]
  | case3 c s hpair hquote ih =>
    rw [List.count_cons_of_ne hquote, ih, quotes.eq_3 c s hpair hquote]
  | case4 inside c s hpair hquote hinside ih => rw [ih, quotes.eq_3 c s hpair hquote]
  | case5 => rfl

/-- A character that is no mark keeps its quotes wherever it stands. -/
theorem quotes_le_append (hquote : c ≠ '"') (hback : c ≠ '\\') :
    quotes (c :: s) ≤ quotes (t ++ c :: s) := by
  fun_induction quotes t with
  | case1 d t ih =>
    rw [List.cons_append, List.cons_append, quotes_escape]
    exact ih
  | case2 t ih =>
    rw [List.cons_append, quotes_quote]
    exact Nat.le_succ_of_le ih
  | case3 d t hpair hquote' ih =>
    rw [List.cons_append]
    by_cases hd : d = '\\'
    · cases t with
      | nil => rw [hd, List.nil_append, quotes_escape, quotes_char hquote hback]
      | cons e t => exact absurd rfl (hpair e t hd)
    · rw [quotes_char hquote' hd]
      exact ih
  | case4 => exact le_rfl

/-- Without a quote nothing stands between quotes. -/
theorem raws_eq_nil (h : quotes s = 0) : raws false s = [] := by
  fun_induction quotes s with
  | case1 c s ih => rw [raws, ih h]
  | case2 s ih => cases h
  | case3 c s hpair hquote ih =>
    rw [raws.eq_3 false c s hpair hquote, if_neg Bool.false_ne_true, ih h]
  | case4 => rfl

end Raws

section Contents

/-- A change of characters that keeps the ASCII ones and the blanks, and makes no new marks. -/
structure Neutral (norm : Char → Char) : Prop where
  ascii : ∀ c, 32 ≤ c.toNat → c.toNat ≤ 127 → norm c = c
  mark : ∀ c, norm c = '"' ∨ norm c = '\\' → norm c = c
  blank : ∀ c, Blank c → Blank (norm c)

/-- Between the quotes of a text stands `r`, however its characters are changed. -/
structure Contents (norm : Char → Char) (s r : List Char) (n : Nat) : Prop where
  reads : ∀ t, raws false (s.map norm ++ t) = r.map norm ++ raws false t
  count : r.count '"' = 2 * n
  raw : ∀ c ∈ r, 32 ≤ c.toNat
  wide : ∀ c ∈ s, 127 < c.toNat → c ∈ r

/-- A text with so many strings. -/
def Holds (norm : Char → Char) (n : Nat) (s : List Char) : Prop :=
  ∃ r, Contents norm s r n

mutual

/-- The strings of a value, its keys included. -/
def Value.strings : Value → Nat
  | .str _ => 1
  | .arr items => stringsItems items
  | .obj fields => stringsFields fields
  | _ => 0

def stringsItems : List Value → Nat
  | [] => 0
  | v :: vs => v.strings + stringsItems vs

def stringsFields : List (List Nat × Value) → Nat
  | [] => 0
  | (_, v) :: fields => 1 + (v.strings + stringsFields fields)

end

variable {norm : Char → Char} {s t : List Char} {n m : Nat} {c : Char}

theorem Holds.append (hs : Holds norm n s) (ht : Holds norm m t) : Holds norm (n + m) (s ++ t) := by
  obtain ⟨r, hr⟩ := hs
  obtain ⟨r', hr'⟩ := ht
  refine ⟨r ++ r', fun u => ?_, ?_, fun c hc => ?_, fun c hc hwide => ?_⟩
  · rw [List.map_append, List.append_assoc, hr.reads, hr'.reads, List.map_append, List.append_assoc]
  · rw [List.count_append, hr.count, hr'.count, Nat.mul_add]
  · rcases List.mem_append.mp hc with hc | hc
    · exact hr.raw c hc
    · exact hr'.raw c hc
  · rcases List.mem_append.mp hc with hc | hc
    · exact List.mem_append_left _ (hr.wide c hc hwide)
    · exact List.mem_append_right _ (hr'.wide c hc hwide)

/-- A character that no string starts with. -/
def Outside (c : Char) : Prop :=
  c ≠ '"' ∧ c ≠ '\\' ∧ c.toNat ≤ 127

instance : DecidablePred Outside :=
  fun c => inferInstanceAs (Decidable (c ≠ '"' ∧ c ≠ '\\' ∧ c.toNat ≤ 127))

/-- A character of a number or a name. -/
def Printed (c : Char) : Prop :=
  32 ≤ c.toNat ∧ Outside c

instance : DecidablePred Printed :=
  fun c => inferInstanceAs (Decidable (32 ≤ c.toNat ∧ Outside c))

theorem holds_outside (hnorm : Neutral norm) (hs : ∀ c ∈ s, Outside c) : Holds norm 0 s := by
  refine ⟨[], fun t => ?_, rfl, fun c hc => absurd hc List.not_mem_nil, fun c hc hwide => ?_⟩
  · induction s with
    | nil => rfl
    | cons c s ih =>
      obtain ⟨hquote, hback, -⟩ := hs c List.mem_cons_self
      have hnquote : norm c ≠ '"' := fun h => hquote ((hnorm.mark c (.inl h)).symm.trans h)
      have hnback : norm c ≠ '\\' := fun h => hback ((hnorm.mark c (.inr h)).symm.trans h)
      rw [List.map_cons, List.cons_append, raws_char hnquote hnback, if_neg Bool.false_ne_true]
      exact ih fun d hd => hs d (List.mem_cons_of_mem _ hd)
  · exact absurd (hs c hc).2.2 (Nat.not_le.mpr hwide)

theorem Neutral.quote (hnorm : Neutral norm) : norm '"' = '"' := hnorm.ascii _ (by decide) (by decide)

theorem Neutral.back (hnorm : Neutral norm) : norm '\\' = '\\' :=
  hnorm.ascii _ (by decide) (by decide)

theorem ascii_of_simpleEscape {k : Nat} (h : simpleEscape c = some k) :
    32 ≤ c.toNat ∧ c.toNat ≤ 127 := by
  unfold simpleEscape at h
  split_ifs at h with h1 h2 h3 h4 h5 h6 h7 h8
  · rw [h1]; decide
  · rw [h2]; decide
  · rw [h3]; decide
  · rw [h4]; decide
  · rw [h5]; decide
  · rw [h6]; decide
  · rw [h7]; decide
  · rw [h8]; decide

theorem ascii_of_hexValue {k : Nat} (h : hexValue c = some k) :
    (32 ≤ c.toNat ∧ c.toNat ≤ 127) ∧ c ≠ '"' ∧ c ≠ '\\' := by
  have hbounds : 48 ≤ c.toNat ∧ c.toNat ≤ 57 ∨ 97 ≤ c.toNat ∧ c.toNat ≤ 102 ∨
      65 ≤ c.toNat ∧ c.toNat ≤ 70 := by
    unfold hexValue at h
    split_ifs at h with hdigit hlower hupper
    · exact .inl (Char.isDigit_iff_toNat.mp hdigit)
    · exact .inr (.inl ⟨UInt32.le_iff_toNat_le.mp hlower.1, UInt32.le_iff_toNat_le.mp hlower.2⟩)
    · exact .inr (.inr ⟨UInt32.le_iff_toNat_le.mp hupper.1, UInt32.le_iff_toNat_le.mp hupper.2⟩)
  have hquote : '"'.toNat = 34 := rfl
  have hback : '\\'.toNat = 92 := rfl
  refine ⟨by omega, fun hc => ?_, fun hc => ?_⟩
  · rw [hc, hquote] at hbounds
    omega
  · rw [hc, hback] at hbounds
    omega

theorem ascii_of_hex4 {c₁ c₂ c₃ c₄ : Char} {k : Nat} (h : hex4 c₁ c₂ c₃ c₄ = some k) :
    ∀ c ∈ [c₁, c₂, c₃, c₄], (32 ≤ c.toNat ∧ c.toNat ≤ 127) ∧ c ≠ '"' ∧ c ≠ '\\' := by
  unfold hex4 at h
  simp only [Option.bind_eq_bind, Option.bind_eq_some_iff] at h
  obtain ⟨_, h₁, _, h₂, _, h₃, _, h₄, -⟩ := h
  simp only [List.mem_cons, List.not_mem_nil, or_false, forall_eq_or_imp, forall_eq]
  exact ⟨ascii_of_hexValue h₁, ascii_of_hexValue h₂, ascii_of_hexValue h₃, ascii_of_hexValue h₄⟩

/-- What is spelled between quotes stands there raw, but for the escapes of one character. -/
theorem raws_spelled (hnorm : Neutral norm) {ns : List Nat} (h : Spells ns s) :
    ∃ r : List Char, (∀ t, raws true (s.map norm ++ t) = r.map norm ++ raws true t) ∧
      '"' ∉ r ∧ (∀ c ∈ r, 32 ≤ c.toNat) ∧ ∀ c ∈ s, 127 < c.toNat → c ∈ r := by
  induction h with
  | nil => exact ⟨[], fun t => rfl, List.not_mem_nil, fun c hc => absurd hc List.not_mem_nil,
      fun c hc => absurd hc List.not_mem_nil⟩
  | @raw c ns s hquote hback hmin _ ih =>
    obtain ⟨r, hreads, hquotes, hraw, hwide⟩ := ih
    have hnquote : norm c ≠ '"' := fun h => hquote ((hnorm.mark c (.inl h)).symm.trans h)
    have hnback : norm c ≠ '\\' := fun h => hback ((hnorm.mark c (.inr h)).symm.trans h)
    refine ⟨c :: r, fun t => ?_, ?_, ?_, fun d hd hlarge => ?_⟩
    · rw [List.map_cons, List.cons_append, raws_char hnquote hnback, if_pos rfl, hreads,
        List.map_cons, List.cons_append]
    · rw [List.mem_cons, not_or]
      exact ⟨Ne.symm hquote, hquotes⟩
    · rw [List.forall_mem_cons]
      exact ⟨hmin, hraw⟩
    · rcases List.mem_cons.mp hd with hd | hd
      · exact List.mem_cons.mpr (.inl hd)
      · exact List.mem_cons_of_mem _ (hwide d hd hlarge)
  | @simple e n ns s he hn _ ih =>
    obtain ⟨r, hreads, hquotes, hraw, hwide⟩ := ih
    obtain ⟨hmin, hmax⟩ := ascii_of_simpleEscape hn
    refine ⟨r, fun t => ?_, hquotes, hraw, fun d hd hlarge => ?_⟩
    · rw [List.map_cons, List.map_cons, hnorm.back, List.cons_append, List.cons_append, raws, hreads]
    · have hslash : '\\'.toNat = 92 := rfl
      rcases List.mem_cons.mp hd with rfl | hd
      · omega
      · rcases List.mem_cons.mp hd with rfl | hd
        · omega
        · exact hwide d hd hlarge
  | @unit c₁ c₂ c₃ c₄ n ns s hn _ ih =>
    obtain ⟨r, hreads, hquotes, hraw, hwide⟩ := ih
    have hhex := ascii_of_hex4 hn
    refine ⟨[c₁, c₂, c₃, c₄] ++ r, fun t => ?_, fun hmem => ?_, fun c hc => ?_, fun d hd hlarge => ?_⟩
    · have hsame (c : Char) (hc : c ∈ [c₁, c₂, c₃, c₄]) (u : List Char) :
          raws true (norm c :: u) = norm c :: raws true u := by
        obtain ⟨⟨hmin, hmax⟩, hquote, hback⟩ := hhex c hc
        rw [hnorm.ascii c hmin hmax, raws_char hquote hback, if_pos rfl]
      simp only [List.map_cons, List.cons_append, List.nil_append, hnorm.back]
      rw [raws, hsame c₁ (by simp), hsame c₂ (by simp), hsame c₃ (by simp), hsame c₄ (by simp),
        hreads]
    · rcases List.mem_append.mp hmem with hmem | hmem
      · exact (hhex _ hmem).2.1 rfl
      · exact hquotes hmem
    · rcases List.mem_append.mp hc with hc | hc
      · exact (hhex c hc).1.1
      · exact hraw c hc
    · have hslash : '\\'.toNat = 92 := rfl
      have hu : 'u'.toNat = 117 := rfl
      rcases List.mem_cons.mp hd with rfl | hd
      · omega
      · rcases List.mem_cons.mp hd with rfl | hd
        · omega
        · have hd : d ∈ [c₁, c₂, c₃, c₄] ++ s := hd
          rcases List.mem_append.mp hd with hd | hd
          · exact absurd (hhex d hd).1.2 (Nat.not_le.mpr hlarge)
          · exact List.mem_append_right _ (hwide d hd hlarge)

theorem holds_string (hnorm : Neutral norm) {ns : List Nat} (h : Spells ns s) :
    Holds norm 1 ('"' :: (s ++ ['"'])) := by
  obtain ⟨r, hreads, hquotes, hraw, hwide⟩ := raws_spelled hnorm h
  have hquote : '"'.toNat = 34 := rfl
  refine ⟨'"' :: (r ++ ['"']), fun t => ?_, ?_, fun c hc => ?_, fun c hc hlarge => ?_⟩
  · simp only [List.map_cons, List.map_append, List.map_nil, hnorm.quote, List.cons_append,
      List.append_assoc, List.nil_append, raws, Bool.not_false, Bool.not_true, hreads]
  · rw [List.count_cons_self, List.count_append, List.count_eq_zero.mpr hquotes,
      List.count_singleton_self]
  · rw [List.mem_cons, List.mem_append, List.mem_singleton] at hc
    rcases hc with rfl | hc | rfl
    · omega
    · exact hraw c hc
    · omega
  · rw [List.mem_cons, List.mem_append, List.mem_singleton] at hc ⊢
    rcases hc with hc | hc | hc
    · exact .inl hc
    · exact .inr (.inl (hwide c hc hlarge))
    · exact .inl hc

theorem outside_blank {w : List Char} (hw : Blanks w) : ∀ c ∈ w, Outside c := by
  intro c hc
  obtain rfl | rfl | rfl | rfl := hw c hc <;> exact (by decide)

theorem printed_digits {ds : List Char} (h : Digits ds) : ∀ c ∈ ds, Printed c := by
  intro c hc
  have hbounds := Char.isDigit_iff_toNat.mp (h.2 c hc)
  have hzero : '0'.toNat = 48 := rfl
  have hnine : '9'.toNat = 57 := rfl
  have hquote : '"'.toNat = 34 := rfl
  have hback : '\\'.toNat = 92 := rfl
  refine ⟨by omega, fun heq => ?_, fun heq => ?_, by omega⟩
  · rw [heq] at hbounds
    omega
  · rw [heq] at hbounds
    omega

theorem outside_cons (hc : Outside c) (hs : ∀ d ∈ s, Outside d) : ∀ d ∈ c :: s, Outside d :=
  List.forall_mem_cons.mpr ⟨hc, hs⟩

theorem outside_append (hs : ∀ c ∈ s, Outside c) (ht : ∀ c ∈ t, Outside c) :
    ∀ c ∈ s ++ t, Outside c :=
  List.forall_mem_append.mpr ⟨hs, ht⟩

theorem outside_nil : ∀ c ∈ ([] : List Char), Outside c :=
  fun _ hc => absurd hc List.not_mem_nil

theorem printed_nil : ∀ c ∈ ([] : List Char), Printed c :=
  fun _ hc => absurd hc List.not_mem_nil

theorem printed_append (hs : ∀ c ∈ s, Printed c) (ht : ∀ c ∈ t, Printed c) :
    ∀ c ∈ s ++ t, Printed c :=
  List.forall_mem_append.mpr ⟨hs, ht⟩

theorem printed_cons (hc : Printed c) (hs : ∀ d ∈ s, Printed d) : ∀ d ∈ c :: s, Printed d :=
  List.forall_mem_cons.mpr ⟨hc, hs⟩

theorem printed_sign (h : Sign s) : ∀ c ∈ s, Printed c := by
  cases h with
  | plus => exact printed_nil
  | minus => exact printed_cons (by decide) printed_nil

theorem printed_fraction (h : Fraction s) : ∀ c ∈ s, Printed c := by
  cases h with
  | none => exact printed_nil
  | some hds => exact printed_cons (by decide) (printed_digits hds)

theorem printed_exponent (h : Exponent s) : ∀ c ∈ s, Printed c := by
  cases h with
  | none => exact printed_nil
  | @some e sign ds he hsign hds =>
    have he : Printed e := by
      obtain rfl | rfl := he <;> decide
    have hsign : ∀ c ∈ sign, Printed c := by
      obtain rfl | rfl | rfl := hsign
      · exact printed_nil
      · exact printed_cons (by decide) printed_nil
      · exact printed_cons (by decide) printed_nil
    exact printed_cons he (printed_append hsign (printed_digits hds))

theorem Holds.cons (hnorm : Neutral norm) (hc : Outside c) (hs : Holds norm n s) :
    Holds norm n (c :: s) := by
  have happend := (holds_outside hnorm (outside_cons hc outside_nil)).append hs
  rwa [Nat.zero_add] at happend

theorem Holds.blanks (hnorm : Neutral norm) {w : List Char} (hw : Blanks w) (hs : Holds norm n s) :
    Holds norm n (w ++ s) := by
  have happend := (holds_outside hnorm (outside_blank hw)).append hs
  rwa [Nat.zero_add] at happend

theorem Holds.string (hnorm : Neutral norm) {ns : List Nat} {k : List Char} (hk : Spells ns k)
    (hs : Holds norm n s) : Holds norm (1 + n) ('"' :: (k ++ '"' :: s)) := by
  have happend := (holds_string hnorm hk).append hs
  rwa [List.cons_append, List.append_assoc, List.singleton_append] at happend

theorem printed_constant {name : List Char} {v : Value} (h : (name, v) ∈ constants) :
    (∀ c ∈ name, Printed c) ∧ v.strings = 0 := by
  simp only [constants, List.mem_cons, List.not_mem_nil, or_false, Prod.mk.injEq] at h
  obtain ⟨rfl, rfl⟩ | ⟨rfl, rfl⟩ | ⟨rfl, rfl⟩ | ⟨rfl, rfl⟩ | ⟨rfl, rfl⟩ | ⟨rfl, rfl⟩ := h <;>
    exact ⟨List.all_iff_forall_prop.mp rfl, rfl⟩

mutual

/-- A text of a value holds its strings, and nothing else between quotes. -/
theorem holds_written (hnorm : Neutral norm) {v : Value} {s : List Char} (h : Written v s) :
    Holds norm v.strings s := by
  cases h with
  | constant h =>
    obtain ⟨hname, hstrings⟩ := printed_constant h
    rw [hstrings]
    exact holds_outside hnorm fun c hc => (hname c hc).2
  | int hsign hds =>
    have hprinted := printed_append (printed_sign hsign) (printed_digits hds.1)
    exact holds_outside hnorm fun c hc => (hprinted c hc).2
  | float hsign hds hfraction hexponent _ =>
    have hprinted := printed_append (printed_sign hsign) (printed_append (printed_digits hds.1)
      (printed_append (printed_fraction hfraction) (printed_exponent hexponent)))
    exact holds_outside hnorm fun c hc => (hprinted c hc).2
  | str h => exact holds_string hnorm h
  | no_items hw =>
    exact holds_outside hnorm (outside_cons (by decide) (outside_append
      (outside_blank hw) (outside_cons (by decide) outside_nil)))
  | arr hitems => exact (holds_items hnorm hitems).cons hnorm (by decide)
  | no_fields hw =>
    exact holds_outside hnorm (outside_cons (by decide) (outside_append
      (outside_blank hw) (outside_cons (by decide) outside_nil)))
  | obj hfields => exact (holds_fields hnorm hfields).cons hnorm (by decide)

theorem holds_items (hnorm : Neutral norm) {vs : List Value} {s : List Char}
    (h : WrittenItems vs s) : Holds norm (stringsItems vs) s := by
  cases h with
  | last hw hv hw' =>
    have hend : Holds norm 0 [']'] :=
      holds_outside hnorm (outside_cons (by decide) outside_nil)
    exact ((holds_written hnorm hv).append (hend.blanks hnorm hw')).blanks hnorm hw
  | next hw hv hw' ht =>
    have hrest := (holds_items hnorm ht).cons hnorm (c := ',') (by decide)
    exact ((holds_written hnorm hv).append (hrest.blanks hnorm hw')).blanks hnorm hw

theorem holds_fields (hnorm : Neutral norm) {fields : List (List Nat × Value)} {s : List Char}
    (h : WrittenFields fields s) : Holds norm (stringsFields fields) s := by
  cases h with
  | last hw₀ hkey hw₁ hw₂ hv hw₃ =>
    have hend : Holds norm 0 ['\x7d'] := holds_outside hnorm (outside_cons (by decide) outside_nil)
    have hvalue := (holds_written hnorm hv).append (hend.blanks hnorm hw₃)
    have hcolon := (hvalue.blanks hnorm hw₂).cons hnorm (c := ':') (by decide)
    exact ((hcolon.blanks hnorm hw₁).string hnorm hkey).blanks hnorm hw₀
  | next hw₀ hkey hw₁ hw₂ hv hw₃ ht =>
    have hrest := (holds_fields hnorm ht).cons hnorm (c := ',') (by decide)
    have hvalue := (holds_written hnorm hv).append (hrest.blanks hnorm hw₃)
    have hcolon := (hvalue.blanks hnorm hw₂).cons hnorm (c := ':') (by decide)
    exact ((hcolon.blanks hnorm hw₁).string hnorm hkey).blanks hnorm hw₀

end

theorem quotes_outside (hs : ∀ c ∈ s, Outside c) : json.quotes (s ++ t) = json.quotes t := by
  induction s with
  | nil => rfl
  | cons c s ih =>
    obtain ⟨hquote, hback, -⟩ := hs c List.mem_cons_self
    rw [List.cons_append, quotes_char hquote hback]
    exact ih fun d hd => hs d (List.mem_cons_of_mem _ hd)

/-- Whatever follows, the quotes of a text are two for each string. -/
theorem Holds.quotes (hnorm : Neutral norm) (hs : Holds norm n s) :
    quotes (s.map norm ++ t) = 2 * n + quotes t := by
  obtain ⟨r, hr⟩ := hs
  have hquotes : (r.map norm).count '"' = r.count '"' := by
    rw [List.count_eq_countP, List.count_eq_countP, List.countP_map]
    refine List.countP_congr fun c _ => ?_
    simp only [Function.comp_apply, beq_iff_eq]
    exact ⟨fun hc => (hnorm.mark c (.inl hc)).symm.trans hc, fun hc => hc ▸ hnorm.quote⟩
  rw [← @count_raws false, hr.reads, List.count_append, hquotes, hr.count, count_raws]

theorem neutral_id : Neutral id :=
  ⟨fun _ _ _ => rfl, fun _ _ => rfl, fun _ hc => hc⟩

/-- Where a text of a value starts the changed text of another one with as many strings, no wide
character has become a control. -/
theorem min_of_starts (hnorm : Neutral norm) {s' t' : List Char} (hs : Holds norm n s)
    (hs' : Holds id n s') (ht : json.quotes t = 0) (h : s.map norm ++ t = s' ++ t') :
    ∀ c ∈ s, 127 < c.toNat → 32 ≤ (norm c).toNat := by
  have hquotes := hs.quotes hnorm (t := t)
  have hquotes' := hs'.quotes neutral_id (t := t')
  rw [List.map_id, ← h, hquotes, ht] at hquotes'
  have ht' : json.quotes t' = 0 := by omega
  obtain ⟨r, hr⟩ := hs
  obtain ⟨r', hr'⟩ := hs'
  have hraws := hr.reads t
  have hraws' := hr'.reads t'
  rw [raws_eq_nil ht, List.append_nil] at hraws
  rw [raws_eq_nil ht', List.append_nil, List.map_id, List.map_id, ← h, hraws] at hraws'
  intro c hc hwide
  apply hr'.raw
  rw [← hraws']
  exact List.mem_map_of_mem (hr.wide c hc hwide)

end Contents

section Respacing

/-- A change of blanks alone, where the other characters are kept. -/
structure Respacing (kept : Char → Prop) (f : List Char → List Char) : Prop where
  nil : f [] = []
  cons : ∀ c s, 32 ≤ c.toNat → kept c → f (c :: s) = c :: f s
  ascii : ∀ c, 32 ≤ c.toNat → c.toNat ≤ 127 → kept c
  blanks : ∀ w, Blanks w → Blanks (f w)
  cut : ∀ w c s, Blanks w → 32 ≤ c.toNat → kept c → f (w ++ c :: s) = f w ++ f (c :: s)

/-- Characters that are written and kept. -/
def Kept (kept : Char → Prop) (s : List Char) : Prop :=
  ∀ c ∈ s, 32 ≤ c.toNat ∧ kept c

variable {kept : Char → Prop} {f : List Char → List Char} {s t w : List Char} {c : Char}

theorem Respacing.append (hf : Respacing kept f) (hs : Kept kept s) : f (s ++ t) = s ++ f t := by
  induction s with
  | nil => rfl
  | cons c s ih =>
    obtain ⟨hmin, hc⟩ := hs c List.mem_cons_self
    rw [List.cons_append, hf.cons c _ hmin hc, ih fun d hd => hs d (List.mem_cons_of_mem _ hd)]
    rfl

theorem Respacing.eq_self (hf : Respacing kept f) (hs : Kept kept s) : f s = s := by
  have happend := @Respacing.append kept f s [] hf hs
  rwa [hf.nil, List.append_nil] at happend

theorem Respacing.mark (hf : Respacing kept f) (hc : 32 ≤ c.toNat ∧ c.toNat ≤ 127) :
    f (c :: s) = c :: f s :=
  hf.cons c s hc.1 (hf.ascii c hc.1 hc.2)

theorem Respacing.blanks_mark (hf : Respacing kept f) (hw : Blanks w)
    (hc : 32 ≤ c.toNat ∧ c.toNat ≤ 127) : f (w ++ c :: s) = f w ++ c :: f s := by
  rw [hf.cut w c s hw hc.1 (hf.ascii c hc.1 hc.2), hf.mark hc]

theorem kept_printed (hf : Respacing kept f) (hs : ∀ c ∈ s, Printed c) : Kept kept s :=
  fun c hc => ⟨(hs c hc).1, hf.ascii c (hs c hc).1 (hs c hc).2.2.2⟩

theorem kept_spelled (hf : Respacing kept f) {ns : List Nat} (h : Spells ns s)
    (hwide : ∀ c ∈ s, 127 < c.toNat → kept c) : Kept kept s := by
  intro c hc
  have hmin : 32 ≤ c.toNat := by
    clear hwide
    induction h with
    | nil => cases hc
    | raw _ _ hmin _ ih =>
      rcases List.mem_cons.mp hc with rfl | hc
      · exact hmin
      · exact ih hc
    | simple _ hn _ ih =>
      rcases List.mem_cons.mp hc with rfl | hc
      · decide
      · rcases List.mem_cons.mp hc with rfl | hc
        · exact (ascii_of_simpleEscape hn).1
        · exact ih hc
    | @unit c₁ c₂ c₃ c₄ n ns s hn _ ih =>
      rcases List.mem_cons.mp hc with rfl | hc
      · decide
      · rcases List.mem_cons.mp hc with rfl | hc
        · decide
        · have hc : c ∈ [c₁, c₂, c₃, c₄] ++ s := hc
          rcases List.mem_append.mp hc with hc | hc
          · exact (ascii_of_hex4 hn c hc).1.1
          · exact ih hc
  by_cases hlarge : 127 < c.toNat
  · exact ⟨hmin, hwide c hc hlarge⟩
  · exact ⟨hmin, hf.ascii c hmin (Nat.not_lt.mp hlarge)⟩

/-- A value starts with a character that is no control. -/
theorem head_written {v : Value} (hs : Written v s) :
    ∃ c s', s = c :: s' ∧ 32 ≤ c.toNat ∧ c.toNat ≤ 127 := by
  have hhead (hprinted : ∀ c ∈ s, Printed c) : ∃ c s', s = c :: s' ∧ 32 ≤ c.toNat ∧ c.toNat ≤ 127 := by
    obtain ⟨c, s', rfl, -⟩ := opens_written hs
    have hc := hprinted c List.mem_cons_self
    exact ⟨c, s', rfl, hc.1, hc.2.2.2⟩
  cases hs with
  | constant h => exact hhead (printed_constant h).1
  | int hsign hds => exact hhead (printed_append (printed_sign hsign) (printed_digits hds.1))
  | float hsign hds hfraction hexponent _ =>
    exact hhead (printed_append (printed_sign hsign) (printed_append (printed_digits hds.1)
      (printed_append (printed_fraction hfraction) (printed_exponent hexponent))))
  | str h => exact ⟨'"', _, rfl, by decide, by decide⟩
  | no_items hw => exact ⟨'[', _, rfl, by decide, by decide⟩
  | arr hitems => exact ⟨'[', _, rfl, by decide, by decide⟩
  | no_fields hw => exact ⟨'\x7b', _, rfl, by decide, by decide⟩
  | obj hfields => exact ⟨'\x7b', _, rfl, by decide, by decide⟩

theorem Respacing.blanks_written (hf : Respacing kept f) (hw : Blanks w) {v : Value}
    (hs : Written v s) : f (w ++ (s ++ t)) = f w ++ f (s ++ t) := by
  obtain ⟨c, s', rfl, hmin, hmax⟩ := head_written hs
  exact hf.cut w c _ hw hmin (hf.ascii c hmin hmax)

theorem respaced_printed (hf : Respacing kept f) {v : Value} (h : Written v s)
    (hs : ∀ c ∈ s, Printed c) : Written v (f s) ∧ ∀ t, f (s ++ t) = f s ++ f t := by
  have hself := hf.eq_self (kept_printed hf hs)
  refine ⟨?_, fun t => ?_⟩
  · rwa [hself]
  · rw [hf.append (kept_printed hf hs), hself]

mutual

/-- A text of a value stays one when its blanks change. -/
theorem respaced_written (hf : Respacing kept f) {v : Value} {s : List Char} (h : Written v s)
    (hwide : ∀ c ∈ s, 127 < c.toNat → kept c) :
    Written v (f s) ∧ ∀ t, f (s ++ t) = f s ++ f t := by
  cases h with
  | constant h => exact respaced_printed hf (.constant h) (printed_constant h).1
  | int hsign hds =>
    exact respaced_printed hf (.int hsign hds)
      (printed_append (printed_sign hsign) (printed_digits hds.1))
  | float hsign hds hfraction hexponent hne =>
    exact respaced_printed hf (.float hsign hds hfraction hexponent hne)
      (printed_append (printed_sign hsign) (printed_append (printed_digits hds.1)
        (printed_append (printed_fraction hfraction) (printed_exponent hexponent))))
  | @str ns k h =>
    have hkept := kept_spelled hf h fun c hc =>
      hwide c (List.mem_cons_of_mem _ (List.mem_append_left _ hc))
    have hcut (t : List Char) : f ('"' :: (k ++ '"' :: t)) = '"' :: (k ++ '"' :: f t) := by
      rw [hf.mark (by decide), hf.append hkept, hf.mark (by decide)]
    rw [hcut, hf.nil]
    refine ⟨.str h, fun t => ?_⟩
    rw [List.cons_append, List.append_assoc, List.singleton_append, hcut]
    simp only [List.cons_append, List.append_assoc, List.nil_append]
  | @no_items w hw =>
    have hcut (t : List Char) : f ('[' :: (w ++ ']' :: t)) = '[' :: (f w ++ ']' :: f t) := by
      rw [hf.mark (by decide), hf.blanks_mark hw (by decide)]
    rw [hcut, hf.nil]
    refine ⟨.no_items (hf.blanks w hw), fun t => ?_⟩
    rw [List.cons_append, List.append_assoc, List.singleton_append, hcut]
    simp only [List.cons_append, List.append_assoc, List.nil_append]
  | arr hitems =>
    obtain ⟨hwritten, happend⟩ := respaced_items hf hitems fun c hc =>
      hwide c (List.mem_cons_of_mem _ hc)
    rw [hf.mark (by decide)]
    refine ⟨.arr hwritten, fun t => ?_⟩
    rw [List.cons_append, hf.mark (by decide), happend, List.cons_append]
  | @no_fields w hw =>
    have hcut (t : List Char) :
        f ('\x7b' :: (w ++ '\x7d' :: t)) = '\x7b' :: (f w ++ '\x7d' :: f t) := by
      rw [hf.mark (by decide), hf.blanks_mark hw (by decide)]
    rw [hcut, hf.nil]
    refine ⟨.no_fields (hf.blanks w hw), fun t => ?_⟩
    rw [List.cons_append, List.append_assoc, List.singleton_append, hcut]
    simp only [List.cons_append, List.append_assoc, List.nil_append]
  | obj hfields =>
    obtain ⟨hwritten, happend⟩ := respaced_fields hf hfields fun c hc =>
      hwide c (List.mem_cons_of_mem _ hc)
    rw [hf.mark (by decide)]
    refine ⟨.obj hwritten, fun t => ?_⟩
    rw [List.cons_append, hf.mark (by decide), happend, List.cons_append]

theorem respaced_items (hf : Respacing kept f) {vs : List Value} {s : List Char}
    (h : WrittenItems vs s) (hwide : ∀ c ∈ s, 127 < c.toNat → kept c) :
    WrittenItems vs (f s) ∧ ∀ t, f (s ++ t) = f s ++ f t := by
  cases h with
  | @last v w s w' hw hv hw' =>
    obtain ⟨hwritten, happend⟩ := respaced_written hf hv fun c hc => hwide c (by simp [hc])
    have hcut (t : List Char) :
        f (w ++ (s ++ (w' ++ ']' :: t))) = f w ++ (f s ++ (f w' ++ ']' :: f t)) := by
      rw [hf.blanks_written hw hv, happend, hf.blanks_mark hw' (by decide)]
    rw [hcut, hf.nil]
    refine ⟨.last (hf.blanks w hw) hwritten (hf.blanks w' hw'), fun t => ?_⟩
    simp only [List.append_assoc, List.singleton_append, hcut]
  | @next v v' vs w s w' u hw hv hw' ht =>
    obtain ⟨hwritten, happend⟩ := respaced_written hf hv fun c hc => hwide c (by simp [hc])
    obtain ⟨hrest, happend'⟩ := respaced_items hf ht fun c hc => hwide c (by simp [hc])
    have hcut (t : List Char) :
        f (w ++ (s ++ (w' ++ ',' :: t))) = f w ++ (f s ++ (f w' ++ ',' :: f t)) := by
      rw [hf.blanks_written hw hv, happend, hf.blanks_mark hw' (by decide)]
    rw [hcut]
    refine ⟨.next (hf.blanks w hw) hwritten (hf.blanks w' hw') hrest, fun t => ?_⟩
    simp only [List.append_assoc, List.cons_append, hcut, happend']

theorem respaced_fields (hf : Respacing kept f) {fields : List (List Nat × Value)} {s : List Char}
    (h : WrittenFields fields s) (hwide : ∀ c ∈ s, 127 < c.toNat → kept c) :
    WrittenFields fields (f s) ∧ ∀ t, f (s ++ t) = f s ++ f t := by
  cases h with
  | @last key v k w₀ w₁ w₂ w₃ s hw₀ hkey hw₁ hw₂ hv hw₃ =>
    have hkept := kept_spelled hf hkey fun c hc => hwide c (by simp [hc])
    obtain ⟨hwritten, happend⟩ := respaced_written hf hv fun c hc => hwide c (by simp [hc])
    have hcut (t : List Char) :
        f (w₀ ++ '"' :: (k ++ '"' :: (w₁ ++ ':' :: (w₂ ++ (s ++ (w₃ ++ '\x7d' :: t)))))) =
          f w₀ ++ '"' :: (k ++ '"' :: (f w₁ ++ ':' :: (f w₂ ++ (f s ++ (f w₃ ++ '\x7d' :: f t))))) := by
      rw [hf.blanks_mark hw₀ (by decide), hf.append hkept, hf.mark (by decide),
        hf.blanks_mark hw₁ (by decide), hf.blanks_written hw₂ hv, happend,
        hf.blanks_mark hw₃ (by decide)]
    rw [hcut, hf.nil]
    refine ⟨.last (hf.blanks _ hw₀) hkey (hf.blanks _ hw₁) (hf.blanks _ hw₂) hwritten
      (hf.blanks _ hw₃), fun t => ?_⟩
    simp only [List.append_assoc, List.cons_append, List.nil_append, hcut]
  | @next key v field fields k w₀ w₁ w₂ w₃ s u hw₀ hkey hw₁ hw₂ hv hw₃ ht =>
    have hkept := kept_spelled hf hkey fun c hc => hwide c (by simp [hc])
    obtain ⟨hwritten, happend⟩ := respaced_written hf hv fun c hc => hwide c (by simp [hc])
    obtain ⟨hrest, happend'⟩ := respaced_fields hf ht fun c hc => hwide c (by simp [hc])
    have hcut (t : List Char) :
        f (w₀ ++ '"' :: (k ++ '"' :: (w₁ ++ ':' :: (w₂ ++ (s ++ (w₃ ++ ',' :: t)))))) =
          f w₀ ++ '"' :: (k ++ '"' :: (f w₁ ++ ':' :: (f w₂ ++ (f s ++ (f w₃ ++ ',' :: f t))))) := by
      rw [hf.blanks_mark hw₀ (by decide), hf.append hkept, hf.mark (by decide),
        hf.blanks_mark hw₁ (by decide), hf.blanks_written hw₂ hv, happend,
        hf.blanks_mark hw₃ (by decide)]
    rw [hcut]
    refine ⟨.next (hf.blanks _ hw₀) hkey (hf.blanks _ hw₁) (hf.blanks _ hw₂) hwritten
      (hf.blanks _ hw₃) hrest, fun t => ?_⟩
    simp only [List.append_assoc, List.cons_append, hcut, happend']

end

end Respacing

end foundation.json
