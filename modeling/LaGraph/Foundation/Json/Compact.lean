import LaGraph.Foundation.Json.Written
import Mathlib.Algebra.Ring.Nat
import Mathlib.Data.List.Forall2
import Mathlib.Data.String.Basic

namespace foundation.json

section Texts

/-- The bytes of a character within a string. -/
def charSize (c : Char) : Nat :=
  if c = '"' ∨ c = '\\' ∨ c = '\n' ∨ c = '\r' ∨ c = '\t' ∨ c.toNat = 8 ∨ c.toNat = 12 then 2
  else if c.toNat < 32 then 6
  else c.utf8Size

/-- A character is escaped by a letter, by its code point, or not at all. -/
theorem escape_cases (c : Char) :
    (∃ e, e ≠ 'u' ∧ e.utf8Size = 1 ∧ simpleEscape e = some c.toNat ∧ escape c = ['\\', e] ∧
      charSize c = 2) ∨
    (c.toNat < 32 ∧ charSize c = 6 ∧ escape c =
      ['\\', 'u', '0', '0', hexDigit (c.toNat / 16), hexDigit (c.toNat % 16)]) ∨
    (c ≠ '"' ∧ c ≠ '\\' ∧ 32 ≤ c.toNat ∧ escape c = [c] ∧ charSize c = c.utf8Size) := by
  by_cases hshort : c = '"' ∨ c = '\\' ∨ c = '\n' ∨ c = '\r' ∨ c = '\t' ∨ c.toNat = 8 ∨ c.toNat = 12
  · left
    obtain rfl | rfl | rfl | rfl | rfl | hcode | hcode := hshort
    · exact ⟨'"', by decide, rfl, rfl, rfl, rfl⟩
    · exact ⟨'\\', by decide, rfl, rfl, rfl, rfl⟩
    · exact ⟨'n', by decide, rfl, rfl, rfl, rfl⟩
    · exact ⟨'r', by decide, rfl, rfl, rfl, rfl⟩
    · exact ⟨'t', by decide, rfl, rfl, rfl, rfl⟩
    · obtain rfl : c = '\x08' := Char.toNat_inj.mp hcode
      exact ⟨'b', by decide, rfl, rfl, rfl, rfl⟩
    · obtain rfl : c = '\x0c' := Char.toNat_inj.mp hcode
      exact ⟨'f', by decide, rfl, rfl, rfl, rfl⟩
  · right
    rw [charSize, if_neg hshort]
    simp only [not_or] at hshort
    obtain ⟨h1, h2, h3, h4, h5, h6, h7⟩ := hshort
    rw [escape, if_neg h1, if_neg h2, if_neg h3, if_neg h4, if_neg h5, if_neg h6, if_neg h7]
    by_cases h8 : c.toNat < 32
    · rw [if_pos h8, if_pos h8]
      exact .inl ⟨h8, rfl, rfl⟩
    · rw [if_neg h8, if_neg h8]
      exact .inr ⟨h1, h2, Nat.not_lt.mp h8, rfl, rfl⟩

theorem spells_escape (cs : List Char) : Spells (cs.map Char.toNat) (cs.flatMap escape) := by
  induction cs with
  | nil => exact .nil
  | cons c cs ih =>
    rw [List.map_cons, List.flatMap_cons]
    obtain ⟨e, he, -, hn, hescape, -⟩ | ⟨hlow, -, hescape⟩ | ⟨hquote, hback, hmin, hescape, -⟩ :=
      escape_cases c
    · rw [hescape]
      exact .simple he hn ih
    · rw [hescape]
      refine .unit ?_ ih
      have hzero : hexValue '0' = some 0 := rfl
      rw [hex4, hzero, hexValue_hexDigit (by omega), hexValue_hexDigit (by omega)]
      simp only [Option.bind_eq_bind, Option.bind_some, Option.some.injEq]
      omega
    · rw [hescape]
      exact .raw hquote hback hmin ih

theorem join_scalars {ns : List Nat} (h : ∀ n ∈ ns, IsScalar n) : join ns = ns := by
  fun_induction join ns with
  | case1 high low ns hpair ih =>
    have hhigh := h high List.mem_cons_self
    unfold IsScalar at hhigh
    simp only [surrogates, Bool.and_eq_true, decide_eq_true_eq] at hpair
    omega
  | case2 high low ns hpair ih => rw [ih fun n hn => h n (List.mem_cons_of_mem _ hn)]
  | case3 ns hshort => rfl

theorem join_codes (s : String) : join (codes s) = codes s :=
  join_scalars fun _ hn => isScalar_codes hn

theorem toList_str (s : String) : (str s).toList = '"' :: (s.toList.flatMap escape ++ ['"']) := by
  simp [str]

theorem written_str (s : String) : Written (.text s) (str s).toList := by
  have hwritten := Written.str (spells_escape s.toList)
  have hjoin : join (s.toList.map Char.toNat) = codes s := join_codes s
  rw [hjoin, ← toList_str] at hwritten
  exact hwritten

theorem written_optional (s : Option String) :
    Written (s.elim .null .text) (optional s).toList := by
  cases s with
  | none => exact .constant (by simp [constants, optional, null])
  | some s => exact written_str s

theorem digits_toDigits (n : Nat) : Integer (Nat.toDigits 10 n) := by
  refine ⟨⟨?_, fun c hc => isDigit_toDigits hc⟩, ?_⟩
  · cases hdigits : Nat.toDigits 10 n with
    | nil => simp at hdigits
    | cons c cs => exact List.cons_ne_nil c cs
  · by_cases hn : n = 0
    · rw [hn]
      exact .inl rfl
    · exact .inr (head_toDigits (Nat.pos_of_ne_zero hn))

theorem written_nat (n : Nat) : Written (.int n) (toString n).toList := by
  have htext : (toString n).toList = [] ++ Nat.toDigits 10 n := Nat.toList_repr
  have hvalue : signed [] (Nat.toDigits 10 n) = (n : Int) := by
    rw [signed, if_pos rfl, Nat.ofDigitChars_ten_toDigits]
  rw [htext, ← hvalue]
  exact .int .plus (digits_toDigits n)

theorem blanks_nil : Blanks [] :=
  fun _ hc => absurd hc List.not_mem_nil

theorem written_items {v : Value} {vs : List Value} {s : List Char} {ss : List (List Char)}
    (h : List.Forall₂ Written (v :: vs) (s :: ss)) :
    WrittenItems (v :: vs) ([','].intercalate (s :: ss) ++ [']']) := by
  induction vs generalizing v s ss with
  | nil =>
    obtain ⟨hv, hvs⟩ := List.forall₂_cons.mp h
    obtain rfl := List.forall₂_nil_left_iff.mp hvs
    rw [List.intercalate_singleton]
    exact .last blanks_nil hv blanks_nil
  | cons w vs ih =>
    obtain ⟨hv, hvs⟩ := List.forall₂_cons.mp h
    cases ss with
    | nil => cases hvs
    | cons t ss =>
      have hrest : [','].intercalate (s :: t :: ss) ++ [']'] =
          [] ++ (s ++ ([] ++ ',' :: ([','].intercalate (t :: ss) ++ [']']))) := by
        rw [List.intercalate_cons_cons]
        simp only [List.append_assoc, List.nil_append, List.cons_append]
      rw [hrest]
      exact .next blanks_nil hv blanks_nil (ih hvs)

/-- Values between commas, in brackets. -/
theorem written_array {vs : List Value} {ss : List String}
    (h : List.Forall₂ (fun v s => Written v s.toList) vs ss) :
    Written (.arr vs) (array ss).toList := by
  have htext : (array ss).toList = '[' :: ([','].intercalate (ss.map String.toList) ++ [']']) := by
    rw [array, String.toList_append, String.toList_append, String.toList_intercalate]
    rfl
  rw [htext]
  cases h with
  | nil => exact .no_items blanks_nil
  | @cons v s vs ss hv hvs =>
    rw [List.map_cons]
    refine .arr (written_items (.cons hv ?_))
    rw [List.forall₂_map_right_iff]
    exact hvs

/-- A key of an object, as it is written. -/
def WrittenField (field : String × Value) (text : String × String) : Prop :=
  field.1 = text.1 ∧ Written field.2 text.2.toList

theorem written_fields {field : String × Value} {fields : List (String × Value)}
    {text : String × String} {texts : List (String × String)}
    (h : List.Forall₂ WrittenField (field :: fields) (text :: texts)) :
    WrittenFields ((field :: fields).map fun field => (codes field.1, field.2))
      ([','].intercalate (((text :: texts).map fun text => str text.1 ++ ":" ++ text.2).map
        String.toList) ++ ['\x7d']) := by
  have hkey (s : String) : Spells (codes s) (s.toList.flatMap escape) := spells_escape s.toList
  have htext (key value : String) : (str key ++ ":" ++ value).toList =
      '"' :: (key.toList.flatMap escape ++ '"' :: ':' :: value.toList) := by
    rw [String.toList_append, String.toList_append, toList_str]
    have hcolon : ":".toList = [':'] := rfl
    simp only [hcolon, List.cons_append, List.append_assoc, List.nil_append]
  induction fields generalizing field text texts with
  | nil =>
    obtain ⟨⟨hname, hv⟩, hrest⟩ := List.forall₂_cons.mp h
    obtain rfl := List.forall₂_nil_left_iff.mp hrest
    have hlast := WrittenFields.last blanks_nil (hkey text.1) blanks_nil blanks_nil hv blanks_nil
    rw [join_codes] at hlast
    rw [List.map_singleton, List.map_singleton, List.map_singleton, List.intercalate_singleton, htext,
      hname]
    simpa using hlast
  | cons field' fields ih =>
    obtain ⟨⟨hname, hv⟩, hrest⟩ := List.forall₂_cons.mp h
    cases texts with
    | nil => cases hrest
    | cons text' texts =>
      have hnext := WrittenFields.next blanks_nil (hkey text.1) blanks_nil blanks_nil hv blanks_nil
        (ih hrest)
      rw [join_codes] at hnext
      rw [List.map_cons, hname]
      simp only [List.map_cons, List.intercalate_cons_cons, htext] at hnext ⊢
      simpa using hnext

/-- Keys and values between commas, in braces. -/
theorem written_object {fields : List (String × Value)} {texts : List (String × String)}
    (h : List.Forall₂ WrittenField fields texts) :
    Written (.obj (fields.map fun field => (codes field.1, field.2))) (object texts).toList := by
  have htext : (object texts).toList = '\x7b' :: ([','].intercalate
      ((texts.map fun text => str text.1 ++ ":" ++ text.2).map String.toList) ++ ['\x7d']) := by
    rw [object, String.toList_append, String.toList_append, String.toList_intercalate]
    rfl
  rw [htext]
  cases h with
  | nil => exact .no_fields blanks_nil
  | @cons field text fields texts hfield hrest => exact .obj (written_fields (.cons hfield hrest))

end Texts

section Sizes

def textSize (s : String) : Nat :=
  (s.toList.map charSize).sum + 2

/-- The bytes of values between commas, in brackets. -/
def listSize (sizes : List Nat) : Nat :=
  if sizes = [] then 2 else sizes.sum + sizes.length + 1

def fieldsSize (fields : List (String × Nat)) : Nat :=
  listSize (fields.map fun field => textSize field.1 + 1 + field.2)

theorem utf8Size_hexDigit {n : Nat} (h : n < 16) : (hexDigit n).utf8Size = 1 := by
  have hall : ∀ n < 16, (hexDigit n).utf8Size = 1 := by decide
  exact hall n h

theorem utf8Len_escape (c : Char) : String.utf8Len (escape c) = charSize c := by
  obtain ⟨e, -, he, -, hescape, hsize⟩ | ⟨hlow, hsize, hescape⟩ | ⟨-, -, -, hescape, hsize⟩ :=
    escape_cases c
  · rw [hescape, hsize]
    simp only [String.utf8Len_cons, String.utf8Len_nil, he]
    rfl
  · rw [hescape, hsize]
    simp only [String.utf8Len_cons, String.utf8Len_nil]
    rw [utf8Size_hexDigit (by omega), utf8Size_hexDigit (by omega)]
    rfl
  · rw [hescape, hsize]
    simp only [String.utf8Len_cons, String.utf8Len_nil, Nat.zero_add]

theorem utf8ByteSize_str (s : String) : (str s).utf8ByteSize = textSize s := by
  have hlength (cs : List Char) :
      String.utf8Len (cs.flatMap escape) = (cs.map charSize).sum := by
    induction cs with
    | nil => rfl
    | cons c cs ih =>
      rw [List.flatMap_cons, String.utf8Len_append, utf8Len_escape, ih, List.map_cons, List.sum_cons]
  have hquote : "\"".utf8ByteSize = 1 := rfl
  rw [str, String.utf8ByteSize_append, String.utf8ByteSize_append,
    String.utf8ByteSize_ofList (s.toList.flatMap escape), hlength, hquote, textSize]
  omega

theorem utf8ByteSize_intercalate {s : String} {ss : List String} :
    (",".intercalate (s :: ss)).utf8ByteSize =
      ((s :: ss).map String.utf8ByteSize).sum + ss.length := by
  induction ss generalizing s with
  | nil => simp
  | cons t ss ih =>
    have hcomma : ",".utf8ByteSize = 1 := rfl
    rw [String.intercalate_cons_cons, String.utf8ByteSize_append, String.utf8ByteSize_append, ih,
      hcomma, List.map_cons, List.map_cons, List.sum_cons, List.sum_cons, List.length_cons]
    simp only [List.map_cons, List.sum_cons]
    omega

/-- The bytes between the brackets. -/
theorem utf8ByteSize_bracketed {first last : String} (hfirst : first.utf8ByteSize = 1)
    (hlast : last.utf8ByteSize = 1) (ss : List String) :
    (first ++ ",".intercalate ss ++ last).utf8ByteSize =
      listSize (ss.map String.utf8ByteSize) := by
  rw [String.utf8ByteSize_append, String.utf8ByteSize_append, hfirst, hlast]
  cases ss with
  | nil => rfl
  | cons s ss =>
    rw [utf8ByteSize_intercalate, listSize, if_neg (by simp), List.length_map, List.length_cons]
    omega

theorem utf8ByteSize_array (ss : List String) :
    (array ss).utf8ByteSize = listSize (ss.map String.utf8ByteSize) :=
  utf8ByteSize_bracketed rfl rfl ss

theorem utf8ByteSize_object (fields : List (String × String)) :
    (object fields).utf8ByteSize =
      fieldsSize (fields.map fun field => (field.1, field.2.utf8ByteSize)) := by
  have hcolon : ":".utf8ByteSize = 1 := rfl
  have hsizes : (fields.map fun field => str field.1 ++ ":" ++ field.2).map String.utf8ByteSize =
      fields.map fun field => textSize field.1 + 1 + field.2.utf8ByteSize := by
    rw [List.map_map]
    refine List.map_congr_left fun field _ => ?_
    simp only [Function.comp_apply, String.utf8ByteSize_append, utf8ByteSize_str, hcolon]
  rw [object, utf8ByteSize_bracketed rfl rfl, hsizes, fieldsSize, List.map_map]
  rfl

theorem sum_le_listSize (sizes : List Nat) : sizes.sum ≤ listSize sizes := by
  unfold listSize
  split_ifs with hnil
  · rw [hnil]
    exact Nat.zero_le 2
  · omega

theorem le_sum {sizes : List Nat} {n : Nat} (h : n ∈ sizes) : n ≤ sizes.sum := by
  induction sizes with
  | nil => cases h
  | cons m sizes ih =>
    rw [List.sum_cons]
    rcases List.mem_cons.mp h with rfl | h
    · omega
    · have hle := ih h
      omega

theorem le_fieldsSize {fields : List (String × Nat)} {field : String × Nat} (h : field ∈ fields) :
    textSize field.1 + 1 + field.2 ≤ fieldsSize fields := by
  have hmem : textSize field.1 + 1 + field.2 ∈
      fields.map fun field => textSize field.1 + 1 + field.2 :=
    List.mem_map.mpr ⟨field, h, rfl⟩
  exact (le_sum hmem).trans (sum_le_listSize _)

end Sizes

end foundation.json
