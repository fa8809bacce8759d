import LaGraph.Plsql.Source

namespace lagraph.plsql

/-- `raw.decode("iso-8859-1")`: one character for each byte. -/
def iso_8859_1 (raw : List UInt8) : String :=
  String.ofList (raw.map fun byte => Char.ofNat byte.toNat)

/-- The lines of a text whose terminators are line feed, carriage return, and both together. -/
def newline_lines (line : List Char) : List Char → List String
  | [] => if line = [] then [] else [String.ofList line.reverse]
  | '\r' :: '\n' :: s => String.ofList line.reverse :: newline_lines [] s
  | c :: s =>
    if c = '\r' ∨ c = '\n' then String.ofList line.reverse :: newline_lines [] s
    else newline_lines (c :: line) s

/-- A character that ends a line of `str.splitlines` and is no newline. -/
def OtherBoundary (c : Char) : Prop :=
  c ∈ LINE_BOUNDARIES ∧ c ≠ '\n'

/-- The bytes of these characters. -/
def OTHER_BOUNDARY_BYTES : List UInt8 :=
  [0x0b, 0x0c, 0x1c, 0x1d, 0x1e, 0x85]

variable {line s : List Char} {l : String} {c : Char}

theorem OtherBoundary.ne_return (h : OtherBoundary c) : c ≠ '\r' := by
  rintro rfl
  have hreturn : '\r' ∉ LINE_BOUNDARIES := by decide
  exact hreturn h.1

/-- Without other boundaries both notions of a line agree. -/
theorem splitlines_eq_newline_lines (h : ∀ c ∈ s, ¬OtherBoundary c) :
    splitlines line s = newline_lines line s := by
  fun_induction newline_lines line s with
  | case1 => simp [splitlines]
  | case2 line hline => simp [splitlines, hline]
  | case3 line s ih =>
    rw [splitlines, ih fun c hc => h c (List.mem_cons_of_mem _ (List.mem_cons_of_mem _ hc))]
  | case4 line c s hpair hnewline ih =>
    have hboundary : c = '\r' ∨ c ∈ LINE_BOUNDARIES := by
      apply hnewline.imp_right
      rintro rfl
      decide
    rw [splitlines, if_pos hboundary, ih fun c hc => h c (List.mem_cons_of_mem _ hc)]
    exact hpair
  | case5 line c s hpair hnewline ih =>
    have hinside : ¬(c = '\r' ∨ c ∈ LINE_BOUNDARIES) := by
      rw [not_or] at hnewline ⊢
      exact ⟨hnewline.1, fun hmem => h c List.mem_cons_self ⟨hmem, hnewline.2⟩⟩
    rw [splitlines, if_neg hinside, ih fun c hc => h c (List.mem_cons_of_mem _ hc)]
    exact hpair

/-- No line of `str.splitlines` holds a boundary. -/
theorem not_boundary_of_mem_splitlines (hline : ∀ c ∈ line, ¬OtherBoundary c)
    (hl : l ∈ splitlines line s) : ∀ c ∈ l.toList, ¬OtherBoundary c := by
  have hended (line : List Char) (hline : ∀ c ∈ line, ¬OtherBoundary c) :
      ∀ c ∈ (String.ofList line.reverse).toList, ¬OtherBoundary c := by
    intro c hc
    rw [String.toList_ofList, List.mem_reverse] at hc
    exact hline c hc
  fun_induction splitlines line s with
  | case1 => cases hl
  | case2 line => exact List.mem_singleton.mp hl ▸ hended line hline
  | case3 line s ih =>
    cases List.mem_cons.mp hl with
    | inl hfirst => exact hfirst ▸ hended line hline
    | inr hrest => exact ih (fun c hc => absurd hc List.not_mem_nil) hrest
  | case4 line c s hpair hboundary ih =>
    cases List.mem_cons.mp hl with
    | inl hfirst => exact hfirst ▸ hended line hline
    | inr hrest => exact ih (fun c hc => absurd hc List.not_mem_nil) hrest
  | case5 line c s hpair hinside ih =>
    refine ih ?_ hl
    intro d hd
    cases List.mem_cons.mp hd with
    | inl hsame => exact hsame ▸ fun hother => hinside (Or.inr hother.1)
    | inr hd => exact hline d hd

/-- Every other character of a text stands in one of its lines. -/
theorem exists_newline_line (hc : c ∈ line ∨ c ∈ s) (hother : OtherBoundary c) :
    ∃ l ∈ newline_lines line s, c ∈ l.toList := by
  have hended (line : List Char) (hc : c ∈ line) : c ∈ (String.ofList line.reverse).toList := by
    rwa [String.toList_ofList, List.mem_reverse]
  fun_induction newline_lines line s with
  | case1 => simp at hc
  | case2 line hline =>
    have hc : c ∈ line := by simpa using hc
    exact ⟨_, List.mem_singleton_self _, hended line hc⟩
  | case3 line s ih =>
    rcases hc with hc | hc
    · exact ⟨_, List.mem_cons_self, hended line hc⟩
    · have hc : c ∈ s := by simpa [hother.ne_return, hother.2] using hc
      obtain ⟨l, hl, hcl⟩ := ih (Or.inr hc)
      exact ⟨l, List.mem_cons_of_mem _ hl, hcl⟩
  | case4 line d s hpair hnewline ih =>
    rcases hc with hc | hc
    · exact ⟨_, List.mem_cons_self, hended line hc⟩
    · have hne : c ≠ d := by
        rintro rfl
        exact hnewline.elim hother.ne_return hother.2
      obtain ⟨l, hl, hcl⟩ := ih (Or.inr ((List.mem_cons.mp hc).resolve_left hne))
      exact ⟨l, List.mem_cons_of_mem _ hl, hcl⟩
  | case5 line d s hpair hnewline ih =>
    apply ih
    rw [List.mem_cons] at hc ⊢
    tauto

/-- The bytes of a file whose decoding holds no other boundary. -/
theorem iso_8859_1_boundaries (raw : List UInt8) :
    (∀ c ∈ (iso_8859_1 raw).toList, ¬OtherBoundary c) ↔ ∀ b ∈ raw, b ∉ OTHER_BOUNDARY_BYTES := by
  have hbytes : ∀ n < 256, (Char.ofNat n ∈ LINE_BOUNDARIES ∧ Char.ofNat n ≠ '\n') ↔
      n ∈ OTHER_BOUNDARY_BYTES.map UInt8.toNat := by decide +kernel
  have hbyte (b : UInt8) : OtherBoundary (Char.ofNat b.toNat) ↔ b ∈ OTHER_BOUNDARY_BYTES := by
    rw [OtherBoundary, hbytes b.toNat b.toNat_lt,
      List.mem_map_of_injective fun _ _ hab => UInt8.toNat.inj hab]
  simp [iso_8859_1, hbyte]

/-- The lines as `str.splitlines` has them are those between newlines, each under its number,
exactly when no other boundary occurs. -/
theorem splitlines_numbered_iff : (∀ (n : Nat) l, (newline_lines [] s)[n]? = some l →
    (splitlines [] s)[n]? = some l) ↔ ∀ c ∈ s, ¬OtherBoundary c := by
  constructor
  · intro h c hc hother
    obtain ⟨l, hl, hcl⟩ := exists_newline_line (Or.inr hc : c ∈ [] ∨ c ∈ s) hother
    obtain ⟨n, hn⟩ := List.mem_iff_getElem?.mp hl
    have hserved := List.mem_of_getElem? (h n l hn)
    exact not_boundary_of_mem_splitlines (fun c hc => absurd hc List.not_mem_nil) hserved c hcl
      hother
  · intro h n l hl
    rw [splitlines_eq_newline_lines h]
    exact hl

end lagraph.plsql
