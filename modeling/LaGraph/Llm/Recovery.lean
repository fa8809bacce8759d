import LaGraph.Llm.Lines

open foundation foundation.unicode
open foundation.json (Written Blanks Holds)
open lagraph.plsql (splitlines LINE_BOUNDARIES)

namespace lagraph.llm

variable {fields : List (List Nat × json.Value)} {k s t a b : List Char} {c : Char}

section Strips

theorem lstrip_append (hc : python_space c = false) : lstrip (a ++ c :: s) = lstrip a ++ c :: s := by
  have hstart : (c :: s).dropWhile python_space = c :: s := by
    rw [List.dropWhile_cons, hc, if_neg Bool.false_ne_true]
  unfold lstrip
  rw [List.dropWhile_append]
  split_ifs with hempty
  · rw [List.isEmpty_iff.mp hempty, hstart, List.nil_append]
  · rfl

theorem lstrip_eq_nil (h : ∀ c ∈ a, python_space c = true) : lstrip a = [] := by
  have happend := @List.dropWhile_append_of_pos _ python_space a [] h
  rwa [List.append_nil] at happend

/-- What starts and ends with other characters is kept. -/
theorem strip_append {c d : Char} {m : List Char} (hc : python_space c = false)
    (hd : python_space d = false) : strip (a ++ (c :: (m ++ [d]) ++ b)) =
      lstrip a ++ (c :: (m ++ [d]) ++ (lstrip b.reverse).reverse) := by
  have hreverse : (lstrip a ++ (c :: (m ++ [d]) ++ b)).reverse =
      b.reverse ++ d :: (lstrip a ++ c :: m).reverse := by
    simp
  rw [strip, List.cons_append, lstrip_append hc, ← List.cons_append, hreverse, lstrip_append hd]
  simp

theorem space_of_blank (hc : json.Blank c) : python_space c = true := by
  obtain rfl | rfl | rfl | rfl := hc <;> decide

theorem written_last {fields : List (List Nat × json.Value)} {s : List Char}
    (h : json.WrittenFields fields s) : ∃ m, s = m ++ ['\x7d'] := by
  cases h with
  | @last key v k w₀ w₁ w₂ w₃ s hw₀ hkey hw₁ hw₂ hv hw₃ =>
    refine ⟨w₀ ++ '"' :: (k ++ '"' :: (w₁ ++ ':' :: (w₂ ++ (s ++ w₃)))), ?_⟩
    simp only [List.append_assoc, List.cons_append]
  | @next key v field fields k w₀ w₁ w₂ w₃ s t hw₀ hkey hw₁ hw₂ hv hw₃ ht =>
    obtain ⟨m, rfl⟩ := written_last ht
    refine ⟨w₀ ++ '"' :: (k ++ '"' :: (w₁ ++ ':' :: (w₂ ++ (s ++ (w₃ ++ ',' :: m))))), ?_⟩
    simp only [List.append_assoc, List.cons_append]

/-- A text of an object stands in braces. -/
theorem braces_written (h : Written (.obj fields) k) :
    ∃ m, k = '\x7b' :: (m ++ ['\x7d']) := by
  cases h with
  | constant hname => simp [json.constants] at hname
  | no_fields _ => exact ⟨_, rfl⟩
  | obj h =>
    obtain ⟨m, rfl⟩ := written_last h
    exact ⟨m, rfl⟩

theorem strip_object (h : Written (.obj fields) k) :
    strip (a ++ (k ++ b)) = lstrip a ++ (k ++ (lstrip b.reverse).reverse) := by
  obtain ⟨m, rfl⟩ := braces_written h
  exact strip_append (by decide) (by decide)

end Strips

section Objects

/-- The text holds a text of the object. -/
def Mentions (fields : List (List Nat × json.Value)) (t : List Char) : Prop :=
  ∃ p k q, t = p ++ (k ++ q) ∧ Written (.obj fields) k ∧ (json.Value.obj fields).Readable

theorem Mentions.append (h : Mentions fields t) : Mentions fields (a ++ (t ++ b)) := by
  obtain ⟨p, k, q, rfl, hk⟩ := h
  exact ⟨a ++ p, k, q ++ b, by simp, hk⟩

theorem mentions_of_first_object (h : first_object t = .ok (some fields)) : Mentions fields t := by
  induction t with
  | nil => cases h
  | cons c t ih =>
    have hrest (h : first_object t = .ok (some fields)) : Mentions fields (c :: t) := by
      have hmentions := (ih h).append (a := [c]) (b := [])
      rwa [List.append_nil] at hmentions
    rw [first_object] at h
    split_ifs at h with hbrace
    · exact hrest h
    · split at h
      · rename_i found r hdecode
        cases h
        obtain ⟨⟨k, hk, hwritten⟩, hread⟩ := json.written_of_raw_decode hdecode
        exact ⟨[], k, r, hk, hwritten, hread⟩
      · cases h
      · exact hrest h

/-- An object that is found is written in the text. -/
theorem mentions_of_parse_object (h : parse_object t = .ok fields) : Mentions fields t := by
  unfold parse_object at h
  split at h
  · rename_i found hdecode
    cases h
    obtain ⟨⟨w, k, w', hw, hw', hwritten, rfl⟩, hread⟩ := json.written_of_decode hdecode
    exact ⟨w, k, w', rfl, hwritten, hread⟩
  · cases h
  · cases h
  · split at h
    · rename_i hfirst
      cases h
      exact mentions_of_first_object hfirst
    · cases h
    · cases h

theorem first_object_append (h : '\x7b' ∉ a) : first_object (a ++ t) = first_object t := by
  induction a with
  | nil => rfl
  | cons c a ih =>
    rw [List.mem_cons, not_or] at h
    rw [List.cons_append, first_object, if_pos (Ne.symm h.1), ih h.2]

theorem first_object_written (h : Written (.obj fields) k) (hread : (json.Value.obj fields).Readable) :
    first_object (k ++ t) = .ok (some fields) := by
  have hdecode := @json.raw_decode_object fields k t h hread
  obtain ⟨m, rfl⟩ := braces_written h
  rw [List.cons_append] at hdecode ⊢
  rw [first_object, if_neg (fun hne => hne rfl), hdecode]

/-- The object behind a text without braces is found, unless the whole is a value or the start of
one that cannot be converted. -/
theorem parse_object_prose (h : Written (.obj fields) k) (hread : (json.Value.obj fields).Readable)
    (ha : '\x7b' ∉ a) (hshort : json.decode (a ++ (k ++ b)) ≠ .error .value_error)
    (hother : ∀ v, json.decode (a ++ (k ++ b)) = .ok v → v = .obj fields) :
    parse_object (a ++ (k ++ b)) = .ok fields := by
  unfold parse_object
  cases hdecode : json.decode (a ++ (k ++ b)) with
  | ok v => rw [hother v hdecode]
  | error failure =>
    cases failure with
    | value_error => exact absurd hdecode hshort
    | decode_error => simp only [first_object_append ha, first_object_written h hread]

end Objects

section Unified

theorem boundary_cases (hc : Boundary c) : c.toNat < 32 ∨ 127 < c.toNat ∧ c ∈ SEPARATORS := by
  unfold Boundary LINE_BOUNDARIES at hc
  simp only [List.mem_cons, List.not_mem_nil, or_false] at hc
  rcases hc with rfl | rfl | rfl | rfl | rfl | rfl | rfl | rfl | rfl | rfl <;> decide

theorem boundary_separator (hc : c ∈ SEPARATORS) : Boundary c ∧ 127 < c.toNat := by
  unfold SEPARATORS at hc
  simp only [List.mem_cons, List.not_mem_nil, or_false] at hc
  rcases hc with rfl | rfl | rfl <;> decide

theorem neutral_line_feed : json.Neutral line_feed where
  ascii c hmin hmax := by
    apply line_feed_other
    intro hc
    rcases boundary_cases hc with hlow | hwide
    · omega
    · omega
  mark c h := by
    by_cases hc : Boundary c
    · rw [line_feed_boundary hc] at h
      rcases h with h | h
      · cases h
      · cases h
    · exact line_feed_other hc
  blank c hc := by
    obtain rfl | rfl | rfl | rfl := hc <;> decide

theorem respacing_collapse : json.Respacing (fun _ => True) collapse where
  nil := rfl
  cons c s hmin _ := collapse_cons (by rintro rfl; exact absurd hmin (by decide))
  ascii _ _ _ := trivial
  blanks w hw c hc := hw c (mem_of_mem_collapse hc)
  cut w c s _ hmin _ := collapse_cut (by rintro rfl; exact absurd hmin (by decide))

theorem respacing_line_feed : json.Respacing (fun c => line_feed c = c) (List.map line_feed) where
  nil := rfl
  cons c s _ hc := by rw [List.map_cons, hc]
  ascii c hmin hmax := neutral_line_feed.ascii c hmin hmax
  blanks w hw c hc := by
    obtain ⟨d, hd, rfl⟩ := List.mem_map.mp hc
    exact neutral_line_feed.blank d (hw d hd)
  cut _ _ _ _ _ _ := List.map_append

theorem written_collapse {v : json.Value} (h : Written v k) : Written v (collapse k) :=
  (json.respaced_written respacing_collapse h fun _ _ _ => trivial).1

theorem unify_written {v : json.Value} (h : Written v k) : unify (k ++ t) = unify k ++ unify t := by
  rw [unify, (json.respaced_written respacing_collapse h fun _ _ _ => trivial).2, List.map_append]
  rfl

/-- Without separators a text of a value stays one. -/
theorem written_unify {v : json.Value} (h : Written v k) (hseparators : ∀ c ∈ k, c ∉ SEPARATORS) :
    Written v (unify k) := by
  refine (json.respaced_written respacing_line_feed (written_collapse h) fun c hc hwide => ?_).1
  apply line_feed_other
  intro hboundary
  rcases boundary_cases hboundary with hlow | hseparator
  · omega
  · exact hseparators c (mem_of_mem_collapse hc) hseparator.2

theorem brace_line_feed : line_feed c = '\x7b' ↔ c = '\x7b' := by
  constructor
  · intro h
    by_cases hc : Boundary c
    · rw [line_feed_boundary hc] at h
      cases h
    · rwa [line_feed_other hc] at h
  · rintro rfl
    decide

theorem fields_head {s : List Char} (h : json.WrittenFields fields s) :
    ∃ w z, Blanks w ∧ s = w ++ '"' :: z := by
  cases h with
  | last hw₀ _ _ _ _ _ => exact ⟨_, _, hw₀, rfl⟩
  | next hw₀ _ _ _ _ _ _ => exact ⟨_, _, hw₀, rfl⟩

/-- After the first brace of an object's text no brace opens before a quote. -/
theorem quotes_lt_of_brace {p y : List Char} (h : Written (.obj fields) k) (ht : '\x7b' ∉ t)
    (hp : p ≠ []) (heq : k.map line_feed ++ t = p ++ '\x7b' :: y) :
    json.quotes ('\x7b' :: y) < json.quotes (k.map line_feed ++ t) := by
  have hblanks (w : List Char) (hw : Blanks w) : '\x7b' ∉ w.map line_feed := by
    intro hmem
    obtain ⟨c, hc, hbrace⟩ := List.mem_map.mp hmem
    rw [brace_line_feed] at hbrace
    rw [hbrace] at hc
    exact absurd (hw _ hc) (by decide)
  obtain ⟨d, p, rfl⟩ := List.exists_cons_of_ne_nil hp
  cases h with
  | constant hname => simp [json.constants] at hname
  | @no_fields w hw =>
    rw [List.map_cons, List.cons_append, List.cons_append, List.cons.injEq] at heq
    have hmem : '\x7b' ∈ (w ++ ['\x7d']).map line_feed ++ t := by
      rw [heq.2]
      exact List.mem_append_right _ List.mem_cons_self
    rw [List.map_append, List.mem_append, List.mem_append] at hmem
    obtain (hmem | hmem) | hmem := hmem
    · exact absurd hmem (hblanks w hw)
    · exact absurd hmem (by decide)
    · exact absurd hmem ht
  | obj hfields =>
    obtain ⟨w, z, hw, rfl⟩ := fields_head hfields
    rw [List.map_cons, List.cons_append, List.cons_append, List.cons.injEq] at heq
    have hquote : line_feed '"' = '"' := by decide
    have hbrace : line_feed '\x7b' = '\x7b' := by decide
    have hsplit : (w ++ '"' :: z).map line_feed ++ t =
        (w.map line_feed ++ ['"']) ++ (z.map line_feed ++ t) := by
      simp [hquote]
    have hnone : '\x7b' ∉ w.map line_feed ++ ['"'] := by
      rw [List.mem_append, not_or]
      exact ⟨hblanks w hw, by decide⟩
    rw [hsplit] at heq
    obtain ⟨p', hp', hz⟩ := text.cut_before hnone heq.2
    have hle : json.quotes ('\x7b' :: y) ≤ json.quotes (z.map line_feed ++ t) := by
      rw [hz]
      exact json.quotes_le_append (by decide) (by decide)
    have houtside : ∀ c ∈ w.map line_feed, json.Outside c :=
      json.outside_blank (respacing_line_feed.blanks w hw)
    have htotal : json.quotes ('\x7b' :: (w.map line_feed ++ ('"' :: (z.map line_feed ++ t)))) =
        json.quotes (z.map line_feed ++ t) + 1 := by
      rw [json.quotes_char (by decide) (by decide), json.quotes_outside houtside, json.quotes_quote]
    rw [List.map_cons, List.cons_append, hsplit, hbrace, List.append_assoc, List.singleton_append,
      htotal]
    omega

/-- A text of the object within its own unified text is all of it. -/
theorem eq_of_mentions {p k' q : List Char} (h : Written (.obj fields) k)
    (hread : (json.Value.obj fields).Readable) (h' : Written (.obj fields) k')
    (ha : '\x7b' ∉ a) (hb : '\x7b' ∉ b) (hquotes : json.quotes b = 0)
    (heq : a ++ (unify k ++ b) = p ++ (k' ++ q)) :
    a = p ∧ unify k = k' ∧ b = q ∧ ∀ c ∈ k, c ∉ SEPARATORS := by
  have hholds := json.holds_written neutral_line_feed (written_collapse h)
  have hholds' := json.holds_written json.neutral_id h'
  have hcount := hholds.quotes neutral_line_feed (t := b)
  have hcount' := hholds'.quotes json.neutral_id (t := q)
  rw [List.map_id] at hcount'
  obtain ⟨m, hm⟩ := braces_written h'
  rw [hm, List.cons_append] at heq
  obtain ⟨p', rfl, hp'⟩ := text.cut_before ha heq
  rw [← List.cons_append, ← hm] at hp'
  have hnil : p' = [] := by
    by_contra hne
    have hlt := @quotes_lt_of_brace fields (collapse k) b p' (m ++ ['\x7d'] ++ q) (written_collapse h)
      hb hne (by rw [← List.cons_append, ← hm]; exact hp')
    rw [← List.cons_append, ← hm, hcount, hcount'] at hlt
    omega
  rw [hnil, List.nil_append] at hp'
  have hmin := json.min_of_starts neutral_line_feed hholds hholds' hquotes hp'
  have hseparators : ∀ c ∈ k, c ∉ SEPARATORS := by
    intro c hc hseparator
    obtain ⟨hboundary, hwide⟩ := boundary_separator hseparator
    have hreturn : c ≠ '\r' := by
      rintro rfl
      exact absurd hwide (by decide)
    have hlarge := hmin c (mem_collapse hc hreturn) hwide
    rw [line_feed_boundary hboundary] at hlarge
    exact absurd hlarge (by decide)
  obtain ⟨-, hsame, hrest⟩ := json.eq_of_object (written_unify h hseparators) hread h' hread hp'
  exact ⟨by rw [hnil, List.append_nil], hsame, hrest, hseparators⟩

end Unified

section Fences

variable {m leading tag before after : List Char}

theorem fence_eq : FENCE = ['\x60', '\x60', '\x60'] :=
  rfl

theorem unfence_other (hc : c ≠ '\x60') : unfence (c :: s) = .ok (c :: s) := by
  have hopens : FENCE.isPrefixOf (c :: s) = false := by
    rw [fence_eq, List.isPrefixOf, beq_false_of_ne hc.symm, Bool.false_and]
  rw [unfence, if_neg]
  rw [hopens]
  rintro ⟨h, -⟩
  cases h

theorem fence_ends (m : List Char) : FENCE ++ (m ++ FENCE) =
    '\x60' :: ('\x60' :: '\x60' :: (m ++ ['\x60', '\x60']) ++ ['\x60']) := by
  simp [fence_eq]

/-- What is left of a fence, by its lines. -/
theorem unfence_fence (m : List Char) : unfence (FENCE ++ (m ++ FENCE)) =
    if ((unify (FENCE ++ (m ++ FENCE))).splitOn '\n').length < 3 then
      .error (.ValueError "empty JSON code fence")
    else
      let text := strip (['\n'].intercalate
        (((unify (FENCE ++ (m ++ FENCE))).splitOn '\n').drop 1).dropLast)
      if (text.take 5).map Char.toLower = JSON_LINE then .ok (lstrip (text.drop 5)) else .ok text := by
  have hopens : FENCE.isPrefixOf (FENCE ++ (m ++ FENCE)) = true :=
    List.isPrefixOf_iff_prefix.mpr (List.prefix_append _ _)
  have hsuffix : FENCE.isSuffixOf (FENCE ++ (m ++ FENCE)) = true := by
    rw [List.isSuffixOf_iff_suffix, ← List.append_assoc]
    exact List.suffix_append _ _
  have hlast : ∀ c ∈ (FENCE ++ (m ++ FENCE)).getLast?, ¬Boundary c := by
    intro c hc
    rw [fence_ends, ← List.cons_append, List.getLast?_concat] at hc
    obtain rfl := Option.some.inj hc
    decide
  have hlines := @splitlines_eq (FENCE ++ (m ++ FENCE)) [] hlast List.not_mem_nil
    (.inr (by rw [fence_ends]; exact List.cons_ne_nil _ _))
  rw [List.reverse_nil, List.nil_append] at hlines
  rw [unfence, if_pos ⟨hopens, hsuffix⟩, ← hlines, List.length_map]
  dsimp only
  rw [List.map_dropLast, List.map_drop]

theorem strip_fence (m : List Char) : strip (FENCE ++ (m ++ FENCE)) = FENCE ++ (m ++ FENCE) := by
  have hstrip := @strip_append [] [] '\x60' '\x60' ('\x60' :: '\x60' :: (m ++ ['\x60', '\x60']))
    (by decide) (by decide)
  rw [fence_ends]
  rw [List.append_nil, List.nil_append] at hstrip
  rw [hstrip]
  simp [lstrip]

/-- The unified text of a fence, around the text of an object. -/
theorem unify_fence (h : Written (.obj fields) k) :
    unify (FENCE ++ (leading ++ (tag ++ (before ++ (k ++ (after ++ FENCE)))))) =
      unify (FENCE ++ (leading ++ (tag ++ before))) ++ (unify k ++ unify (after ++ FENCE)) := by
  have hfront : FENCE ++ (leading ++ (tag ++ (before ++ (k ++ (after ++ FENCE))))) =
      FENCE ++ (leading ++ (tag ++ before)) ++ (k ++ (after ++ FENCE)) := by
    simp only [List.append_assoc]
  have hcut := @unify_written k (after ++ FENCE) _ h
  obtain ⟨m, rfl⟩ := braces_written h
  rw [hfront, List.cons_append, unify_cut (by decide), ← List.cons_append, hcut]

theorem unify_marks (h : ∀ c ∈ a, ¬Boundary c) : unify (a ++ t) = a ++ unify t := by
  induction a with
  | nil => rfl
  | cons c a ih =>
    rw [List.cons_append, unify_cons (h c List.mem_cons_self),
      ih fun d hd => h d (List.mem_cons_of_mem _ hd)]
    rfl

theorem blank_of_mem_unify {w : List Char} (hw : Blanks w) (hc : c ∈ unify w) : json.Blank c := by
  by_cases hnewline : c = '\n'
  · exact .inr (.inr (.inl hnewline))
  · exact hw c (mem_of_mem_unify hc hnewline)

theorem lstrip_blanks {w : List Char} (hw : Blanks w) : lstrip w = [] :=
  lstrip_eq_nil fun c hc => space_of_blank (hw c hc)

theorem boundary_blank (hc : json.Blank c) : Boundary c ↔ LineBreak c := by
  obtain rfl | rfl | rfl | rfl := hc
  · exact ⟨fun h => absurd h (by decide), fun h => absurd h (by simp [LineBreak])⟩
  · exact ⟨fun h => absurd h (by decide), fun h => absurd h (by simp [LineBreak])⟩
  · exact ⟨fun _ => .inl rfl, fun _ => by decide⟩
  · exact ⟨fun _ => .inr rfl, fun _ => by decide⟩

theorem newline_mem_unify_blanks {w : List Char} (hw : Blanks w) :
    '\n' ∈ unify w ↔ ∃ c ∈ w, LineBreak c := by
  rw [newline_mem_unify]
  exact exists_congr fun c => and_congr_right fun hc => boundary_blank (hw c hc)

theorem newline_first {w : List Char} (h : '\n' ∈ w) :
    ∃ a f, w = a ++ '\n' :: f ∧ '\n' ∉ a :=
  List.eq_append_cons_of_mem h

theorem newline_last {w : List Char} (h : '\n' ∈ w) :
    ∃ e b, w = e ++ '\n' :: b ∧ '\n' ∉ b := by
  obtain ⟨a, f, hw, ha⟩ := newline_first (List.mem_reverse.mpr h)
  refine ⟨f.reverse, a.reverse, ?_, by rwa [List.mem_reverse]⟩
  rw [← List.reverse_reverse w, hw]
  simp

theorem fence_inside : ∀ c ∈ FENCE, ¬Boundary c :=
  List.all_iff_forall_prop.mp rfl

theorem tag_inside (htag : tag = [] ∨ tag = "json".toList) : ∀ c ∈ tag, ¬Boundary c := by
  rcases htag with rfl | rfl
  · exact fun c hc => absurd hc List.not_mem_nil
  · exact List.all_iff_forall_prop.mp rfl

/-- What stands between the first line of a fence and the object: blanks, behind a tag if the
tag has a line of its own. -/
theorem fence_front (htag : tag = [] ∨ tag = "json".toList) (hleading : Blanks leading)
    (hbefore : Blanks before) (hbreak : ∃ c ∈ leading ++ before, LineBreak c) :
    ∃ a f, unify (FENCE ++ (leading ++ (tag ++ before))) = a ++ '\n' :: f ∧ '\n' ∉ a ∧
      (lstrip f = [] ∨ ∃ w, Blanks w ∧ lstrip f = "json".toList ++ w) := by
  have hmarks (a : List Char) (ha : '\n' ∉ a) : '\n' ∉ FENCE ++ a := by
    rw [List.mem_append, not_or]
    exact ⟨by decide, ha⟩
  have hsuffix {w a f : List Char} (hw : Blanks w) (heq : unify w = a ++ '\n' :: f) : Blanks f :=
    fun c hc => blank_of_mem_unify hw (heq ▸ List.mem_append_right a (List.mem_cons_of_mem _ hc))
  rcases htag with rfl | rfl
  · have hblanks : Blanks (leading ++ before) := List.forall_mem_append.mpr ⟨hleading, hbefore⟩
    obtain ⟨a, f, heq, ha⟩ := newline_first ((newline_mem_unify_blanks hblanks).mpr hbreak)
    refine ⟨FENCE ++ a, f, ?_, hmarks a ha, .inl (lstrip_blanks (hsuffix hblanks heq))⟩
    rw [unify_marks fence_inside, List.nil_append, heq, List.append_assoc]
  · have htag := tag_inside (.inr rfl)
    have hcut : unify (leading ++ ("json".toList ++ before)) =
        unify leading ++ ("json".toList ++ unify before) := by
      have hletter : "json".toList ++ before = 'j' :: ("son".toList ++ before) := rfl
      rw [hletter, unify_cut (by decide), ← hletter, unify_marks htag]
    rw [unify_marks fence_inside, hcut]
    by_cases hfirst : '\n' ∈ unify leading
    · obtain ⟨a, f, heq, ha⟩ := newline_first hfirst
      refine ⟨FENCE ++ a, f ++ ("json".toList ++ unify before), ?_, hmarks a ha, .inr ⟨unify before,
        fun c hc => blank_of_mem_unify hbefore hc, ?_⟩⟩
      · rw [heq]
        simp only [List.append_assoc, List.cons_append]
      · have hletter : "json".toList ++ unify before = 'j' :: ("son".toList ++ unify before) := rfl
        rw [hletter, lstrip_append (by decide), lstrip_blanks (hsuffix hleading heq), List.nil_append]
    · have hsecond : ∃ c ∈ before, LineBreak c := by
        obtain ⟨c, hc, hline⟩ := hbreak
        rcases List.mem_append.mp hc with hc | hc
        · exact absurd ((newline_mem_unify_blanks hleading).mpr ⟨c, hc, hline⟩) hfirst
        · exact ⟨c, hc, hline⟩
      obtain ⟨a, f, heq, ha⟩ := newline_first ((newline_mem_unify_blanks hbefore).mpr hsecond)
      refine ⟨FENCE ++ (unify leading ++ ("json".toList ++ a)), f, ?_, hmarks _ ?_,
        .inl (lstrip_blanks (hsuffix hbefore heq))⟩
      · rw [heq]
        simp only [List.append_assoc]
      · rw [List.mem_append, List.mem_append, not_or, not_or]
        exact ⟨hfirst, by decide, ha⟩

theorem parse_object_written (h : Written (.obj fields) k)
    (hread : (json.Value.obj fields).Readable) : parse_object k = .ok fields := by
  have hnil : Blanks [] := by simp [Blanks]
  have hdecode := json.decode_written h hread hnil hnil
  rw [List.nil_append, List.append_nil] at hdecode
  rw [parse_object, hdecode]

/-- The object is found behind the tag of a fence, whether the tag is taken off or not. -/
theorem parse_tagged {w : List Char} (h : Written (.obj fields) k)
    (hread : (json.Value.obj fields).Readable) (hw : Blanks w) :
    (if (("json".toList ++ (w ++ k)).take 5).map Char.toLower = JSON_LINE then
      parse_object (lstrip (("json".toList ++ (w ++ k)).drop 5))
    else parse_object ("json".toList ++ (w ++ k))) = .ok fields := by
  split_ifs with hline
  · obtain ⟨m, hm⟩ := braces_written h
    cases w with
    | nil =>
      rw [hm] at hline
      exact absurd hline (by simp [JSON_LINE])
    | cons c w =>
      have hdrop : ("json".toList ++ (c :: w ++ k)).drop 5 = w ++ k := rfl
      have hstrip : lstrip (w ++ k) = k := by
        rw [hm, lstrip_append (by decide), lstrip_blanks fun d hd => hw d (List.mem_cons_of_mem _ hd),
          List.nil_append]
      rw [hdrop, hstrip]
      exact parse_object_written h hread
  · have hdecode : json.decode ("json".toList ++ (w ++ k)) = .error .decode_error :=
      json.decode_other (by decide) (by decide) rfl rfl
    have hbrace : '\x7b' ∉ "json".toList ++ w := by
      rw [List.mem_append, not_or]
      exact ⟨by decide, fun hmem => absurd (hw _ hmem) (by decide)⟩
    have hprose := @parse_object_prose fields k ("json".toList ++ w) [] h hread hbrace
    rw [List.append_nil, List.append_assoc, hdecode] at hprose
    exact hprose (fun heq => by cases heq) fun v heq => by cases heq

theorem strip_within (s : List Char) : strip s <:+: s := by
  have hfront : (strip s) <+: lstrip s := by
    rw [strip, ← List.reverse_suffix, List.reverse_reverse]
    exact List.dropWhile_suffix _
  exact hfront.isInfix.trans (List.dropWhile_suffix _).isInfix

theorem Mentions.mono (h : Mentions fields s) (hs : s <:+: t) : Mentions fields t := by
  obtain ⟨a, b, rfl⟩ := hs
  rw [List.append_assoc]
  exact h.append

theorem brace_front (htag : tag = [] ∨ tag = "json".toList) (hleading : Blanks leading)
    (hbefore : Blanks before) : '\x7b' ∉ FENCE ++ (leading ++ (tag ++ before)) := by
  have hblanks {w : List Char} (hw : Blanks w) : '\x7b' ∉ w := fun hc => absurd (hw _ hc) (by decide)
  simp only [List.mem_append, not_or]
  refine ⟨by decide, hblanks hleading, ?_, hblanks hbefore⟩
  rcases htag with rfl | rfl
  · exact List.not_mem_nil
  · decide

theorem outside_back (hafter : Blanks after) : ∀ c ∈ unify (after ++ FENCE), json.Outside c := by
  intro c hc
  by_cases hnewline : c = '\n'
  · rw [hnewline]
    decide
  · rcases List.mem_append.mp (mem_of_mem_unify hc hnewline) with hc | hc
    · exact json.outside_blank hafter c hc
    · have hall : ∀ c ∈ FENCE, json.Outside c := List.all_iff_forall_prop.mp rfl
      exact hall c hc

theorem unify_back : unify (after ++ FENCE) = unify after ++ FENCE := by
  rw [fence_eq, unify_cut (by decide)]
  rfl

theorem bind_ok {text : List Char} {f : List Char → Except Raised (List (List Nat × json.Value))} :
    (Except.ok text >>= f) = f text :=
  rfl

theorem bind_error {raised : Raised} {f : List Char → Except Raised (List (List Nat × json.Value))} :
    ((Except.error raised : Except Raised (List Char)) >>= f) = .error raised :=
  rfl

/-- What an unfenced text gives is read from what stands between its first and last line. -/
theorem text_object_lines (m : List Char) : text_object (FENCE ++ (m ++ FENCE)) =
    if ((unify (FENCE ++ (m ++ FENCE))).splitOn '\n').length < 3 then
      .error (.ValueError "empty JSON code fence")
    else
      let text := strip (['\n'].intercalate
        (((unify (FENCE ++ (m ++ FENCE))).splitOn '\n').drop 1).dropLast)
      if (text.take 5).map Char.toLower = JSON_LINE then parse_object (lstrip (text.drop 5))
      else parse_object text := by
  rw [text_object, strip_fence, unfence_fence]
  dsimp only
  by_cases hfew : ((unify (FENCE ++ (m ++ FENCE))).splitOn '\n').length < 3
  · rw [if_pos hfew, if_pos hfew, bind_error]
  · rw [if_neg hfew, if_neg hfew]
    split_ifs with hline
    · rw [bind_ok]
    · rw [bind_ok]

theorem fence_assoc : FENCE ++ (leading ++ (tag ++ (before ++ (k ++ (after ++ FENCE))))) =
    FENCE ++ ((leading ++ (tag ++ (before ++ (k ++ after)))) ++ FENCE) := by
  simp only [List.append_assoc]

/-- A fence with its lines apart and no other line ends in the object is taken off. -/
theorem text_object_fence (h : Written (.obj fields) k) (hread : (json.Value.obj fields).Readable)
    (htag : tag = [] ∨ tag = "json".toList) (hleading : Blanks leading) (hbefore : Blanks before)
    (hafter : Blanks after) (hfront : ∃ c ∈ leading ++ before, LineBreak c)
    (hback : ∃ c ∈ after, LineBreak c) (hseparators : ∀ c ∈ k, c ∉ SEPARATORS) :
    text_object (FENCE ++ (leading ++ (tag ++ (before ++ (k ++ (after ++ FENCE)))))) =
      .ok fields := by
  have hwritten := written_unify h hseparators
  obtain ⟨a, f, hfirst, ha, hlstrip⟩ := fence_front htag hleading hbefore hfront
  obtain ⟨e, b, hlast, hb⟩ := newline_last ((newline_mem_unify_blanks hafter).mpr hback)
  have hunify : unify (FENCE ++ (leading ++ (tag ++ (before ++ (k ++ (after ++ FENCE)))))) =
      a ++ '\n' :: ((f ++ (unify k ++ e)) ++ '\n' :: (b ++ FENCE)) := by
    rw [unify_fence h, hfirst, unify_back, hlast]
    simp only [List.append_assoc, List.cons_append]
  have hend : '\n' ∉ b ++ FENCE := by
    rw [List.mem_append, not_or]
    exact ⟨hb, by decide⟩
  obtain ⟨hthree, hmiddle⟩ := @splitOn_of_middle a (f ++ (unify k ++ e)) (b ++ FENCE) ha hend
  have hspaces : ∀ c ∈ e.reverse, python_space c = true := by
    intro c hc
    refine space_of_blank (blank_of_mem_unify hafter ?_)
    rw [hlast]
    exact List.mem_append_left _ (List.mem_reverse.mp hc)
  have hstrip : strip (f ++ (unify k ++ e)) = lstrip f ++ unify k := by
    rw [strip_object hwritten, lstrip_eq_nil hspaces, List.reverse_nil, List.append_nil]
  rw [fence_assoc, text_object_lines, ← fence_assoc, hunify, if_neg (Nat.not_lt.mpr hthree), hmiddle,
    hstrip]
  dsimp only
  rcases hlstrip with hnil | ⟨w, hw, htagged⟩
  · obtain ⟨m, hm⟩ := braces_written hwritten
    have hline : ¬((([] ++ unify k).take 5).map Char.toLower = JSON_LINE) := by
      rw [hm]
      simp [JSON_LINE]
    rw [hnil, if_neg hline]
    exact parse_object_written hwritten hread
  · rw [htagged, List.append_assoc]
    exact parse_tagged hwritten hread hw

/-- What is found in a fence shows that its lines are apart. -/
theorem fence_of_text_object (h : Written (.obj fields) k)
    (hread : (json.Value.obj fields).Readable)
    (htag : tag = [] ∨ tag = "json".toList) (hleading : Blanks leading) (hbefore : Blanks before)
    (hafter : Blanks after)
    (hfound : text_object (FENCE ++ (leading ++ (tag ++ (before ++ (k ++ (after ++ FENCE)))))) =
      .ok fields) :
    (∃ c ∈ leading ++ before, LineBreak c) ∧ (∃ c ∈ after, LineBreak c) ∧
      ∀ c ∈ k, c ∉ SEPARATORS := by
  rw [fence_assoc, text_object_lines, ← fence_assoc] at hfound
  split_ifs at hfound with hfew
  obtain ⟨a, x, b, hunify, hmiddle⟩ := middle_of_splitOn (Nat.not_lt.mp hfew)
  rw [hmiddle] at hfound
  have hmentions : Mentions fields x := by
    dsimp only at hfound
    split_ifs at hfound
    · refine (mentions_of_parse_object hfound).mono ?_
      exact ((List.dropWhile_suffix _).isInfix.trans (List.drop_suffix _ _).isInfix).trans
        (strip_within x)
    · exact (mentions_of_parse_object hfound).mono (strip_within x)
  obtain ⟨p, k', q, rfl, hk', -⟩ := hmentions
  have hfront : '\x7b' ∉ unify (FENCE ++ (leading ++ (tag ++ before))) := fun hmem =>
    brace_front htag hleading hbefore (mem_of_mem_unify hmem (by decide))
  have houtside := outside_back hafter
  have hback : '\x7b' ∉ unify (after ++ FENCE) := by
    intro hmem
    rcases List.mem_append.mp (mem_of_mem_unify hmem (by decide)) with hmem | hmem
    · exact absurd (hafter _ hmem) (by decide)
    · exact absurd hmem (by decide)
  have hquotes : json.quotes (unify (after ++ FENCE)) = 0 := by
    have hnone := @json.quotes_outside _ [] houtside
    rwa [List.append_nil] at hnone
  have heq : unify (FENCE ++ (leading ++ (tag ++ before))) ++ (unify k ++ unify (after ++ FENCE)) =
      (a ++ '\n' :: p) ++ (k' ++ (q ++ '\n' :: b)) := by
    rw [← unify_fence h, hunify]
    simp only [List.append_assoc, List.cons_append]
  obtain ⟨hstart, -, hend, hseparators⟩ := eq_of_mentions h hread hk' hfront hback hquotes heq
  have hfirst : '\n' ∈ unify (FENCE ++ (leading ++ (tag ++ before))) := by
    rw [hstart]
    exact List.mem_append_right a List.mem_cons_self
  have hlast : '\n' ∈ unify after := by
    have hmem : '\n' ∈ unify (after ++ FENCE) := by
      rw [hend]
      exact List.mem_append_right q List.mem_cons_self
    rw [unify_back] at hmem
    exact (List.mem_append.mp hmem).resolve_right (by decide)
  refine ⟨?_, (newline_mem_unify_blanks hafter).mp hlast, hseparators⟩
  obtain ⟨c, hc, hboundary⟩ := newline_mem_unify.mp hfirst
  simp only [List.mem_append] at hc ⊢
  rcases hc with hc | hc | hc | hc
  · exact absurd hboundary (fence_inside c hc)
  · exact ⟨c, .inl hc, (boundary_blank (hleading c hc)).mp hboundary⟩
  · exact absurd hboundary (tag_inside htag c hc)
  · exact ⟨c, .inr hc, (boundary_blank (hbefore c hc)).mp hboundary⟩

end Fences

section Results

variable {before after : List Char} {content : Content} {presentation : Presentation}

theorem text_object_other (hstrip : strip t = c :: s) (hc : c ≠ '\x60') :
    text_object t = parse_object (strip t) := by
  rw [text_object, hstrip, unfence_other hc, bind_ok]

theorem text_object_bare (h : Written (.obj fields) k) (hbefore : Blanks before)
    (hafter : Blanks after) : text_object (before ++ (k ++ after)) = parse_object k := by
  have hreverse : lstrip after.reverse = [] :=
    lstrip_eq_nil fun c hc => space_of_blank (hafter c (List.mem_reverse.mp hc))
  have hstrip : strip (before ++ (k ++ after)) = k := by
    rw [strip_object h, lstrip_blanks hbefore, hreverse, List.reverse_nil, List.append_nil,
      List.nil_append]
  obtain ⟨m, hm⟩ := braces_written h
  rw [text_object_other (hstrip.trans hm) (by decide), hstrip]

/-- Prose without fences is left as it is. -/
theorem text_object_prose (h : Written (.obj fields) k)
    (hbefore : ∀ c ∈ before, c ≠ '\x7b' ∧ c ≠ '\x7d' ∧ c ≠ '\x60') :
    text_object (before ++ (k ++ after)) = parse_object (strip (before ++ (k ++ after))) := by
  have hstrip := @strip_object fields k before after h
  cases hfront : lstrip before with
  | nil =>
    obtain ⟨m, hm⟩ := braces_written h
    have hbrace : strip (before ++ (k ++ after)) =
        '\x7b' :: (m ++ ['\x7d'] ++ (lstrip after.reverse).reverse) := by
      rw [hstrip, hfront, hm]
      rfl
    rw [text_object_other hbrace (by decide)]
  | cons c s =>
    have hc : c ∈ before := (List.dropWhile_suffix _).subset (hfront ▸ List.mem_cons_self)
    rw [hfront, List.cons_append] at hstrip
    rw [text_object_other hstrip (hbefore c hc).2.2]

theorem mentions_of_text_object (h : text_object t = .ok fields) : ∃ s, Mentions fields s := by
  rw [text_object] at h
  cases hunfence : unfence (strip t) with
  | error raised =>
    rw [hunfence, bind_error] at h
    cases h
  | ok s =>
    rw [hunfence, bind_ok] at h
    exact ⟨s, mentions_of_parse_object h⟩

theorem join_parts_eq {parts : List Part} {texts : List (List Char)}
    (h : List.Forall₂ IsText parts texts) : join_parts parts = .ok texts.flatten := by
  induction h with
  | nil => rfl
  | @cons part text parts texts hpart _ ih =>
    have hcontent : part.content = .ok text := by
      cases hpart with
      | text => rfl
      | mapping _ htype => exact if_pos htype
    rw [join_parts, hcontent, ih]
    rfl

theorem json_object_carries (h : Carries content t) : json_object content = text_object t := by
  cases h with
  | text => rfl
  | parts hparts =>
    rw [json_object, join_parts_eq hparts]
    rfl

/-- An object is recovered from a presentation exactly when its integers can be converted and the
presentation keeps its lines apart. -/
theorem json_object_iff (h : Written (.obj fields) k) (hadmitted : presentation.Admitted fields k)
    (hcontent : Carries content (presentation.text k)) :
    json_object content = .ok fields ↔
      (json.Value.obj fields).Readable ∧ presentation.Recovered fields k := by
  rw [json_object_carries hcontent]
  have hreadable (hfound : text_object (presentation.text k) = .ok fields) :
      (json.Value.obj fields).Readable := by
    obtain ⟨s, p, k', q, -, -, hread⟩ := mentions_of_text_object hfound
    exact hread
  cases presentation with
  | bare before after =>
    refine ⟨fun hfound => ⟨hreadable hfound, trivial⟩, fun hread => ?_⟩
    rw [Presentation.text, text_object_bare h hadmitted.1 hadmitted.2]
    exact parse_object_written h hread.1
  | fence leading tag before after =>
    obtain ⟨hleading, htag, hbefore, hafter⟩ := hadmitted
    refine ⟨fun hfound => ?_, fun ⟨hread, hfront, hback, hseparators⟩ => ?_⟩
    · have hread := hreadable hfound
      exact ⟨hread, fence_of_text_object h hread htag hleading hbefore hafter hfound⟩
    · exact text_object_fence h hread htag hleading hbefore hafter hfront hback hseparators
  | prose before after =>
    rw [Presentation.text, text_object_prose h hadmitted.1]
    refine ⟨fun hfound => ⟨?_, fun hlong => ?_, fun v hother => ?_⟩, fun ⟨hread, hshort, hother⟩ => ?_⟩
    · obtain ⟨p, k', q, -, -, hread⟩ := mentions_of_parse_object hfound
      exact hread
    · rw [parse_object, hlong] at hfound
      cases hfound
    · rw [parse_object, hother] at hfound
      cases v with
      | obj found => rw [Except.ok.inj hfound]
      | _ => cases hfound
    · have hbrace : '\x7b' ∉ lstrip before := fun hmem =>
        (hadmitted.1 _ ((List.dropWhile_suffix _).subset hmem)).1 rfl
      rw [strip_object h] at hshort hother ⊢
      exact parse_object_prose h hread hbrace hshort hother

/-- The fields of the response {"a":1}. -/
def RESPONSE : List (List Nat × json.Value) :=
  [(json.codes "a", .int 1)]

theorem written_response : Written (.obj RESPONSE) "\x7b\"a\":1\x7d".toList := by
  have hkey : json.Spells (json.codes "a") ['a'] := .raw (by decide) (by decide) (by decide) .nil
  have hdigits : json.Integer ['1'] := ⟨⟨by decide, List.all_iff_forall_prop.mp rfl⟩, .inr (by decide)⟩
  have hnone : Blanks [] := fun _ hc => absurd hc List.not_mem_nil
  exact .obj (.last hnone hkey hnone hnone (.int .plus hdigits) hnone)

/-- An object in a fence on one line is not recovered. -/
theorem json_object_one_line : ∃ (fields : List (List Nat × json.Value)) (k : List Char)
    (presentation : Presentation) (content : Content), Written (.obj fields) k ∧
      presentation.Admitted fields k ∧ Carries content (presentation.text k) ∧
      json_object content ≠ .ok fields := by
  refine ⟨RESPONSE, "\x7b\"a\":1\x7d".toList, .fence [] "json".toList [' '] [' '],
    .text "```json \x7b\"a\":1\x7d ```".toList, written_response, ?_, .text _, ?_⟩
  · have hnone : Blanks [] := fun _ hc => absurd hc List.not_mem_nil
    have hblank : Blanks [' '] := fun c hc => .inl (List.mem_singleton.mp hc)
    exact ⟨hnone, .inr rfl, hblank, hblank⟩
  · have hrefused : json_object (.text "```json \x7b\"a\":1\x7d ```".toList) =
        .error (.ValueError "empty JSON code fence") := rfl
    rw [hrefused]
    exact fun h => by cases h

/-- The object between the lines of a fence is recovered. -/
theorem json_object_lines :
    json_object (.text "```json\n\x7b\"a\":1\x7d\n```".toList) = .ok RESPONSE := by
  have hnone : Blanks [] := fun _ hc => absurd hc List.not_mem_nil
  have hblank : Blanks ['\n'] := fun c hc => .inr (.inr (.inl (List.mem_singleton.mp hc)))
  have hshort : json.Short 1 := by
    rw [json.Short, Nat.length_toDigits_le_iff (by decide) (by decide)]
    exact Nat.one_lt_pow (by decide) (by decide)
  have hseparators : ∀ c ∈ "\x7b\"a\":1\x7d".toList, c ∉ SEPARATORS :=
    List.all_iff_forall_prop.mp rfl
  exact (@json_object_iff RESPONSE _ _ (.fence [] "json".toList ['\n'] ['\n']) written_response
    ⟨hnone, .inr rfl, hblank, hblank⟩ (.text _)).mpr ⟨⟨hshort, trivial⟩,
      ⟨'\n', List.mem_singleton_self _, .inl rfl⟩, ⟨'\n', List.mem_singleton_self _, .inl rfl⟩,
      hseparators⟩

end Results

end lagraph.llm
