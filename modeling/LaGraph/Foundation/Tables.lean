import Mathlib.Data.List.Nodup

namespace foundation

/-- Rows with a primary key. -/
class Keyed (ρ : Type) (κ : outParam Type) where
  key : ρ → κ

/-- A table: rows in the order of their insertion, no two with the same key. -/
structure Table (ρ : Type) {κ : Type} [Keyed ρ κ] where
  rows : List ρ
  nodup : (rows.map Keyed.key).Nodup

namespace Table

variable {ρ κ : Type} [Keyed ρ κ]

instance : Membership ρ (Table ρ) where
  mem t r := r ∈ t.rows

theorem mem_rows {t : Table ρ} {r : ρ} : r ∈ t.rows ↔ r ∈ t := Iff.rfl

instance {t : Table ρ} {P : ρ → Prop} [DecidablePred P] : Decidable (∀ r ∈ t, P r) :=
  inferInstanceAs (Decidable (∀ r ∈ t.rows, P r))

instance {t : Table ρ} {P : ρ → Prop} [DecidablePred P] : Decidable (∃ r ∈ t, P r) :=
  inferInstanceAs (Decidable (∃ r ∈ t.rows, P r))

/-- The primary key determines the row. -/
theorem eq_of_key {t : Table ρ} {r r' : ρ} (hr : r ∈ t) (hr' : r' ∈ t)
    (hkey : Keyed.key r = Keyed.key r') : r = r' :=
  List.inj_on_of_nodup_map t.nodup hr hr' hkey

def empty : Table ρ where
  rows := []
  nodup := List.nodup_nil

@[simp] theorem not_mem_empty {r : ρ} : r ∉ (empty : Table ρ) := List.not_mem_nil

variable [DecidableEq κ]

/-- `SELECT … WHERE key = k`. -/
def get (t : Table ρ) (k : κ) : Option ρ :=
  t.rows.find? (Keyed.key · = k)

/-- `INSERT`; a row whose key is taken is not inserted. -/
def insert (t : Table ρ) (r : ρ) : Table ρ :=
  if h : Keyed.key r ∈ t.rows.map Keyed.key then t
  else
    { rows := t.rows ++ [r],
      nodup := by
        rw [List.map_append, List.map_singleton, List.nodup_append]
        refine ⟨t.nodup, List.nodup_singleton _, fun a ha b hb hab => h ?_⟩
        rw [List.mem_singleton] at hb
        rwa [← hb, ← hab] }

/-- `UPDATE … WHERE p` of columns outside the key. -/
def update (t : Table ρ) (p : ρ → Bool) (f : ρ → ρ)
    (hf : ∀ r, Keyed.key (f r) = Keyed.key r) : Table ρ where
  rows := t.rows.map fun r => if p r then f r else r
  nodup := by
    rw [List.map_map]
    have hkeys : Keyed.key ∘ (fun r => if p r then f r else r) = (Keyed.key : ρ → κ) := by
      funext r
      rw [Function.comp]
      split
      · exact hf r
      · rfl
    rw [hkeys]
    exact t.nodup

/-- `DELETE … WHERE p`. -/
def delete (t : Table ρ) (p : ρ → Bool) : Table ρ where
  rows := t.rows.filter (!p ·)
  nodup := (List.filter_sublist.map _).nodup t.nodup

/-- The row with that key satisfies `p` in the table. -/
def selects (t : Table ρ) (p : ρ → Bool) (k : κ) : Bool :=
  t.rows.any fun r => Keyed.key r = k && p r

/-- The rows a statement with `WHERE p` writes: those that satisfied it in the view
of the statement and still do. -/
def matching (view : Table ρ) (p : ρ → Bool) (r : ρ) : Bool :=
  view.selects p (Keyed.key r) && p r

/-- `SELECT count(*) … WHERE p`. -/
def count (t : Table ρ) (p : ρ → Bool) : Nat :=
  t.rows.countP p

theorem get_eq_some {t : Table ρ} {k : κ} {r : ρ} :
    t.get k = some r ↔ r ∈ t ∧ Keyed.key r = k := by
  constructor
  · intro h
    exact ⟨List.mem_of_find?_eq_some h, by simpa using List.find?_some h⟩
  · intro h
    obtain ⟨hr, rfl⟩ := h
    cases hget : t.get (Keyed.key r) with
    | none =>
      have hnone := List.find?_eq_none.mp hget r hr
      simp at hnone
    | some r' =>
      have hkey : Keyed.key r' = Keyed.key r := by simpa using List.find?_some hget
      rw [eq_of_key (List.mem_of_find?_eq_some hget) hr hkey]

theorem get_eq_none {t : Table ρ} {k : κ} : t.get k = none ↔ ∀ r ∈ t, Keyed.key r ≠ k := by
  rw [get, List.find?_eq_none]
  simp [mem_rows]

theorem get_of_mem {t : Table ρ} {r : ρ} (hr : r ∈ t) : t.get (Keyed.key r) = some r :=
  get_eq_some.mpr ⟨hr, rfl⟩

theorem insert_of_fresh {t : Table ρ} {r : ρ} (hfresh : ∀ r' ∈ t, Keyed.key r' ≠ Keyed.key r) :
    (t.insert r).rows = t.rows ++ [r] := by
  have hnot : Keyed.key r ∉ t.rows.map Keyed.key := by
    rw [List.mem_map]
    rintro ⟨r', hr', hkey⟩
    exact hfresh r' hr' hkey
  rw [insert, dif_neg hnot]

theorem insert_of_taken {t : Table ρ} {r r' : ρ} (hr' : r' ∈ t)
    (hkey : Keyed.key r' = Keyed.key r) : t.insert r = t := by
  have hmem : Keyed.key r ∈ t.rows.map Keyed.key := List.mem_map.mpr ⟨r', hr', hkey⟩
  rw [insert, dif_pos hmem]

theorem mem_insert_of_fresh {t : Table ρ} {r x : ρ}
    (hfresh : ∀ r' ∈ t, Keyed.key r' ≠ Keyed.key r) : x ∈ t.insert r ↔ x ∈ t ∨ x = r := by
  rw [← mem_rows, insert_of_fresh hfresh, List.mem_append, List.mem_singleton, mem_rows]

theorem mem_insert {t : Table ρ} {r x : ρ} (h : x ∈ t.insert r) : x ∈ t ∨ x = r := by
  unfold insert at h
  split at h
  · exact Or.inl h
  · rwa [← mem_rows, List.mem_append, List.mem_singleton] at h

theorem mem_insert_left {t : Table ρ} {r x : ρ} (h : x ∈ t) : x ∈ t.insert r := by
  unfold insert
  split
  · exact h
  · exact List.mem_append_left _ h

theorem get_insert_of_ne {t : Table ρ} {r : ρ} {k : κ} (hne : Keyed.key r ≠ k) :
    (t.insert r).get k = t.get k := by
  unfold insert
  split
  · rfl
  · rw [get, List.find?_append]
    simp [hne, get]

variable {p : ρ → Bool} {f : ρ → ρ} {hf : ∀ r, Keyed.key (f r) = Keyed.key r}

omit [DecidableEq κ] in
theorem mem_update {t : Table ρ} {x : ρ} :
    x ∈ t.update p f hf ↔ ∃ r ∈ t, (if p r then f r else r) = x :=
  List.mem_map

omit [DecidableEq κ] in
/-- A row of an updated table comes from one that it is related to. -/
theorem exists_of_mem_update {R : ρ → ρ → Prop} {t : Table ρ} {x : ρ}
    (hf : ∀ r, Keyed.key (f r) = Keyed.key r) (hkept : ∀ r, R r r) (hchanged : ∀ r, R r (f r))
    (h : x ∈ t.update p f hf) : ∃ r ∈ t, R r x := by
  obtain ⟨r, hr, hx⟩ := List.mem_map.mp h
  refine ⟨r, hr, ?_⟩
  rw [← hx]
  split
  · exact hchanged r
  · exact hkept r

omit [DecidableEq κ] in
theorem mem_delete {t : Table ρ} {x : ρ} : x ∈ t.delete p ↔ x ∈ t ∧ p x = false := by
  rw [← mem_rows, delete, List.mem_filter]
  simp [mem_rows]

omit [DecidableEq κ] in
/-- A row an update passes over is still there. -/
theorem mem_update_of_not {t : Table ρ} {x : ρ} (hx : x ∈ t) (hp : p x = false) :
    x ∈ t.update p f hf :=
  mem_update.mpr ⟨x, hx, by simp [hp]⟩

omit [DecidableEq κ] in
theorem mem_update_of {t : Table ρ} {x : ρ} (hx : x ∈ t) (hp : p x = true) :
    f x ∈ t.update p f hf :=
  mem_update.mpr ⟨x, hx, by simp [hp]⟩

theorem get_update {t : Table ρ} {k : κ} :
    (t.update p f hf).get k = (t.get k).map fun r => if p r then f r else r := by
  cases hget : t.get k with
  | none =>
    rw [Option.map_none, get_eq_none]
    intro x hx
    obtain ⟨r, hr, rfl⟩ := mem_update.mp hx
    have hne := get_eq_none.mp hget r hr
    split
    · rwa [hf]
    · exact hne
  | some r =>
    obtain ⟨hr, hkey⟩ := get_eq_some.mp hget
    rw [Option.map_some, get_eq_some]
    refine ⟨mem_update.mpr ⟨r, hr, rfl⟩, ?_⟩
    split
    · rwa [hf]
    · exact hkey

theorem selects_of_mem {t : Table ρ} {r : ρ} (hr : r ∈ t) : t.selects p (Keyed.key r) = p r := by
  rw [selects, Bool.eq_iff_iff, List.any_eq_true]
  constructor
  · intro h
    obtain ⟨r', hr', hmatch⟩ := h
    rw [Bool.and_eq_true, decide_eq_true_eq] at hmatch
    rw [← eq_of_key hr' hr hmatch.1]
    exact hmatch.2
  · intro h
    exact ⟨r, hr, by simp [h]⟩

theorem matching_of_mem {t : Table ρ} {r : ρ} (hr : r ∈ t) : t.matching p r = p r := by
  rw [matching, selects_of_mem hr, Bool.and_self]

omit [DecidableEq κ] in
theorem ext_rows {t t' : Table ρ} (h : t.rows = t'.rows) : t = t' := by
  cases t
  cases t'
  simpa using h

/-- On the table it was evaluated on, a `WHERE` clause selects the rows it
describes. -/
theorem update_matching {t : Table ρ} : t.update (t.matching p) f hf = t.update p f hf := by
  refine ext_rows (List.map_congr_left fun r hr => ?_)
  rw [matching_of_mem hr]

theorem delete_matching {t : Table ρ} : t.delete (t.matching p) = t.delete p := by
  refine ext_rows (List.filter_congr fun r hr => ?_)
  rw [matching_of_mem hr]

theorem get_delete {t : Table ρ} {k : κ} : (t.delete p).get k = (t.get k).filter (!p ·) := by
  cases hget : t.get k with
  | none =>
    rw [Option.filter_none, get_eq_none]
    intro r hr
    exact get_eq_none.mp hget r (mem_delete.mp hr).1
  | some r =>
    obtain ⟨hr, hkey⟩ := get_eq_some.mp hget
    cases hp : p r with
    | false =>
      rw [Option.filter_some, if_pos (by simp [hp]), get_eq_some]
      exact ⟨mem_delete.mpr ⟨hr, hp⟩, hkey⟩
    | true =>
      rw [Option.filter_some, if_neg (by simp [hp]), get_eq_none]
      intro other hother hsame
      obtain ⟨hmem, hnot⟩ := mem_delete.mp hother
      rw [eq_of_key hmem hr (hsame.trans hkey.symm), hp] at hnot
      cases hnot

omit [DecidableEq κ] in
theorem count_pos {t : Table ρ} : 0 < t.count p ↔ ∃ r ∈ t, p r = true :=
  List.countP_pos_iff

omit [DecidableEq κ] in
theorem count_eq_zero {t : Table ρ} : t.count p = 0 ↔ ∀ r ∈ t, p r = false := by
  simp [count, List.countP_eq_zero, mem_rows]

omit [DecidableEq κ] in
/-- A row of a table, with the rows that have other keys. -/
theorem split_key {t : Table ρ} {r : ρ} (hr : r ∈ t) :
    ∃ before after, t.rows = before ++ r :: after ∧
      ∀ x ∈ before ++ after, Keyed.key x ≠ Keyed.key r := by
  obtain ⟨before, after, hrows⟩ := List.append_of_mem hr
  refine ⟨before, after, hrows, fun x hx hkey => ?_⟩
  have hnodup := t.nodup
  rw [hrows, List.map_append, List.map_cons, List.nodup_middle, List.nodup_cons,
    ← List.map_append] at hnodup
  exact hnodup.1 (hkey ▸ List.mem_map_of_mem hx)

end Table

end foundation
