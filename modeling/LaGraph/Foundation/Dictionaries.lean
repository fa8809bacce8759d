import LaGraph.Foundation.Duplicates

namespace foundation

/-- Keys with their values, in the order in which the keys came. -/
abbrev Dictionary (κ ν : Type) : Type :=
  List (κ × ν)

namespace Dictionary

variable {κ ν : Type} [DecidableEq κ] {keys : List κ} {g g' : κ → ν} {key : κ} {value : ν}

/-- `d[key] = value`: a key that is there keeps its place. -/
def put (key : κ) (value : ν) : Dictionary κ ν → Dictionary κ ν
  | [] => [(key, value)]
  | entry :: d => if entry.1 = key then (key, value) :: d else entry :: put key value d

/-- `d.setdefault(key, value)`. -/
def setdefault (d : Dictionary κ ν) (key : κ) (value : ν) : Dictionary κ ν :=
  if (d.lookup key).isSome then d else d.put key value

/-- The dictionary of a function whose keys have come in this order. -/
def tabulate (keys : List κ) (g : κ → ν) : Dictionary κ ν :=
  keys.eraseDups.map fun key => (key, g key)

theorem lookup_cons (entry : κ × ν) (d : Dictionary κ ν) (key : κ) :
    List.lookup key (entry :: d) = if entry.1 = key then some entry.2 else d.lookup key := by
  rw [List.lookup_cons]
  by_cases h : entry.1 = key
  · rw [if_pos h, beq_iff_eq.mpr h.symm]
  · rw [if_neg h, beq_false_of_ne (Ne.symm h)]

theorem lookup_put (key : κ) (value : ν) (d : Dictionary κ ν) (k : κ) :
    (d.put key value).lookup k = if k = key then some value else d.lookup k := by
  induction d with
  | nil =>
    rw [put, lookup_cons]
    simp only [eq_comm]
  | cons entry d ih =>
    rw [put]
    split
    · rename_i hentry
      rw [lookup_cons, lookup_cons, hentry]
      by_cases hk : k = key
      · rw [if_pos hk, if_pos hk.symm]
      · rw [if_neg hk, if_neg (Ne.symm hk), if_neg (Ne.symm hk)]
    · rename_i hentry
      rw [lookup_cons, lookup_cons, ih]
      by_cases hk : entry.1 = k
      · rw [if_pos hk, if_pos hk, if_neg (hk ▸ hentry)]
      · rw [if_neg hk, if_neg hk]

theorem lookup_map (l : List κ) (g : κ → ν) (key : κ) :
    (l.map fun k => (k, g k)).lookup key = if key ∈ l then some (g key) else none := by
  induction l with
  | nil => rfl
  | cons k l ih =>
    rw [List.map_cons, lookup_cons, ih]
    by_cases hk : k = key
    · rw [if_pos hk, if_pos (hk ▸ List.mem_cons_self), hk]
    · rw [if_neg hk, if_congr (List.mem_cons.trans (or_iff_right (Ne.symm hk))) rfl rfl]

/-- Values under keys of their own are found as the elements they come from. -/
theorem lookup_keyed {α : Type} (l : List α) (name : α → κ) (of : α → ν) (k : κ) :
    (l.map fun a => (name a, of a)).lookup k = (l.find? (name · = k)).map of := by
  induction l with
  | nil => rfl
  | cons a l ih =>
    rw [List.map_cons, lookup_cons, ih]
    by_cases hk : name a = k
    · rw [if_pos hk, List.find?_cons_of_pos (by simpa using hk)]
      rfl
    · rw [if_neg hk, List.find?_cons_of_neg (by simpa using hk)]

theorem lookup_filter (p : κ → Bool) (d : Dictionary κ ν) (k : κ) :
    (d.filter (p ·.1)).lookup k = if p k then d.lookup k else none := by
  induction d with
  | nil => exact (ite_self _).symm
  | cons entry d ih =>
    by_cases hp : p entry.1 = true
    · rw [List.filter_cons, if_pos hp, lookup_cons, lookup_cons, ih]
      by_cases hk : entry.1 = k
      · rw [if_pos hk, if_pos hk, if_pos (hk ▸ hp)]
      · rw [if_neg hk, if_neg hk]
    · rw [List.filter_cons, if_neg hp, lookup_cons, ih]
      by_cases hk : entry.1 = k
      · rw [if_neg (hk ▸ hp), if_neg (hk ▸ hp)]
      · rw [if_neg hk]

theorem lookup_tabulate (keys : List κ) (g : κ → ν) (key : κ) :
    (tabulate keys g).lookup key = if key ∈ keys then some (g key) else none := by
  rw [tabulate, lookup_map, if_congr List.mem_eraseDups rfl rfl]

/-- The first coming of one key more. -/
theorem eraseDups_concat (keys : List κ) (key : κ) :
    (keys ++ [key]).eraseDups =
      if key ∈ keys then keys.eraseDups else keys.eraseDups ++ [key] := by
  rw [List.eraseDups_append]
  by_cases h : key ∈ keys
  · rw [if_pos h]
    simp [List.removeAll, h]
  · have hnew : [key].removeAll keys = [key] := by simp [List.removeAll, h]
    rw [if_neg h, hnew, List.eraseDups_cons, List.filter_nil]
    rfl

/-- A key that is there gets its value where it stands. -/
theorem put_map {l : List κ} (hl : l.Nodup) (hkey : g' key = value)
    (hother : ∀ k ∈ l, k ≠ key → g' k = g k) :
    put key value (l.map fun k => (k, g k)) =
      if key ∈ l then l.map fun k => (k, g' k) else (l.map fun k => (k, g' k)) ++ [(key, value)] := by
  induction l with
  | nil => rfl
  | cons k l ih =>
    obtain ⟨hk, hl⟩ := List.nodup_cons.mp hl
    have hrest : ∀ k' ∈ l, k' ≠ key → g' k' = g k' :=
      fun k' hk' => hother k' (List.mem_cons_of_mem k hk')
    rw [List.map_cons, put]
    by_cases hsame : k = key
    · rw [if_pos hsame, if_pos (hsame ▸ List.mem_cons_self), List.map_cons, hsame, hkey]
      congr 1
      refine List.map_congr_left fun k' hk' => ?_
      rw [hrest k' hk' fun heq => hk (hsame ▸ heq ▸ hk')]
    · rw [if_neg hsame, ih hl hrest, if_congr (List.mem_cons.trans (or_iff_right (Ne.symm hsame)))
        rfl rfl, List.map_cons, hother k List.mem_cons_self hsame]
      split
      · rfl
      · rfl

/-- The value of one of the elements is replaced where it stands. -/
theorem put_keyed {α : Type} {l : List α} {name : α → κ} {of : α → ν} (of' : α → ν)
    (hl : (l.map name).Nodup) {a : α} (ha : a ∈ l)
    (hother : ∀ b ∈ l, name b ≠ name a → of' b = of b) :
    put (name a) (of' a) (l.map fun b => (name b, of b)) = l.map fun b => (name b, of' b) := by
  induction l with
  | nil => exact absurd ha List.not_mem_nil
  | cons b l ih =>
    rw [List.map_cons, List.nodup_cons] at hl
    have hrest : ∀ c ∈ l, name c ≠ name a → of' c = of c :=
      fun c hc => hother c (List.mem_cons_of_mem b hc)
    rw [List.map_cons, put, List.map_cons]
    cases ha with
    | head =>
      rw [if_pos rfl]
      congr 1
      refine List.map_congr_left fun c hc => ?_
      rw [hrest c hc fun heq => hl.1 (heq ▸ List.mem_map_of_mem hc)]
    | tail _ ha =>
      have hne : name b ≠ name a := fun heq => hl.1 (heq ▸ List.mem_map_of_mem ha)
      rw [if_neg hne, ih hl.2 ha hrest, hother b List.mem_cons_self hne]

/-- A key that is new comes last. -/
theorem put_new {d : Dictionary κ ν} (h : key ∉ d.map (·.1)) :
    d.put key value = d ++ [(key, value)] := by
  induction d with
  | nil => rfl
  | cons entry d ih =>
    rw [List.map_cons, List.mem_cons, not_or] at h
    rw [put, if_neg (Ne.symm h.1), ih h.2, List.cons_append]

theorem put_tabulate (hkey : g' key = value) (hother : ∀ k ∈ keys, k ≠ key → g' k = g k) :
    (tabulate keys g).put key value = tabulate (keys ++ [key]) g' := by
  rw [tabulate, put_map (duplicates.nodup_eraseDups keys) hkey fun k hk =>
    hother k (List.mem_eraseDups.mp hk), tabulate, eraseDups_concat, if_congr List.mem_eraseDups
    rfl rfl]
  split
  · rfl
  · rw [List.map_append, List.map_singleton, hkey]

theorem setdefault_tabulate (hkey : key ∉ keys → g key = value) :
    (tabulate keys g).setdefault key value = tabulate (keys ++ [key]) g := by
  rw [setdefault, lookup_tabulate]
  by_cases h : key ∈ keys
  · rw [if_pos h, Option.isSome_some, if_pos rfl, tabulate, tabulate, eraseDups_concat, if_pos h]
  · rw [if_neg h, Option.isSome_none, if_neg (by decide)]
    exact put_tabulate (hkey h) fun _ _ _ => rfl

end Dictionary

end foundation
