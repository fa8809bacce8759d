import LaGraph.Foundation.Results
import LaGraph.Plsql.Caches

open foundation foundation.Stateful

namespace lagraph.plsql

variable {client : AnalysisClient} {db : AnalysisGraph} {s s' : ClientState} {c : ObjectCache}
  {names : List String}

/-- The entries of a chunk on top of a cache. -/
def cached_names (client : AnalysisClient) (value : String → Option PlsqlObjectRecord)
    (names : List String) (c : ObjectCache) : ObjectCache :=
  (names.map fun name => (name, value name)).foldl
    (fun cache entry => (object_id client.project_id entry.1, entry.2) :: cache) c

theorem lookup_cached_names {value : String → Option PlsqlObjectRecord} {name : String} :
    (cached_names client value names c).lookup (object_id client.project_id name) =
      if name ∈ names then some (value name) else c.lookup (object_id client.project_id name) := by
  induction names generalizing c with
  | nil => rfl
  | cons first names ih =>
    have hstep : cached_names client value (first :: names) c =
        cached_names client value names
          ((object_id client.project_id first, value first) :: c) := rfl
    rw [hstep, ih]
    by_cases hmem : name ∈ names
    · rw [if_pos hmem, if_pos (List.mem_cons_of_mem _ hmem)]
    · rw [if_neg hmem]
      by_cases hfirst : name = first
      · rw [hfirst, lookup_cons_self, if_pos List.mem_cons_self]
      · have hne : object_id client.project_id name ≠ object_id client.project_id first :=
          fun h => hfirst (object_id_injective h)
        have hnot : name ∉ first :: names := by simp [hfirst, hmem]
        rw [lookup_cons_other hne, if_neg hnot]

theorem lookup_cached_names_other {value : String → Option PlsqlObjectRecord} {key : String}
    (hkey : ∀ name ∈ names, key ≠ object_id client.project_id name) :
    (cached_names client value names c).lookup key = c.lookup key := by
  induction names generalizing c with
  | nil => rfl
  | cons first names ih =>
    have hstep : cached_names client value (first :: names) c =
        cached_names client value names
          ((object_id client.project_id first, value first) :: c) := rfl
    rw [hstep, ih fun name hname => hkey name (List.mem_cons_of_mem _ hname),
      lookup_cons_other (hkey first List.mem_cons_self)]

/-- No name is cached with another record than the one it stands for. -/
def Uncontested (client : AnalysisClient) (db : AnalysisGraph) (names : List String)
    (c : ObjectCache) : Prop :=
  ∀ name ∈ names, ∀ value, c.lookup (object_id client.project_id name) = some value →
    value = first_record client db name

theorem first_record_name {name : String} {record : PlsqlObjectRecord}
    (h : first_record client db name = some record) : record.qualified_name = name := by
  obtain ⟨node, hnode, hrecord⟩ := List.exists_of_findSome?_eq_some h
  have hmapped := (object_from_node_name (mapped_eq_some.mp hrecord)).1
  have hholds := (List.mem_filter.mp ((List.mem_insertionSort _).mp hnode)).2
  rw [hmapped] at hholds
  simpa [holds] using hholds

theorem Uncontested.grows (h : Uncontested client db names c) {part : List String}
    (hpart : ∀ name ∈ part, name ∈ names) :
    Extends c (cached_names client (first_record client db) part c) := by
  intro key value hvalue
  by_cases hkey : ∃ name ∈ part, key = object_id client.project_id name
  · obtain ⟨name, hname, rfl⟩ := hkey
    rw [lookup_cached_names, if_pos hname, h name (hpart name hname) value hvalue]
  · push Not at hkey
    rw [lookup_cached_names_other hkey]
    exact hvalue

theorem Uncontested.cached (h : Uncontested client db names c) {part : List String} :
    Uncontested client db names (cached_names client (first_record client db) part c) := by
  intro name hname value hvalue
  rw [lookup_cached_names] at hvalue
  split_ifs at hvalue
  · exact (Option.some.inj hvalue).symm
  · exact h name hname value hvalue

theorem SoundObjects.cached (h : SoundObjects client db c) {part : List String} :
    SoundObjects client db (cached_names client (first_record client db) part c) := by
  intro key record hkey
  by_cases hname : ∃ name ∈ part, key = object_id client.project_id name
  · obtain ⟨name, hmem, rfl⟩ := hname
    rw [lookup_cached_names, if_pos hmem] at hkey
    have hrecord := Option.some.inj hkey
    rw [first_record_name hrecord]
    exact hrecord
  · push Not at hname
    rw [lookup_cached_names_other hname] at hkey
    exact h key record hkey

/-- A state with these objects cached. -/
def ClientState.caching (s : ClientState) (c : ObjectCache) : ClientState :=
  { s with object_cache := c }

/-- The state after the names have been looked up. -/
def ClientState.knowing (client : AnalysisClient) (db : AnalysisGraph) (s : ClientState)
    (names : List String) : ClientState :=
  s.caching (cached_names client (first_record client db) names s.object_cache)

/-- What one chunk finds and leaves. -/
theorem lookup_chunk_run (names : List String) (s : ClientState) :
    (∃ e, (lookup_chunk client db names).run.run s = (.error e, s)) ∨
      (lookup_chunk client db names).run.run s =
        (.ok (names.map fun name => (name, first_record client db name)),
          s.knowing client db names) := by
  unfold lookup_chunk
  cases hfound : records_found client.project_id (client.file_map db)
      (OBJECTS_BY_QUALIFIED_NAMES db.toGraphDb client.project_id names) with
  | error e =>
    refine Or.inl ⟨e, run_bind_error ?_⟩
    rw [run_lift, hfound]
  | ok found =>
    have hresolved : (names.map fun name => (name, found.lookup name)) =
        names.map fun name => (name, first_record client db name) := by
      refine List.map_congr_left fun name hname => ?_
      rw [lookup_chunk_records hname hfound]
    refine Or.inr ?_
    have hlift : (liftM (records_found client.project_id (client.file_map db)
        (OBJECTS_BY_QUALIFIED_NAMES db.toGraphDb client.project_id names)) :
          Reads (List (String × PlsqlObjectRecord))).run.run s = (.ok found, s) := by
      rw [run_lift, hfound]
    simp only
    rw [run_bind_ok hlift, hresolved]
    rfl

/-- A chunk whose nodes can all be read is found. -/
theorem lookup_chunk_ok (hread : ∀ node ∈ OBJECTS_BY_QUALIFIED_NAMES db.toGraphDb client.project_id
      names, ∃ record, object_from_node client.project_id node (client.file_map db) = .ok record) :
    (lookup_chunk client db names).run.run s =
      (.ok (names.map fun name => (name, first_record client db name)),
        s.knowing client db names) := by
  obtain ⟨records, hrecords, -⟩ := results.mapM_ok (R := fun _ _ => True)
    fun node hnode => (hread node hnode).imp fun _ h => ⟨h, trivial⟩
  have hfound : ∃ found, records_found client.project_id (client.file_map db)
      (OBJECTS_BY_QUALIFIED_NAMES db.toGraphDb client.project_id names) = .ok found :=
    ⟨_, results.bind_ok.mpr ⟨records, hrecords, rfl⟩⟩
  obtain ⟨found, hfound⟩ := hfound
  rcases @lookup_chunk_run client db names s with ⟨e, herror⟩ | hok
  · have hlift := @run_lift ClientState Raised (List (String × PlsqlObjectRecord)) s
      (records_found client.project_id (client.file_map db)
        (OBJECTS_BY_QUALIFIED_NAMES db.toGraphDb client.project_id names))
    rw [hfound] at hlift
    rw [lookup_chunk, hfound, run_bind_ok hlift] at herror
    cases herror
  · exact hok

/-- So are chunks of such names. -/
theorem lookup_chunks_ok {pieces : List (List String)}
    (hread : ∀ piece ∈ pieces, ∀ node ∈ OBJECTS_BY_QUALIFIED_NAMES db.toGraphDb client.project_id
      piece, ∃ record, object_from_node client.project_id node (client.file_map db) = .ok record) :
    ∃ found s', (pieces.mapM (lookup_chunk client db)).run.run s = (.ok found, s') := by
  induction pieces generalizing s with
  | nil => exact ⟨[], s, rfl⟩
  | cons piece pieces ih =>
    obtain ⟨found, s', hrest⟩ := @ih (s.knowing client db piece)
      fun part hpart => hread part (List.mem_cons_of_mem _ hpart)
    rw [List.mapM_cons, run_bind_ok (lookup_chunk_ok (hread piece List.mem_cons_self)),
      run_bind_ok hrest]
    exact ⟨_, s', rfl⟩

/-- The chunks of uncontested names. -/
theorem lookup_chunks_run {pieces : List (List String)}
    (hpieces : ∀ piece ∈ pieces, ∀ name ∈ piece, name ∈ names)
    (hfree : Uncontested client db names s.object_cache) :
    Learns client db s ((pieces.mapM (lookup_chunk client db)).run.run s).2 ∧
      ∀ found s', (pieces.mapM (lookup_chunk client db)).run.run s = (.ok found, s') →
        found.flatten = pieces.flatten.map (fun name => (name, first_record client db name)) ∧
          ∀ name ∈ pieces.flatten, s'.object_cache.lookup (object_id client.project_id name) =
            some (first_record client db name) := by
  induction pieces generalizing s with
  | nil =>
    refine ⟨.refl s, fun found s' h => ?_⟩
    cases h
    exact ⟨rfl, fun _ hname => absurd hname List.not_mem_nil⟩
  | cons piece pieces ih =>
    rw [List.mapM_cons]
    rcases @lookup_chunk_run client db piece s with ⟨e, herror⟩ | hok
    · rw [run_bind_error herror]
      refine ⟨.refl s, fun found s' h => ?_⟩
      cases h
    · have hfirst : Learns client db s (s.knowing client db piece) :=
        ⟨hfree.grows (hpieces piece List.mem_cons_self), fun hsound => hsound.cached, rfl⟩
      obtain ⟨hlearns, hall⟩ := @ih (s.knowing client db piece)
        (fun part hpart => hpieces part (List.mem_cons_of_mem _ hpart)) hfree.cached
      rw [run_bind_ok hok, run_bind]
      rcases hrest : (pieces.mapM (lookup_chunk client db)).run.run (s.knowing client db piece)
        with ⟨e | found, s₂⟩
      · rw [hrest] at hlearns
        refine ⟨hfirst.trans hlearns, fun found s' h => ?_⟩
        cases h
      · rw [hrest] at hlearns
        obtain ⟨hfound, hcached⟩ := hall found s₂ hrest
        refine ⟨hfirst.trans hlearns, fun found' s' h => ?_⟩
        cases h
        refine ⟨?_, fun name hname => ?_⟩
        · rw [List.flatten_cons, List.flatten_cons, List.map_append, hfound]
        · rcases List.mem_append.mp hname with hname | hname
          · refine hlearns.grows _ _ ?_
            change (cached_names client (first_record client db) piece s.object_cache).lookup _ = _
            rw [lookup_cached_names, if_pos hname]
          · exact hcached name hname

theorem mem_chunks {size : Nat} {names : List String} {name : String} (hsize : 0 < size) :
    name ∈ (chunks size names).flatten ↔ name ∈ names := by
  unfold chunks
  simp only [List.mem_flatten, List.mem_map, List.mem_range, exists_exists_and_eq_and]
  constructor
  · rintro ⟨i, -, hname⟩
    exact List.mem_of_mem_drop (List.mem_of_mem_take hname)
  · intro hname
    obtain ⟨k, hk, rfl⟩ := List.mem_iff_getElem.mp hname
    have hdiv := Nat.div_add_mod k size
    have hmod := Nat.mod_lt k hsize
    refine ⟨k / size, ?_, List.mem_iff_getElem.mpr ⟨k % size, ?_, ?_⟩⟩
    · rw [Nat.div_lt_iff_lt_mul hsize]
      have hceil := Nat.div_add_mod (names.length + size - 1) size
      have hrest := Nat.mod_lt (names.length + size - 1) hsize
      rw [Nat.mul_comm]
      omega
    · rw [List.length_take, List.length_drop]
      omega
    · rw [List.getElem_take, List.getElem_drop]
      congr 1

theorem lookup_map_self {value : String → Option PlsqlObjectRecord} {name : String} :
    (names.map fun name => (name, value name)).lookup name =
      if name ∈ names then some (value name) else none := by
  induction names with
  | nil => rfl
  | cons first names ih =>
    rw [List.map_cons, List.lookup_cons]
    by_cases hname : name = first
    · simp [hname]
    · have hbeq : (name == first) = false := by simpa using hname
      rw [hbeq]
      simpa [hname] using ih

/-- The names that are cached, with what is cached. -/
def resolved_names (client : AnalysisClient) (c : ObjectCache) (names : List String) :
    List (String × Option PlsqlObjectRecord) :=
  names.filterMap fun name =>
    (c.lookup (object_id client.project_id name)).map fun record => (name, record)

theorem lookup_resolved_names {name : String} :
    (resolved_names client c names).lookup name =
      if name ∈ names then c.lookup (object_id client.project_id name) else none := by
  induction names with
  | nil => rfl
  | cons first names ih =>
    unfold resolved_names at ih ⊢
    rw [List.filterMap_cons]
    by_cases hname : name = first
    · rw [← hname, if_pos List.mem_cons_self]
      cases hcached : c.lookup (object_id client.project_id name) with
      | none =>
        simp only [Option.map_none]
        rw [ih, hcached, ite_self]
      | some record => simp
    · have hbeq : (name == first) = false := by simpa using hname
      have hmem : name ∈ first :: names ↔ name ∈ names := by simp [hname]
      simp only [hmem]
      cases c.lookup (object_id client.project_id first) with
      | none => exact ih
      | some record =>
        rw [← ih]
        simp [List.lookup_cons, hbeq]

theorem lookup_append {l l' : List (String × Option PlsqlObjectRecord)} {name : String} :
    (l ++ l').lookup name = (l.lookup name).or (l'.lookup name) := by
  induction l with
  | nil => simp
  | cons entry l ih =>
    rw [List.cons_append, List.lookup_cons, List.lookup_cons]
    cases name == entry.1 with
    | true => rfl
    | false => exact ih

/-- The names to look up. -/
def missing_names (client : AnalysisClient) (c : ObjectCache) (names : List String) : List String :=
  names.eraseDups.filter fun name => (c.lookup (object_id client.project_id name)).isNone

theorem objects_by_qualified_name_eq (names : List String) (s : ClientState) :
    (objects_by_qualified_name client db names).run.run s =
      (do
        let looked_up ← (chunks OBJECT_LOOKUP_CHUNK
          (missing_names client s.object_cache names)).mapM (lookup_chunk client db)
        pure (resolved_names client s.object_cache names.eraseDups ++ looked_up.flatten) :
          Reads (List (String × Option PlsqlObjectRecord))).run.run s := rfl

theorem missing_uncontested :
    Uncontested client db (missing_names client c names) c := by
  intro name hname value hvalue
  have hnone := (List.mem_filter.mp hname).2
  rw [hvalue] at hnone
  cases hnone

theorem mem_missing_names {name : String} : name ∈ missing_names client c names ↔
    name ∈ names ∧ c.lookup (object_id client.project_id name) = none := by
  simp [missing_names, List.mem_filter]

/-- The names of the chunks are the missing ones. -/
theorem mem_missing_chunks {name : String} :
    name ∈ (chunks OBJECT_LOOKUP_CHUNK (missing_names client c names)).flatten ↔
      name ∈ names ∧ c.lookup (object_id client.project_id name) = none :=
  (mem_chunks (by decide)).trans mem_missing_names

/-- What a name stands for with these objects cached. -/
def known_record (client : AnalysisClient) (db : AnalysisGraph) (c : ObjectCache)
    (name : String) : Option PlsqlObjectRecord :=
  (c.lookup (object_id client.project_id name)).getD (first_record client db name)

/-- The chunks, and what they find of each name. -/
theorem looked_up {found : List (List (String × Option PlsqlObjectRecord))}
    (hrun : ((chunks OBJECT_LOOKUP_CHUNK (missing_names client s.object_cache names)).mapM
      (lookup_chunk client db)).run.run s = (.ok found, s')) :
    Learns client db s s' ∧ ∀ name,
      (resolved_names client s.object_cache names.eraseDups ++ found.flatten).lookup name =
          (if name ∈ names then some (known_record client db s.object_cache name) else none) ∧
        (name ∈ names → s'.object_cache.lookup (object_id client.project_id name) =
          some (known_record client db s.object_cache name)) := by
  obtain ⟨hlearns, hall⟩ := @lookup_chunks_run client db s
    (missing_names client s.object_cache names)
    (chunks OBJECT_LOOKUP_CHUNK (missing_names client s.object_cache names))
    (fun piece hpiece name hname =>
      (mem_chunks (by decide)).mp (List.mem_flatten.mpr ⟨piece, hpiece, hname⟩))
    missing_uncontested
  rw [hrun] at hlearns
  obtain ⟨hfound, hcached⟩ := hall found s' hrun
  refine ⟨hlearns, fun name => ?_⟩
  rw [lookup_append, lookup_resolved_names, hfound, lookup_map_self, known_record]
  simp only [List.mem_eraseDups, mem_missing_chunks]
  by_cases hname : name ∈ names
  · rw [if_pos hname, if_pos hname]
    cases hlookup : s.object_cache.lookup (object_id client.project_id name) with
    | none =>
      have hmissing := mem_missing_chunks.mpr ⟨hname, hlookup⟩
      exact ⟨by simp [hname], fun _ => hcached name hmissing⟩
    | some value => exact ⟨by simp, fun _ => hlearns.grows _ _ hlookup⟩
  · simp [hname]

/-- Looking names up caches them, and each is found as it is cached. -/
theorem objects_by_qualified_name_run (names : List String) (s : ClientState) :
    Learns client db s ((objects_by_qualified_name client db names).run.run s).2 ∧
      ∀ records s', (objects_by_qualified_name client db names).run.run s = (.ok records, s') →
        ∀ name, if name ∈ names then
          ∃ value, s'.object_cache.lookup (object_id client.project_id name) = some value ∧
            records.lookup name = some value
        else records.lookup name = none := by
  rw [objects_by_qualified_name_eq, run_bind]
  rcases hrun : ((chunks OBJECT_LOOKUP_CHUNK (missing_names client s.object_cache names)).mapM
      (lookup_chunk client db)).run.run s with ⟨e | found, s₁⟩
  · have hlearns := (@lookup_chunks_run client db s (missing_names client s.object_cache names)
      (chunks OBJECT_LOOKUP_CHUNK (missing_names client s.object_cache names))
      (fun piece hpiece name hname =>
        (mem_chunks (by decide)).mp (List.mem_flatten.mpr ⟨piece, hpiece, hname⟩))
      missing_uncontested).1
    rw [hrun] at hlearns
    refine ⟨hlearns, fun records s' h => ?_⟩
    cases h
  · obtain ⟨hlearns, hall⟩ := looked_up hrun
    refine ⟨hlearns, fun records s' h name => ?_⟩
    cases h
    obtain ⟨hlookup, hcached⟩ := hall name
    by_cases hname : name ∈ names
    · rw [if_pos hname] at hlookup ⊢
      exact ⟨_, hcached hname, hlookup⟩
    · rw [if_neg hname] at hlookup ⊢
      exact hlookup

/-- Names that are cached are found without a query. -/
theorem objects_by_qualified_name_cached {names : List String} {s : ClientState}
    (h : ∀ name ∈ names,
      (s.object_cache.lookup (object_id client.project_id name)).isSome = true) :
    ∃ records, (objects_by_qualified_name client db names).run.run s = (.ok records, s) := by
  have hnone : missing_names client s.object_cache names = [] := by
    refine List.filter_eq_nil_iff.mpr fun name hname => ?_
    have hsome := h name (List.mem_eraseDups.mp hname)
    rw [Option.isSome_iff_ne_none] at hsome
    simpa using hsome
  rw [objects_by_qualified_name_eq, hnone]
  exact ⟨_, rfl⟩

/-- Each name is found as it is known. -/
theorem objects_by_qualified_name_known {records : List (String × Option PlsqlObjectRecord)}
    (h : (objects_by_qualified_name client db names).run.run s = (.ok records, s')) {name : String}
    (hname : name ∈ names) :
    records.lookup name = some (known_record client db s.object_cache name) := by
  rw [objects_by_qualified_name_eq] at h
  obtain ⟨found, s₁, hrun, hpure⟩ := of_run_bind_ok h
  cases hpure
  rw [((looked_up hrun).2 name).1, if_pos hname]

/-- Names whose nodes can be read where they are not cached are all looked up. -/
theorem objects_by_qualified_name_ok
    (hread : ∀ name ∈ names, s.object_cache.lookup (object_id client.project_id name) = none →
      ∀ node ∈ db.objects, node.projectId = some client.project_id →
        node.qualifiedName = some name → ∃ record,
          object_from_node client.project_id node (client.file_map db) = .ok record) :
    ∃ records s', (objects_by_qualified_name client db names).run.run s = (.ok records, s') := by
  obtain ⟨found, s', hfound⟩ := @lookup_chunks_ok client db s
    (chunks OBJECT_LOOKUP_CHUNK (missing_names client s.object_cache names))
    fun piece hpiece node hnode => by
      obtain ⟨hmem, hholds⟩ := List.mem_filter.mp ((List.mem_insertionSort _).mp hnode)
      obtain ⟨hobject, hproject⟩ := List.mem_filter.mp hmem
      cases hqualified : node.qualifiedName with
      | none => simp [holds, hqualified] at hholds
      | some name =>
        have hname : name ∈ piece := by simpa [holds, hqualified] using hholds
        obtain ⟨hnames, hmissing⟩ :=
          mem_missing_chunks.mp (List.mem_flatten.mpr ⟨piece, hpiece, hname⟩)
        exact hread name hnames hmissing node hobject (by simpa using hproject) hqualified
  rw [objects_by_qualified_name_eq, run_bind_ok hfound]
  exact ⟨_, _, rfl⟩

end lagraph.plsql
