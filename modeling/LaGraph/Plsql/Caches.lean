import LaGraph.Foundation.Guarantees
import LaGraph.Foundation.SortedSets
import LaGraph.Plsql.Client
import LaGraph.Plsql.Identifiers

open foundation foundation.Stateful

namespace lagraph.plsql

variable {client : AnalysisClient} {db : AnalysisGraph}

section Identifiers

/-- An id tells the edge when the names of the sources do not contain the separator. -/
theorem EdgeTriple.id_injective {project_id : String} {e f : EdgeTriple}
    (he : '\x1f' ∉ e.source.toList) (hf : '\x1f' ∉ f.source.toList)
    (h : e.id project_id = f.id project_id) : e = f := by
  have hname (r : PlsqlRelationship) : '\x1f' ∉ r.name.toList := by cases r <;> decide
  have hpayload (e : EdgeTriple) :
      unit_separator.intercalate [e.relationship.name, e.source, e.target] =
        e.relationship.name ++ unit_separator ++ e.source ++ unit_separator ++ e.target := rfl
  have hseparator : unit_separator.toList = ['\x1f'] := rfl
  have hparts := congrArg String.toList (b64e_injective (String.append_right_inj _ |>.mp h))
  simp only [hpayload, String.toList_append, hseparator, List.append_assoc,
    List.singleton_append] at hparts
  obtain ⟨hrelationship, hparts⟩ := text.cut_unique (hname _) (hname _) hparts
  obtain ⟨hsource, htarget⟩ := text.cut_unique he hf hparts
  cases e
  cases f
  rw [EdgeTriple.mk.injEq]
  exact ⟨PlsqlRelationship.name_injective (String.toList_inj.mp hrelationship),
    String.toList_inj.mp hsource, String.toList_inj.mp htarget⟩

end Identifiers

section Records

/-- The record of a node, if it has one. -/
def mapped (client : AnalysisClient) (db : AnalysisGraph) (node : DatabaseObject) :
    Option PlsqlObjectRecord :=
  (object_from_node client.project_id node (client.file_map db)).toOption.join

/-- The record that a qualified name stands for: that of the first of its nodes that has
one. -/
def first_record (client : AnalysisClient) (db : AnalysisGraph) (qualified_name : String) :
    Option PlsqlObjectRecord :=
  (OBJECTS_BY_QUALIFIED_NAMES db.toGraphDb client.project_id [qualified_name]).findSome?
    (mapped client db)

theorem object_from_node_name {project_id : String} {node : DatabaseObject}
    {file_paths : List (String × String)} {record : PlsqlObjectRecord}
    (h : object_from_node project_id node file_paths = .ok (some record)) :
    node.qualifiedName = some record.qualified_name ∧
      record.id = object_id project_id record.qualified_name := by
  unfold object_from_node at h
  split at h
  · rename_i kind qualified hkind hqualified
    split at h
    · cases h
    · cases hpath : resolve_path_sync (str_or_none node.coordinates.sourceFileId) file_paths with
      | error e => simp [hpath, Bind.bind, Except.bind] at h
      | ok path =>
        simp only [hpath, Bind.bind, Except.bind, Except.ok.injEq, Option.some.injEq] at h
        subst h
        exact ⟨hqualified, rfl⟩
  · cases h

theorem mapped_eq_some {node : DatabaseObject} {record : PlsqlObjectRecord} :
    mapped client db node = some record ↔
      object_from_node client.project_id node (client.file_map db) = .ok (some record) := by
  unfold mapped
  cases object_from_node client.project_id node (client.file_map db) with
  | error e => simp [Except.toOption]
  | ok found => cases found <;> simp [Except.toOption]

instance : IsTrans DatabaseObject fun a b => synonym_rank a ≤ synonym_rank b where
  trans _ _ _ hab hbc := le_trans hab hbc

instance : Std.Total fun a b : DatabaseObject => synonym_rank a ≤ synonym_rank b where
  total a b := le_total (synonym_rank a) (synonym_rank b)

/-- The rows of one name among those of several. -/
theorem filter_objects_by_qualified_names {project_id : String} {names : List String}
    {name : String} (hname : name ∈ names) :
    (OBJECTS_BY_QUALIFIED_NAMES db.toGraphDb project_id names).filter
        (fun node => node.qualifiedName = some name) =
      OBJECTS_BY_QUALIFIED_NAMES db.toGraphDb project_id [name] := by
  unfold OBJECTS_BY_QUALIFIED_NAMES
  rw [sorted.filter_insertionSort, List.filter_filter]
  congr 1
  refine List.filter_congr fun node _ => ?_
  cases hqualified : node.qualifiedName with
  | none => simp [holds]
  | some qualified =>
    by_cases heq : qualified = name
    · simp [holds, heq, hname]
    · simp [holds, heq]

theorem object_by_qualified_name_eq {project_id qualified_name : String} :
    OBJECT_BY_QUALIFIED_NAME db.toGraphDb project_id qualified_name =
      (OBJECTS_BY_QUALIFIED_NAMES db.toGraphDb project_id [qualified_name]).take 1 := by
  have hrows : (db.objects.filter fun n => n.projectId = some project_id ∧
        n.qualifiedName = some qualified_name) =
      (project_objects db.toGraphDb project_id).filter fun n =>
        holds [qualified_name].contains n.qualifiedName := by
    rw [project_objects, List.filter_filter]
    refine List.filter_congr fun node _ => ?_
    cases hqualified : node.qualifiedName with
    | none => simp [holds]
    | some qualified => simp [holds, and_comm]
  rw [OBJECTS_BY_QUALIFIED_NAMES, ← hrows]
  rfl

/-- The record of a single lookup is the one its name stands for. -/
theorem first_record_of_single {qualified_name : String} {node : DatabaseObject}
    {rest : List DatabaseObject} {record : PlsqlObjectRecord}
    (hrows : OBJECT_BY_QUALIFIED_NAME db.toGraphDb client.project_id qualified_name = node :: rest)
    (hrecord : object_from_node client.project_id node (client.file_map db) = .ok (some record)) :
    record.qualified_name = qualified_name ∧
      first_record client db record.qualified_name = some record := by
  have hname := (object_from_node_name hrecord).1
  rw [object_by_qualified_name_eq] at hrows
  have hmem : node ∈ OBJECTS_BY_QUALIFIED_NAMES db.toGraphDb client.project_id [qualified_name] := by
    refine List.mem_of_mem_take (i := 1) ?_
    rw [hrows]
    exact List.mem_cons_self
  have hqualified : node.qualifiedName = some qualified_name := by
    have hholds := (List.mem_filter.mp ((List.mem_insertionSort _).mp hmem)).2
    cases hnode : node.qualifiedName with
    | none => simp [holds, hnode] at hholds
    | some found => simpa [holds, hnode] using hholds
  have heq : record.qualified_name = qualified_name :=
    Option.some.inj (hname.symm.trans hqualified)
  refine ⟨heq, ?_⟩
  rw [heq, first_record]
  cases hall : OBJECTS_BY_QUALIFIED_NAMES db.toGraphDb client.project_id [qualified_name] with
  | nil =>
    rw [hall] at hmem
    cases hmem
  | cons first others =>
    rw [hall] at hrows
    obtain ⟨rfl, -⟩ := List.cons.inj hrows
    rw [List.findSome?_cons, mapped_eq_some.mpr hrecord]

theorem lookup_records {rows : List DatabaseObject}
    {found : List (String × PlsqlObjectRecord)} {name : String}
    (h : records_found client.project_id (client.file_map db) rows = .ok found) :
    found.lookup name =
      (rows.filter fun node => node.qualifiedName = some name).findSome? (mapped client db) := by
  induction rows generalizing found with
  | nil =>
    cases h
    rfl
  | cons node rows ih =>
    unfold records_found at h
    rw [List.mapM_cons] at h
    cases hnode : object_from_node client.project_id node (client.file_map db) with
    | error e => simp [hnode, Bind.bind, Except.bind] at h
    | ok record =>
      cases hrest : rows.mapM fun node =>
          object_from_node client.project_id node (client.file_map db) with
      | error e => simp [hnode, hrest, Bind.bind, Except.bind] at h
      | ok records =>
        simp only [hnode, hrest, Bind.bind, Except.bind, Pure.pure, Except.pure,
          Except.ok.injEq] at h
        have htail : records_found client.project_id (client.file_map db) rows =
            .ok (records.filterMap fun record =>
              record.map fun record => (record.qualified_name, record)) := by
          simp only [records_found, hrest, Bind.bind, Except.bind]
        rw [← h, List.filter_cons, List.filterMap_cons]
        cases record with
        | none =>
          have hmapped : mapped client db node = none := by
            simp [mapped, hnode, Except.toOption]
          split_ifs
          · rw [List.findSome?_cons, hmapped]
            exact ih htail
          · exact ih htail
        | some record =>
          have hname := (object_from_node_name hnode).1
          rw [hname]
          by_cases heq : record.qualified_name = name
          · simp [heq, mapped_eq_some.mpr hnode]
          · have hne : (name == record.qualified_name) = false := by
              simpa using fun h => heq h.symm
            simp only [Option.map_some, List.lookup_cons, hne, Option.some.injEq, heq,
              decide_false, Bool.false_eq_true, if_false]
            exact ih htail

/-- Each name of a chunk finds the record it stands for. -/
theorem lookup_chunk_records {names : List String} {found : List (String × PlsqlObjectRecord)}
    {name : String} (hname : name ∈ names)
    (h : records_found client.project_id (client.file_map db)
      (OBJECTS_BY_QUALIFIED_NAMES db.toGraphDb client.project_id names) = .ok found) :
    found.lookup name = first_record client db name := by
  rw [lookup_records h, filter_objects_by_qualified_names hname]
  rfl

end Records

section Objects

variable {c c' : ObjectCache} {s s' : ClientState} {key : String}

/-- What is cached stays cached. -/
def Extends (c c' : ObjectCache) : Prop :=
  ∀ key value, c.lookup key = some value → c'.lookup key = some value

theorem Extends.refl (c : ObjectCache) : Extends c c :=
  fun _ _ h => h

theorem Extends.trans {c'' : ObjectCache} (h : Extends c c') (h' : Extends c' c'') :
    Extends c c'' :=
  fun key value hvalue => h' key value (h key value hvalue)

theorem lookup_cons_self {value : Option PlsqlObjectRecord} :
    List.lookup key ((key, value) :: c) = some value := by
  simp

theorem lookup_cons_other {k : String} {value : Option PlsqlObjectRecord} (hne : key ≠ k) :
    List.lookup key ((k, value) :: c) = c.lookup key := by
  have hbeq : (key == k) = false := by simpa using hne
  rw [List.lookup_cons, hbeq]

theorem Extends.cons {value : Option PlsqlObjectRecord} (hfresh : c.lookup key = none) :
    Extends c ((key, value) :: c) := by
  intro k v hv
  by_cases hk : k = key
  · rw [hk, hfresh] at hv
    cases hv
  · rw [lookup_cons_other hk]
    exact hv

/-- The cached records are the ones their names stand for. -/
def SoundObjects (client : AnalysisClient) (db : AnalysisGraph) (c : ObjectCache) : Prop :=
  ∀ key record, c.lookup key = some (some record) →
    first_record client db record.qualified_name = some record

theorem SoundObjects.cons {value : Option PlsqlObjectRecord} (h : SoundObjects client db c)
    (hvalue : ∀ record, value = some record →
      first_record client db record.qualified_name = some record) :
    SoundObjects client db ((key, value) :: c) := by
  intro k record hk
  by_cases hkey : k = key
  · rw [hkey, lookup_cons_self] at hk
    exact hvalue record (Option.some.inj hk)
  · rw [lookup_cons_other hkey] at hk
    exact h k record hk

/-- A state after which only more objects are cached. -/
structure Learns (client : AnalysisClient) (db : AnalysisGraph) (s s' : ClientState) : Prop where
  grows : Extends s.object_cache s'.object_cache
  sound : SoundObjects client db s.object_cache → SoundObjects client db s'.object_cache
  impacts : s'.impact_cache = s.impact_cache

theorem Learns.refl (s : ClientState) : Learns client db s s :=
  ⟨Extends.refl _, id, rfl⟩

theorem Learns.trans {s'' : ClientState} (h : Learns client db s s')
    (h' : Learns client db s' s'') : Learns client db s s'' :=
  ⟨h.grows.trans h'.grows, h'.sound ∘ h.sound, h'.impacts.trans h.impacts⟩

/-- What `get_object` makes of the cache. -/
theorem get_object_cache {object_id : String} {record : Option PlsqlObjectRecord}
    (h : plsql.get_object client.toNeo4jPlsqlAnalysisClient db.toGraphDb c object_id =
      .ok (record, c')) :
    Extends c c' ∧ (SoundObjects client db c → SoundObjects client db c') ∧
      c'.lookup object_id = some record := by
  unfold plsql.get_object at h
  cases hlookup : c.lookup object_id with
  | some found =>
    rw [hlookup] at h
    cases h
    exact ⟨Extends.refl c, id, hlookup⟩
  | none =>
    rw [hlookup] at h
    simp only at h
    have hnone : ∀ r : PlsqlObjectRecord, none = some r →
        first_record client db r.qualified_name = some r := fun _ h => by cases h
    cases hname : qualified_name_from_object_id object_id with
    | none =>
      rw [hname] at h
      cases h
      exact ⟨.cons hlookup, fun hsound => hsound.cons hnone, lookup_cons_self⟩
    | some qualified_name =>
      rw [hname] at h
      simp only at h
      cases hrows : OBJECT_BY_QUALIFIED_NAME db.toGraphDb client.project_id qualified_name with
      | nil =>
        rw [hrows] at h
        cases h
        exact ⟨.cons hlookup, fun hsound => hsound.cons hnone, lookup_cons_self⟩
      | cons node rest =>
        rw [hrows] at h
        cases hrecord : object_from_node client.project_id node (client.file_map db) with
        | error e =>
          simp [AnalysisClient.file_map] at hrecord
          simp [hrecord, Bind.bind, Except.bind] at h
        | ok found =>
          have hfound := hrecord
          simp only [AnalysisClient.file_map] at hfound
          simp only [hfound, Bind.bind, Except.bind, Except.ok.injEq, Prod.mk.injEq] at h
          obtain ⟨rfl, rfl⟩ := h
          refine ⟨.cons hlookup, fun hsound => hsound.cons fun r hr => ?_, lookup_cons_self⟩
          rw [hr] at hrecord
          exact (first_record_of_single hrows hrecord).2

theorem get_object_run (object_id : String) :
    (Reads.get_object client db object_id).run.run s =
      match plsql.get_object client.toNeo4jPlsqlAnalysisClient db.toGraphDb s.object_cache
        object_id with
      | .ok (record, cache) => (.ok record, { s with object_cache := cache })
      | .error e => (.error e, s) := by
  change (match plsql.get_object client.toNeo4jPlsqlAnalysisClient db.toGraphDb s.object_cache
      object_id with
    | .ok (record, cache) => (do
        set { s with object_cache := cache }
        pure record : Reads (Option PlsqlObjectRecord))
    | .error raised => throw raised).run.run s = _
  cases plsql.get_object client.toNeo4jPlsqlAnalysisClient db.toGraphDb s.object_cache
      object_id with
  | error e => rfl
  | ok result => rfl

theorem get_object_learns (object_id : String) :
    Guarantees (Learns client db) (Reads.get_object client db object_id) := by
  intro s
  rw [get_object_run]
  cases hget : plsql.get_object client.toNeo4jPlsqlAnalysisClient db.toGraphDb s.object_cache
      object_id with
  | error e => exact .refl s
  | ok result =>
    obtain ⟨hgrows, hsound, -⟩ := get_object_cache hget
    exact ⟨hgrows, hsound, rfl⟩

/-- What was found is found again. -/
theorem get_object_again {object_id : String} {record : Option PlsqlObjectRecord}
    (h : (Reads.get_object client db object_id).run.run s = (.ok record, s')) :
    s'.object_cache.lookup object_id = some record := by
  rw [get_object_run] at h
  cases hget : plsql.get_object client.toNeo4jPlsqlAnalysisClient db.toGraphDb s.object_cache
      object_id with
  | error e =>
    rw [hget] at h
    cases h
  | ok result =>
    rw [hget] at h
    cases h
    exact (get_object_cache hget).2.2

theorem get_object_cached {object_id : String} {record : Option PlsqlObjectRecord}
    (h : s.object_cache.lookup object_id = some record) :
    (Reads.get_object client db object_id).run.run s = (.ok record, s) := by
  rw [get_object_run, plsql.get_object, h]

theorem require_object_learns (object_id : String) :
    Guarantees (Learns client db) (Reads.require_object client db object_id) := by
  unfold Reads.require_object
  refine .bind (R := Learns client db) (fun _ _ _ => .trans) (get_object_learns object_id)
    fun record => ?_
  cases record with
  | none => exact .throw .refl _
  | some record => exact .pure .refl record

theorem require_object_again {object_id : String} {record : PlsqlObjectRecord}
    (h : (Reads.require_object client db object_id).run.run s = (.ok record, s')) :
    s'.object_cache.lookup object_id = some (some record) := by
  obtain ⟨found, s₁, hget, hrest⟩ := of_run_bind_ok h
  cases found with
  | none => cases hrest
  | some found =>
    cases hrest
    exact get_object_again hget

theorem require_object_cached {object_id : String} {record : PlsqlObjectRecord}
    (h : s.object_cache.lookup object_id = some (some record)) :
    (Reads.require_object client db object_id).run.run s = (.ok record, s) := by
  unfold Reads.require_object
  rw [run_bind_ok (get_object_cached h)]
  rfl

end Objects

end lagraph.plsql
