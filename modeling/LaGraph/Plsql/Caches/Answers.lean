import LaGraph.Foundation.Results
import LaGraph.Plsql.Caches.Lookups

open foundation foundation.Stateful

namespace lagraph.plsql

/-- The lookups of objects on one client. -/
inductive Lookup
  | get_object (object_id : String)
  | objects_by_qualified_name (names : List String)

variable {client : AnalysisClient} {db : AnalysisGraph} {s s' : ClientState} {c c' : ObjectCache}
  {name : String} {value : Option PlsqlObjectRecord}

/-- The records that a lookup finds, by qualified name. -/
def Lookup.perform (client : AnalysisClient) (db : AnalysisGraph) :
    Lookup → Reads (List (String × Option PlsqlObjectRecord))
  | .get_object object_id => do
    let record ← Reads.get_object client db object_id
    pure ((qualified_name_from_object_id object_id).map fun name => (name, record)).toList
  | .objects_by_qualified_name names => plsql.objects_by_qualified_name client db names

/-- What lookups that follow one another find; one that raises finds nothing. -/
def resolved_by (client : AnalysisClient) (db : AnalysisGraph) (s : ClientState) :
    List Lookup → List (List (String × Option PlsqlObjectRecord))
  | [] => []
  | lookup :: lookups =>
    match (lookup.perform client db).run.run s with
    | (.ok found, s') => found :: resolved_by client db s' lookups
    | (.error _, s') => resolved_by client db s' lookups

/-- A qualified name resolves to one record, whatever was looked up before. -/
def Settled (client : AnalysisClient) (db : AnalysisGraph) : Prop :=
  ∀ lookups lookups' : List Lookup, ∀ found ∈ resolved_by client db .init lookups,
    ∀ found' ∈ resolved_by client db .init lookups', ∀ name value value',
    found.lookup name = some value → found'.lookup name = some value' → value = value'

/-- The rows of a qualified name. -/
def rows_of (client : AnalysisClient) (db : AnalysisGraph) (name : String) : List DatabaseObject :=
  OBJECTS_BY_QUALIFIED_NAMES db.toGraphDb client.project_id [name]

/-- The first row of the name has a record, or no row of it has one, unless one of them
cannot be read. -/
def FirstRowDecides (client : AnalysisClient) (db : AnalysisGraph) (name : String) : Prop :=
  ∀ node ∈ (rows_of client db name).head?,
    object_from_node client.project_id node (client.file_map db) = .ok none →
    (∀ other ∈ rows_of client db name, ∃ record,
      object_from_node client.project_id other (client.file_map db) = .ok record) →
    ∀ other ∈ rows_of client db name,
      object_from_node client.project_id other (client.file_map db) = .ok none

/-- What the single lookup makes of a name. -/
def single_record (client : AnalysisClient) (db : AnalysisGraph) (name : String) :
    Except Raised (Option PlsqlObjectRecord) :=
  match (rows_of client db name).head? with
  | none => .ok none
  | some node => object_from_node client.project_id node (client.file_map db)

/-- A record that one of the lookups resolves the name to. -/
inductive Resolves (client : AnalysisClient) (db : AnalysisGraph) (name : String)
    (value : Option PlsqlObjectRecord) : Prop
  | single (h : single_record client db name = .ok value)
  | batch (hreadable : ∀ node ∈ rows_of client db name, ∃ record,
      object_from_node client.project_id node (client.file_map db) = .ok record)
    (h : first_record client db name = value)

/-- The cache holds such records only. -/
def ResolvedCache (client : AnalysisClient) (db : AnalysisGraph) (s : ClientState) : Prop :=
  ∀ key value, s.object_cache.lookup key = some value →
    ∀ name ∈ qualified_name_from_object_id key, Resolves client db name value

theorem get_object_single (object_id : String) :
    plsql.get_object client.toNeo4jPlsqlAnalysisClient db.toGraphDb c object_id =
      match c.lookup object_id with
      | some record => .ok (record, c)
      | none =>
        ((match qualified_name_from_object_id object_id with
          | none => .ok none
          | some name => single_record client db name : Except Raised _)).map
            fun record => (record, (object_id, record) :: c) := by
  rw [plsql.get_object]
  cases c.lookup object_id with
  | some record => rfl
  | none =>
    cases qualified_name_from_object_id object_id with
    | none => rfl
    | some name =>
      simp only [single_record, rows_of, object_by_qualified_name_eq]
      cases OBJECTS_BY_QUALIFIED_NAMES db.toGraphDb client.project_id [name] with
      | nil => rfl
      | cons node rest =>
        simp only [List.take_succ_cons, List.head?_cons, AnalysisClient.file_map]
        cases object_from_node client.project_id node (file_map db.toGraphDb client.project_id) with
        | error e => rfl
        | ok record => rfl

/-- A single lookup caches what it resolves to. -/
theorem get_object_resolves (object_id : String) :
    Guarantees (fun s s' => ResolvedCache client db s → ResolvedCache client db s')
      (Reads.get_object client db object_id) := by
  intro s hs
  rw [get_object_run, get_object_single]
  cases hlookup : s.object_cache.lookup object_id with
  | some record => exact hs
  | none =>
    cases hname : qualified_name_from_object_id object_id with
    | none =>
      intro key value hvalue name hdecoded
      by_cases hkey : key = object_id
      · rw [hkey, hname] at hdecoded
        cases hdecoded
      · exact hs key value (by rwa [Except.map, lookup_cons_other hkey] at hvalue) name hdecoded
    | some found =>
      cases hrecord : single_record client db found with
      | error e =>
        simp only [hrecord, Except.map]
        exact hs
      | ok record =>
        simp only [hrecord, Except.map]
        intro key value hvalue name hdecoded
        by_cases hkey : key = object_id
        · rw [hkey, hname] at hdecoded
          rw [hkey, lookup_cons_self] at hvalue
          cases hdecoded
          cases hvalue
          exact .single hrecord
        · exact hs key value (by rwa [lookup_cons_other hkey] at hvalue) name hdecoded

/-- The rows of each name of a chunk that returns can be read. -/
theorem readable_of_chunk {names : List String} {found : List (String × PlsqlObjectRecord)}
    (h : records_found client.project_id (client.file_map db)
      (OBJECTS_BY_QUALIFIED_NAMES db.toGraphDb client.project_id names) = .ok found)
    (hname : name ∈ names) : ∀ node ∈ rows_of client db name, ∃ record,
      object_from_node client.project_id node (client.file_map db) = .ok record := by
  obtain ⟨records, hrecords, -⟩ := results.bind_ok.mp h
  intro node hnode
  rw [rows_of, ← filter_objects_by_qualified_names hname] at hnode
  exact results.ok_of_mapM hrecords node (List.mem_of_mem_filter hnode)

/-- So does a batch, chunk by chunk. -/
theorem lookup_chunk_resolves (names : List String) :
    Guarantees (fun s s' => ResolvedCache client db s → ResolvedCache client db s')
      (lookup_chunk client db names) := by
  intro s hs
  rcases @lookup_chunk_run client db names s with ⟨e, herror⟩ | hok
  · rw [herror]
    exact hs
  · rw [hok]
    intro key value hvalue name hdecoded
    change (cached_names client (first_record client db) names s.object_cache).lookup key =
      some value at hvalue
    by_cases hkey : ∃ name ∈ names, key = object_id client.project_id name
    · obtain ⟨found, hmem, rfl⟩ := hkey
      rw [qualified_name_of_object_id] at hdecoded
      cases hdecoded
      rw [lookup_cached_names, if_pos hmem] at hvalue
      refine .batch ?_ (Option.some.inj hvalue)
      cases hfound : records_found client.project_id (client.file_map db)
          (OBJECTS_BY_QUALIFIED_NAMES db.toGraphDb client.project_id names) with
      | ok found => exact readable_of_chunk hfound hmem
      | error e =>
        rw [lookup_chunk, run_bind_error (e := e) (by rw [run_lift, hfound])] at hok
        cases hok
    · push Not at hkey
      rw [lookup_cached_names_other hkey] at hvalue
      exact hs key value hvalue name hdecoded

theorem objects_by_qualified_name_resolves (names : List String) :
    Guarantees (fun s s' => ResolvedCache client db s → ResolvedCache client db s')
      (objects_by_qualified_name client db names) := by
  intro s
  rw [objects_by_qualified_name_eq]
  exact Guarantees.bind (fun _ _ _ h h' hs => h' (h hs))
    (.mapM (fun _ hs => hs) (fun _ _ _ h h' hs => h' (h hs)) lookup_chunk_resolves _)
    (fun _ => .pure (fun _ hs => hs) _) s

theorem perform_resolves (lookup : Lookup) :
    Guarantees (fun s s' => ResolvedCache client db s → ResolvedCache client db s')
      (lookup.perform client db) := by
  cases lookup with
  | get_object object_id =>
    exact .bind (fun _ _ _ h h' hs => h' (h hs)) (get_object_resolves object_id)
      fun _ => .pure (fun _ hs => hs) _
  | objects_by_qualified_name names => exact objects_by_qualified_name_resolves names

/-- A lookup finds what the cache holds afterwards. -/
theorem perform_found {lookup : Lookup} {found : List (String × Option PlsqlObjectRecord)}
    (hs : ResolvedCache client db s)
    (h : (lookup.perform client db).run.run s = (.ok found, s'))
    (hvalue : found.lookup name = some value) : Resolves client db name value := by
  have hcache : ResolvedCache client db s' := by
    have hkept := perform_resolves lookup s hs
    rwa [h] at hkept
  cases lookup with
  | get_object object_id =>
    obtain ⟨record, s₁, hget, hrest⟩ := of_run_bind_ok h
    cases hrest
    have hlookup := get_object_again hget
    cases hname : qualified_name_from_object_id object_id with
    | none => simp [hname] at hvalue
    | some found =>
      by_cases hsame : name = found
      · subst hsame
        simp [hname] at hvalue
        rw [← hvalue]
        exact hcache object_id record hlookup name hname
      · have hbeq : (name == found) = false := by simpa using hsame
        simp [hname, List.lookup_cons, hbeq] at hvalue
  | objects_by_qualified_name names =>
    have hall := (objects_by_qualified_name_run names s).2 found s' h name
    split_ifs at hall
    · obtain ⟨cached, hcached, hlookup⟩ := hall
      rw [hvalue] at hlookup
      cases hlookup
      exact hcache _ value hcached name (qualified_name_of_object_id client.project_id name)
    · cases hall.symm.trans hvalue

/-- Whatever was looked up before, a name resolves to what one of the lookups makes of it. -/
theorem resolved_by_resolves (hs : ResolvedCache client db s) (lookups : List Lookup) :
    ∀ found ∈ resolved_by client db s lookups, ∀ name value,
      found.lookup name = some value → Resolves client db name value := by
  induction lookups generalizing s with
  | nil => exact fun found hfound => absurd hfound List.not_mem_nil
  | cons lookup lookups ih =>
    have hkept := perform_resolves lookup s hs
    rw [resolved_by]
    rcases hrun : (lookup.perform client db).run.run s with ⟨e | first, s'⟩
    · rw [hrun] at hkept
      exact ih hkept
    · rw [hrun] at hkept
      intro found hfound name value hvalue
      cases List.mem_cons.mp hfound with
      | inl hfirst =>
        rw [hfirst] at hvalue
        exact perform_found hs hrun hvalue
      | inr hfound => exact ih hkept found hfound name value hvalue

theorem first_record_of_cons {node : DatabaseObject} {rest : List DatabaseObject}
    (hrows : rows_of client db name = node :: rest) :
    first_record client db name = (node :: rest).findSome? (mapped client db) := by
  rw [first_record]
  exact congrArg _ hrows

/-- With the first row deciding, both lookups resolve the name to the same record. -/
theorem Resolves.batch_eq (h : FirstRowDecides client db name)
    (hsingle : single_record client db name = .ok value)
    (hreadable : ∀ node ∈ rows_of client db name, ∃ record,
      object_from_node client.project_id node (client.file_map db) = .ok record) :
    first_record client db name = value := by
  rw [single_record] at hsingle
  cases hrows : rows_of client db name with
  | nil =>
    rw [hrows] at hsingle
    cases hsingle
    rw [first_record]
    exact congrArg (List.findSome? _) hrows
  | cons node rest =>
    rw [first_record_of_cons hrows]
    rw [hrows] at hsingle
    cases value with
    | some record => rw [List.findSome?_cons, mapped_eq_some.mpr hsingle]
    | none =>
      have hnone := h node (by rw [hrows]; rfl) hsingle hreadable
      rw [hrows] at hnone
      rw [List.findSome?_eq_none_iff]
      intro other hother
      rw [mapped, hnone other hother]
      rfl

theorem Resolves.unique {value' : Option PlsqlObjectRecord} (h : FirstRowDecides client db name)
    (hvalue : Resolves client db name value) (hvalue' : Resolves client db name value') :
    value = value' := by
  cases hvalue with
  | single hsingle =>
    cases hvalue' with
    | single hsingle' => exact Except.ok.inj (hsingle.symm.trans hsingle')
    | batch hreadable hbatch => exact (Resolves.batch_eq h hsingle hreadable).symm.trans hbatch
  | batch hreadable hbatch =>
    cases hvalue' with
    | single hsingle => exact hbatch.symm.trans (Resolves.batch_eq h hsingle hreadable)
    | batch _ hbatch' => exact hbatch.symm.trans hbatch'

/-- What the single lookup finds on a fresh client. -/
theorem resolved_by_single (h : single_record client db name = .ok value) :
    [(name, value)] ∈ resolved_by client db .init
      [.get_object (object_id client.project_id name)] := by
  have hget : (Reads.get_object client db (object_id client.project_id name)).run.run .init =
      (.ok value, { ClientState.init with
        object_cache := [(object_id client.project_id name, value)] }) := by
    rw [get_object_run, get_object_single, qualified_name_of_object_id]
    simp only [ClientState.init, List.lookup_nil, h, Except.map]
  have hperform := run_bind_ok (f := fun record =>
    (pure ((qualified_name_from_object_id (object_id client.project_id name)).map fun name =>
      (name, record)).toList : Reads _)) hget
  rw [resolved_by, Lookup.perform, hperform, qualified_name_of_object_id]
  exact List.mem_cons_self

theorem lookup_chunk_readable (hreadable : ∀ node ∈ rows_of client db name, ∃ record,
    object_from_node client.project_id node (client.file_map db) = .ok record) :
    (lookup_chunk client db [name]).run.run s =
      (.ok [(name, first_record client db name)], s.knowing client db [name]) :=
  lookup_chunk_ok hreadable

/-- What the batch finds on a fresh client. -/
theorem resolved_by_batch (hreadable : ∀ node ∈ rows_of client db name, ∃ record,
    object_from_node client.project_id node (client.file_map db) = .ok record) :
    ∃ found ∈ resolved_by client db .init [.objects_by_qualified_name [name]],
      found.lookup name = some (first_record client db name) := by
  have hmissing : missing_names client ClientState.init.object_cache [name] = [name] := by
    simp [missing_names, ClientState.init, List.eraseDups_cons]
  have hchunks : chunks OBJECT_LOOKUP_CHUNK [name] = [[name]] := by
    simp [chunks, OBJECT_LOOKUP_CHUNK]
  have hlooked : ([[name]].mapM (lookup_chunk client db)).run.run .init =
      (.ok [[(name, first_record client db name)]],
        ClientState.init.knowing client db [name]) := by
    rw [List.mapM_cons, run_bind_ok (lookup_chunk_readable hreadable), List.mapM_nil]
    rfl
  have hrun : (objects_by_qualified_name client db [name]).run.run .init =
      (.ok [(name, first_record client db name)], ClientState.init.knowing client db [name]) := by
    rw [objects_by_qualified_name_eq, hmissing, hchunks, run_bind_ok hlooked, run_pure]
    simp [resolved_names, ClientState.init, List.eraseDups_cons]
  refine ⟨[(name, first_record client db name)], ?_, by simp⟩
  rw [resolved_by, Lookup.perform, hrun]
  exact List.mem_cons_self

theorem Settled.decides (h : Settled client db) : FirstRowDecides client db name := by
  intro node hnode hnone hreadable other hother
  have hsingle : single_record client db name = .ok none := by
    rw [single_record, hnode]
    exact hnone
  obtain ⟨found, hfound, hlookup⟩ := resolved_by_batch hreadable
  have hsame := h _ _ _ (resolved_by_single hsingle) found hfound name none _ (by simp) hlookup
  obtain ⟨record, hrecord⟩ := hreadable other hother
  have hunmapped := List.findSome?_eq_none_iff.mp hsame.symm other hother
  cases record with
  | none => exact hrecord
  | some record =>
    rw [mapped_eq_some.mpr hrecord] at hunmapped
    cases hunmapped

/-- A qualified name resolves to one record, whichever lookup comes first, exactly when its
first row decides. -/
theorem settled_iff : Settled client db ↔ ∀ name, FirstRowDecides client db name := by
  have hinit : ResolvedCache client db .init := fun key value hvalue => by cases hvalue
  constructor
  · exact fun h name => h.decides
  · intro h lookups lookups' found hfound found' hfound' name value value' hvalue hvalue'
    exact (resolved_by_resolves hinit lookups found hfound name value hvalue).unique (h name)
      (resolved_by_resolves hinit lookups' found' hfound' name value' hvalue')

/-- Two nodes of one name, the first without the label of a kind. -/
def twin_nodes : AnalysisGraph where
  objects :=
    [{ labels := ["DatabaseObject"], projectId := some "p", qualifiedName := some "HR.PAY",
       name := none },
     { labels := ["DatabaseObject", "Procedure"], projectId := some "p",
       qualifiedName := some "HR.PAY", name := none }]
  files := []
  relationships := []
  declarations := []

def twin_client : AnalysisClient where
  toNeo4jPlsqlAnalysisClient := .init "p" 200 5 20000
  source_root := none
  max_source_bytes := 262144
  impact_cache_ttl := 0
  impact_cache_max := 16
  max_source_bytes_pos := default_source_bytes_pos
  impact_cache_max_pos := default_cache_entries_pos

/-- The single lookup finds no record where the batch finds one. -/
theorem twins_unsettled : ¬ ∀ client db, Settled client db := by
  intro h
  have hdecides := @Settled.decides twin_client twin_nodes "HR.PAY" (h twin_client twin_nodes)
  have hsplit : ∃ node ∈ (rows_of twin_client twin_nodes "HR.PAY").head?,
      object_from_node "p" node (twin_client.file_map twin_nodes) = .ok none ∧
      (∀ other ∈ rows_of twin_client twin_nodes "HR.PAY",
        (object_from_node "p" other (twin_client.file_map twin_nodes)).isOk = true) ∧
      ∃ other ∈ rows_of twin_client twin_nodes "HR.PAY",
        object_from_node "p" other (twin_client.file_map twin_nodes) ≠ .ok none := by
    decide +kernel
  obtain ⟨node, hnode, hnone, hreadable, other, hother, hsome⟩ := hsplit
  refine hsome (hdecides node hnode hnone (fun other hother => ?_) other hother)
  have hok := hreadable other hother
  cases hrecord : object_from_node "p" other (twin_client.file_map twin_nodes) with
  | ok record => exact ⟨record, hrecord⟩
  | error e => simp [hrecord, Except.isOk, Except.toBool] at hok

end lagraph.plsql
