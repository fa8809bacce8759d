import LaGraph.Plsql.Caches.Lookups
import LaGraph.Plsql.Impact

open foundation foundation.Stateful

namespace lagraph.plsql

variable {env : Environment} {client : AnalysisClient} {db : AnalysisGraph}
  {s s' : ClientState} {c c' : ObjectCache} {changed : PlsqlObjectRecord} {hops : Nat}
  {direction : ImpactDirection} {relationships : List PlsqlRelationship} {result : Impact}

/-- With these objects cached, the traversal gives this result and caches nothing. -/
def Computes (env : Environment) (client : AnalysisClient) (db : AnalysisGraph)
    (changed : PlsqlObjectRecord) (hops : Nat) (direction : ImpactDirection)
    (relationships : List PlsqlRelationship) (result : Impact) (c : ObjectCache) : Prop :=
  ∀ s, Extends c s.object_cache →
    (compute_impact env client db changed hops direction relationships).run.run s =
      (.ok result, s)

theorem Computes.mono
    (h : Computes env client db changed hops direction relationships result c)
    (hgrows : Extends c c') :
    Computes env client db changed hops direction relationships result c' :=
  fun s hs => h s (hgrows.trans hs)

/-- The dependents depend on the records only as they are looked up. -/
theorem dependents_congr {anchors : List String} {reached : Reached}
    {records records' : List (String × Option PlsqlObjectRecord)} {others : List (String × Nat)}
    (h : ∀ entry ∈ others, records.lookup entry.1 = records'.lookup entry.1) :
    (others.mapM fun entry =>
        (dependent_of direction anchors hops reached records entry : Except Raised _)) =
      others.mapM fun entry => dependent_of direction anchors hops reached records' entry := by
  induction others with
  | nil => rfl
  | cons entry others ih =>
    have hentry : dependent_of direction anchors hops reached records entry =
        dependent_of direction anchors hops reached records' entry := by
      unfold dependent_of
      rw [h entry List.mem_cons_self]
    rw [List.mapM_cons, List.mapM_cons, hentry, ih fun e he => h e (List.mem_cons_of_mem _ he)]

/-- The result of a search from the records of what it has reached. -/
def impact_from (env : Environment) (client : AnalysisClient) (direction : ImpactDirection)
    (anchors : List String) (hops : Nat) (reached : Reached) (others : List (String × Nat))
    (records : List (String × Option PlsqlObjectRecord)) : Except Raised Impact := do
  let dependents ← others.mapM fun entry =>
    dependent_of direction anchors hops reached records entry
  .ok (impact_result env client (dependents.filterMap id))

/-- What a search has reached besides the changed object. -/
def others_of (changed : PlsqlObjectRecord) (reached : Reached) : List (String × Nat) :=
  reached.distance.filter (·.1 ≠ changed.qualified_name)

theorem impact_rest_run {anchors : List String} {reached : Reached} (s : ClientState)
    (records : List (String × Option PlsqlObjectRecord)) :
    (do
      let dependents ← (others_of changed reached).mapM fun entry =>
        (dependent_of direction anchors hops reached records entry : Except Raised _)
      pure (impact_result env client (dependents.filterMap id)) : Reads Impact).run.run s =
      (impact_from env client direction anchors hops reached (others_of changed reached) records,
        s) := by
  rw [run_bind, run_mapM_lift, impact_from]
  cases (others_of changed reached).mapM fun entry =>
      dependent_of direction anchors hops reached records entry with
  | error e => rfl
  | ok dependents => rfl

theorem compute_impact_eq (s : ClientState) :
    (compute_impact env client db changed hops direction relationships).run.run s =
      match impact_anchors client db changed with
      | .error e => (.error e, s)
      | .ok anchors =>
        match impact_search client db anchors hops direction relationships with
        | .error e => (.error e, s)
        | .ok reached =>
          match (objects_by_qualified_name client db ((others_of changed reached).map
            (·.1))).run.run s with
          | (.error e, s') => (.error e, s')
          | (.ok records, s') =>
            (impact_from env client direction anchors hops reached (others_of changed reached)
              records, s') := by
  unfold compute_impact
  rw [run_bind, run_lift]
  cases impact_anchors client db changed with
  | error e => rfl
  | ok anchors =>
    simp only
    rw [run_bind, run_lift]
    cases impact_search client db anchors hops direction relationships with
    | error e => rfl
    | ok reached =>
      have hothers : (reached.distance.filter fun entry =>
          entry.1 ≠ changed.qualified_name) = others_of changed reached := rfl
      simp only [hothers]
      rw [run_bind]
      cases hobjects : (objects_by_qualified_name client db ((others_of changed reached).map
          (·.1))).run.run s with
      | mk found s' =>
        cases found with
        | error e => rfl
        | ok records => exact impact_rest_run s' records

/-- A traversal caches what it looks up, and gives the same from then on. -/
theorem compute_impact_run (s : ClientState) :
    Learns client db s
        ((compute_impact env client db changed hops direction relationships).run.run s).2 ∧
      ∀ result s', (compute_impact env client db changed hops direction relationships).run.run s =
          (.ok result, s') →
        Computes env client db changed hops direction relationships result s'.object_cache := by
  rw [compute_impact_eq]
  cases hanchors : impact_anchors client db changed with
  | error e => exact ⟨.refl s, fun result s' h => by cases h⟩
  | ok anchors =>
    simp only
    cases hreached : impact_search client db anchors hops direction relationships with
    | error e => exact ⟨.refl s, fun result s' h => by cases h⟩
    | ok reached =>
      simp only
      obtain ⟨hlearns, hfound⟩ := @objects_by_qualified_name_run client db
        ((others_of changed reached).map (·.1)) s
      cases hobjects : (objects_by_qualified_name client db ((others_of changed reached).map
          (·.1))).run.run s with
      | mk found s₁ =>
        rw [hobjects] at hlearns
        cases found with
        | error e => exact ⟨hlearns, fun result s' h => by cases h⟩
        | ok records =>
          refine ⟨hlearns, fun result s' h => ?_⟩
          have hresult := congrArg Prod.fst h
          have hstate : s₁ = s' := congrArg Prod.snd h
          rw [← hstate]
          intro s₂ hgrows
          have hrecords := hfound records s₁ hobjects
          have hcached : ∀ name ∈ (others_of changed reached).map (·.1),
              (s₂.object_cache.lookup (object_id client.project_id name)).isSome = true := by
            intro name hname
            have hvalue := hrecords name
            rw [if_pos hname] at hvalue
            obtain ⟨value, hlookup, -⟩ := hvalue
            rw [hgrows _ _ hlookup]
            rfl
          obtain ⟨records', hagain⟩ := @objects_by_qualified_name_cached client db _ _ hcached
          have hsame : ∀ entry ∈ others_of changed reached,
              records'.lookup entry.1 = records.lookup entry.1 := by
            intro entry hentry
            have hname : entry.1 ∈ (others_of changed reached).map (·.1) :=
              List.mem_map_of_mem hentry
            have hvalue := hrecords entry.1
            have hvalue' := (@objects_by_qualified_name_run client db _ s₂).2 records' s₂ hagain
              entry.1
            rw [if_pos hname] at hvalue hvalue'
            obtain ⟨value, hlookup, hfirst⟩ := hvalue
            obtain ⟨value', hlookup', hsecond⟩ := hvalue'
            rw [hgrows _ _ hlookup] at hlookup'
            rw [hfirst, hsecond, hlookup']
          rw [compute_impact_eq, hanchors]
          simp only [hreached, hagain]
          rw [impact_from, dependents_congr hsame]
          exact Prod.ext hresult rfl

/-- The set of relationships decides what a traversal finds. -/
theorem compute_impact_same {relationships' : List PlsqlRelationship}
    (h : relationships ⊆ relationships') (h' : relationships' ⊆ relationships) :
    compute_impact env client db changed hops direction relationships =
      compute_impact env client db changed hops direction relationships' := by
  have hcontains (r : Relationship) : (relationships.map (·.name)).contains r.type =
      (relationships'.map (·.name)).contains r.type := by
    rw [Bool.eq_iff_iff]
    simp only [List.contains_iff_mem, List.mem_map]
    constructor
    · rintro ⟨relationship, hmem, hname⟩
      exact ⟨relationship, h hmem, hname⟩
    · rintro ⟨relationship, hmem, hname⟩
      exact ⟨relationship, h' hmem, hname⟩
  have hfetch : fetch_edges client db direction relationships =
      fetch_edges client db direction relationships' := by
    funext keys limit
    cases direction with
    | upstream =>
      have hclause : incoming_clause (relationships.map (·.name)) keys =
          incoming_clause (relationships'.map (·.name)) keys := by
        funext r
        unfold incoming_clause
        rw [hcontains r]
      unfold fetch_edges EDGE_INCOMING
      simp only [hclause]
    | downstream =>
      have hmem (r : Relationship) : r.type ∈ relationships.map (·.name) ↔
          r.type ∈ relationships'.map (·.name) := by
        have heq := hcontains r
        rw [Bool.eq_iff_iff, List.contains_iff_mem, List.contains_iff_mem] at heq
        exact heq
      unfold fetch_edges EDGE_OUTGOING
      simp only [hmem]
  unfold compute_impact impact_search
  rw [hfetch]

/-- The caches hold what a lookup and a traversal would find. -/
structure SoundCaches (env : Environment) (client : AnalysisClient) (db : AnalysisGraph)
    (s : ClientState) : Prop where
  objects : SoundObjects client db s.object_cache
  impacts : ∀ entry ∈ s.impact_cache, ∀ changed,
    first_record client db changed.qualified_name = some changed →
    changed.id = entry.key.changed_id →
    Computes env client db changed entry.key.bounded_hops entry.key.direction
      entry.key.relationships entry.result s.object_cache

theorem soundCaches_init : SoundCaches env client db .init where
  objects := fun key record h => by cases h
  impacts := fun entry hentry => absurd hentry List.not_mem_nil

/-- What a request does to sound caches: they stay sound, and no object leaves. -/
def Progress (env : Environment) (client : AnalysisClient) (db : AnalysisGraph)
    (s s' : ClientState) : Prop :=
  SoundCaches env client db s →
    SoundCaches env client db s' ∧ Extends s.object_cache s'.object_cache

theorem Progress.refl (s : ClientState) : Progress env client db s s :=
  fun hsound => ⟨hsound, Extends.refl _⟩

theorem Progress.trans {s'' : ClientState} (h : Progress env client db s s')
    (h' : Progress env client db s' s'') : Progress env client db s s'' := by
  intro hsound
  obtain ⟨hsound', hgrows⟩ := h hsound
  obtain ⟨hsound'', hgrows'⟩ := h' hsound'
  exact ⟨hsound'', hgrows.trans hgrows'⟩

theorem Learns.progress (h : Learns client db s s') : Progress env client db s s' := by
  intro hsound
  refine ⟨⟨h.sound hsound.objects, fun entry hentry changed hchanged hid => ?_⟩, h.grows⟩
  rw [h.impacts] at hentry
  exact (hsound.impacts entry hentry changed hchanged hid).mono h.grows

/-- The key of a traversal. -/
def impact_key (changed : PlsqlObjectRecord) (hops : Nat) (direction : ImpactDirection)
    (relationships : List PlsqlRelationship) : ImpactKey where
  changed_id := changed.id
  bounded_hops := hops
  direction := direction
  relationships := relationships

/-- The entries of other traversals. -/
def other_entries (key : ImpactKey) (s : ClientState) : List ImpactCacheEntry :=
  s.impact_cache.filter fun entry => !entry.key.same key

/-- A state with these entries. -/
def ClientState.remembering (s : ClientState) (entries : List ImpactCacheEntry) : ClientState :=
  { s with impact_cache := entries }

/-- A finished traversal is remembered, and the least recently used ones leave. -/
def ClientState.finished (client : AnalysisClient) (s : ClientState) (entry : ImpactCacheEntry) :
    ClientState :=
  let kept := other_entries entry.key s ++ [entry]
  s.remembering (kept.drop (kept.length - client.impact_cache_max))

theorem impact_traversal_hit {moment : Moment} {entry : ImpactCacheEntry}
    (httl : client.impact_cache_ttl ≠ 0)
    (hfound : s.impact_cache.find? (·.key.same (impact_key changed hops direction relationships)) =
      some entry) (htime : moment.asked < entry.expires_at) :
    (impact_traversal env client db moment changed hops direction relationships).run.run s =
      (.ok entry.result, s.remembering
        (other_entries (impact_key changed hops direction relationships) s ++ [entry])) := by
  unfold impact_key at hfound
  unfold impact_traversal
  rw [if_neg httl]
  simp only [run_bind, run_get, hfound, if_pos htime, run_modify, run_pure]
  rfl

/-- The entry of a traversal that has finished. -/
def impact_entry (client : AnalysisClient) (moment : Moment) (key : ImpactKey) (result : Impact) :
    ImpactCacheEntry where
  key := key
  expires_at := moment.finished + client.impact_cache_ttl
  result := result

/-- What a traversal does that finds no entry. -/
theorem impact_compute_run {moment : Moment} {key : ImpactKey} :
    (do
      modify fun state => state.remembering (other_entries key s)
      let result ← compute_impact env client db changed hops direction relationships
      modify fun state => state.finished client (impact_entry client moment key result)
      return result : Reads Impact).run.run s =
      match (compute_impact env client db changed hops direction relationships).run.run
          (s.remembering (other_entries key s)) with
      | (.error e, s') => (.error e, s')
      | (.ok result, s') =>
        (.ok result, s'.finished client (impact_entry client moment key result)) := by
  rw [run_bind, run_modify]
  simp only
  rw [run_bind]
  cases (compute_impact env client db changed hops direction relationships).run.run
      (s.remembering (other_entries key s)) with
  | mk found s' =>
    cases found with
    | error e => rfl
    | ok result => rfl

theorem impact_traversal_miss {moment : Moment} (httl : client.impact_cache_ttl ≠ 0)
    (hmiss : ∀ entry, s.impact_cache.find?
      (·.key.same (impact_key changed hops direction relationships)) = some entry →
        ¬ moment.asked < entry.expires_at) :
    (impact_traversal env client db moment changed hops direction relationships).run.run s =
      match (compute_impact env client db changed hops direction relationships).run.run
          (s.remembering
            (other_entries (impact_key changed hops direction relationships) s)) with
      | (.error e, s') => (.error e, s')
      | (.ok result, s') =>
        (.ok result, s'.finished client (impact_entry client moment
          (impact_key changed hops direction relationships) result)) := by
  rw [← impact_compute_run]
  unfold impact_key at hmiss
  unfold impact_traversal
  rw [if_neg httl, run_bind, run_get]
  simp only
  cases hfound : s.impact_cache.find? (·.key.same
      { changed_id := changed.id, bounded_hops := hops, direction := direction,
        relationships := relationships }) with
  | none => rfl
  | some entry =>
    simp only [if_neg (hmiss entry hfound)]
    rfl

theorem first_record_id {name : String} {record : PlsqlObjectRecord}
    (h : first_record client db name = some record) :
    record.id = object_id client.project_id record.qualified_name := by
  obtain ⟨node, -, hrecord⟩ := List.exists_of_findSome?_eq_some h
  exact (object_from_node_name (mapped_eq_some.mp hrecord)).2

/-- Two records of their names with one id are the same. -/
theorem first_record_unique {record record' : PlsqlObjectRecord}
    (h : first_record client db record.qualified_name = some record)
    (h' : first_record client db record'.qualified_name = some record')
    (hid : record.id = record'.id) : record = record' := by
  rw [first_record_id h, first_record_id h'] at hid
  have hname := object_id_injective hid
  rw [hname, h'] at h
  exact (Option.some.inj h).symm

/-- Entries that were there, and entries that hold, are sound. -/
theorem SoundCaches.remembering {entries : List ImpactCacheEntry}
    (h : SoundCaches env client db s)
    (hentries : ∀ entry ∈ entries, entry ∈ s.impact_cache ∨ ∀ changed,
      first_record client db changed.qualified_name = some changed →
      changed.id = entry.key.changed_id →
      Computes env client db changed entry.key.bounded_hops entry.key.direction
        entry.key.relationships entry.result s.object_cache) :
    SoundCaches env client db (s.remembering entries) where
  objects := h.objects
  impacts := fun entry hentry changed hchanged hid => by
    rcases hentries entry hentry with hold | hnew
    · exact h.impacts entry hold changed hchanged hid
    · exact hnew changed hchanged hid

theorem mem_other_entries {key : ImpactKey} {entry : ImpactCacheEntry}
    (h : entry ∈ other_entries key s) : entry ∈ s.impact_cache :=
  List.mem_of_mem_filter h

theorem SoundCaches.finished {entry : ImpactCacheEntry} (h : SoundCaches env client db s)
    (hentry : ∀ changed, first_record client db changed.qualified_name = some changed →
      changed.id = entry.key.changed_id →
      Computes env client db changed entry.key.bounded_hops entry.key.direction
        entry.key.relationships entry.result s.object_cache) :
    SoundCaches env client db (s.finished client entry) := by
  refine h.remembering fun e he => ?_
  rcases List.mem_append.mp (List.mem_of_mem_drop he) with hold | hnew
  · exact Or.inl (mem_other_entries hold)
  · rw [List.mem_singleton] at hnew
    rw [hnew]
    exact Or.inr hentry

/-- A cached entry of the same traversal holds its result. -/
theorem SoundCaches.computes {entry : ImpactCacheEntry} (h : SoundCaches env client db s)
    (hchanged : first_record client db changed.qualified_name = some changed)
    (hentry : entry ∈ s.impact_cache)
    (hsame : entry.key.same (impact_key changed hops direction relationships) = true) :
    Computes env client db changed hops direction relationships entry.result s.object_cache := by
  unfold ImpactKey.same at hsame
  obtain ⟨hid, hhops, hdirection, hrelationships, hrelationships'⟩ := of_decide_eq_true hsame
  have hcomputes := h.impacts entry hentry changed hchanged hid.symm
  have hsearch : compute_impact env client db changed entry.key.bounded_hops entry.key.direction
      entry.key.relationships =
        compute_impact env client db changed hops direction relationships := by
    rw [compute_impact_same hrelationships hrelationships', hhops, hdirection]
    rfl
  intro s' hs'
  rw [← hsearch]
  exact hcomputes s' hs'

/-- A traversal keeps the caches sound, and what it gives it gives from then on. -/
theorem impact_traversal_run {moment : Moment}
    (hchanged : first_record client db changed.qualified_name = some changed) (s : ClientState) :
    Progress env client db s ((impact_traversal env client db moment changed hops direction
        relationships).run.run s).2 ∧
      ∀ result s', SoundCaches env client db s →
        (impact_traversal env client db moment changed hops direction
          relationships).run.run s = (.ok result, s') →
        Computes env client db changed hops direction relationships result s'.object_cache := by
  by_cases httl : client.impact_cache_ttl = 0
  · have heq : impact_traversal env client db moment changed hops direction relationships =
        compute_impact env client db changed hops direction relationships := by
      unfold impact_traversal
      rw [if_pos httl]
    obtain ⟨hlearns, hresult⟩ := @compute_impact_run env client db changed hops direction
      relationships s
    rw [heq]
    exact ⟨hlearns.progress, fun result s' _ h => hresult result s' h⟩
  · by_cases hhit : ∃ entry, s.impact_cache.find? (·.key.same (impact_key changed hops direction
        relationships)) = some entry ∧ moment.asked < entry.expires_at
    · obtain ⟨entry, hfound, htime⟩ := hhit
      have hmem : entry ∈ s.impact_cache := List.mem_of_find?_eq_some hfound
      have hsame := List.find?_some hfound
      rw [impact_traversal_hit httl hfound htime]
      refine ⟨fun hsound => ⟨hsound.remembering fun e he => ?_, Extends.refl _⟩,
        fun result s' hsound h => ?_⟩
      · rcases List.mem_append.mp he with hold | hnew
        · exact Or.inl (mem_other_entries hold)
        · rw [List.mem_singleton] at hnew
          rw [hnew]
          exact Or.inl hmem
      · cases h
        exact hsound.computes hchanged hmem hsame
    · have hmiss : ∀ entry, s.impact_cache.find?
          (·.key.same (impact_key changed hops direction relationships)) = some entry →
            ¬ moment.asked < entry.expires_at :=
        fun entry hfound htime => hhit ⟨entry, hfound, htime⟩
      have hforgets : Progress env client db s (s.remembering
          (other_entries (impact_key changed hops direction relationships) s)) :=
        fun hsound => ⟨hsound.remembering fun e he => Or.inl (mem_other_entries he),
          Extends.refl _⟩
      obtain ⟨hlearns, hresult⟩ := @compute_impact_run env client db changed hops direction
        relationships (s.remembering
          (other_entries (impact_key changed hops direction relationships) s))
      rw [impact_traversal_miss httl hmiss]
      cases hcompute : (compute_impact env client db changed hops direction relationships).run.run
          (s.remembering
            (other_entries (impact_key changed hops direction relationships) s)) with
      | mk found s₁ =>
        rw [hcompute] at hlearns
        have hprogress := hforgets.trans hlearns.progress
        cases found with
        | error e => exact ⟨hprogress, fun result s' _ h => by cases h⟩
        | ok result =>
          have hcomputes := hresult result s₁ hcompute
          have hall : ∀ other, first_record client db other.qualified_name = some other →
              other.id = changed.id →
              Computes env client db other hops direction relationships result s₁.object_cache := by
            intro other hother hid
            rw [first_record_unique hother hchanged hid]
            exact hcomputes
          refine ⟨fun hsound => ⟨(hprogress hsound).1.finished hall, (hprogress hsound).2⟩,
            fun result' s' _ h => ?_⟩
          cases h
          exact hcomputes

/-- Where the result is settled, a traversal gives it again. -/
theorem impact_traversal_settled {moment : Moment} (hsound : SoundCaches env client db s)
    (hchanged : first_record client db changed.qualified_name = some changed)
    (hcomputes : Computes env client db changed hops direction relationships result
      s.object_cache) :
    ∃ s', (impact_traversal env client db moment changed hops direction
      relationships).run.run s = (.ok result, s') := by
  by_cases httl : client.impact_cache_ttl = 0
  · refine ⟨s, ?_⟩
    unfold impact_traversal
    rw [if_pos httl]
    exact hcomputes s (Extends.refl _)
  · by_cases hhit : ∃ entry, s.impact_cache.find? (·.key.same (impact_key changed hops direction
        relationships)) = some entry ∧ moment.asked < entry.expires_at
    · obtain ⟨entry, hfound, htime⟩ := hhit
      have hsame := List.find?_some hfound
      have hcached := hsound.computes hchanged (List.mem_of_find?_eq_some hfound) hsame s
        (Extends.refl _)
      rw [hcomputes s (Extends.refl _)] at hcached
      have hresult : result = entry.result := Except.ok.inj (congrArg Prod.fst hcached)
      rw [impact_traversal_hit httl hfound htime, hresult]
      exact ⟨_, rfl⟩
    · rw [impact_traversal_miss httl fun entry hfound htime => hhit ⟨entry, hfound, htime⟩]
      rw [hcomputes (s.remembering
        (other_entries (impact_key changed hops direction relationships) s)) (Extends.refl _)]
      exact ⟨_, rfl⟩

end lagraph.plsql
