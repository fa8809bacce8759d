import LaGraph.Plsql.Caches.Answers
import LaGraph.Plsql.Caches.Operations
import LaGraph.Plsql.Dependencies

open foundation foundation.Stateful

namespace lagraph.plsql

variable {env : Environment} {client : AnalysisClient} {db : AnalysisGraph}
  {s s' : ClientState} {c c' : ObjectCache} {identifier : String}

section Codecs

theorem utf8_of_fromUTF8 {bytes : List Nat} (hbytes : ∀ b ∈ bytes, b < 256) {name : String}
    (h : String.fromUTF8? ⟨(bytes.map UInt8.ofNat).toArray⟩ = some name) : utf8 name = bytes := by
  unfold String.fromUTF8? at h
  split_ifs at h
  obtain rfl := Option.some.inj h
  change ((bytes.map UInt8.ofNat).toArray.toList).map UInt8.toNat = bytes
  rw [List.toList_toArray, List.map_map]
  refine (List.map_congr_left fun b hb => ?_).trans (List.map_id bytes)
  exact UInt8.toNat_ofNat_of_lt' (hbytes b hb)

/-- What decodes comes from the encoder when it is canonical, and only then. -/
theorem b64e_of_b64d {encoded name : String} (h : b64d encoded = some name) :
    b64e name = encoded ↔ base64.canonical encoded.toList = true := by
  constructor
  · rintro rfl
    rw [b64e, String.toList_ofList]
    exact base64.canonical_encode fun _ => utf8_lt
  · intro hcanonical
    obtain ⟨bytes, hbytes, hencode⟩ := base64.encode_of_canonical hcanonical
    have hdecode := base64.decode_encode bytes hbytes
    rw [hencode, base64.padding] at hdecode
    rw [b64d, hdecode] at h
    rw [b64e, utf8_of_fromUTF8 hbytes h, hencode, String.ofList_toList]

/-- What an identifier starts with, and what stands before its encoded part. -/
structure Scheme where
  start : String
  marker : Char
  marker_ne : marker ≠ '/'

def Scheme.before (scheme : Scheme) (project_id : String) : String :=
  scheme.start ++ project_id ++ String.ofList ['/', scheme.marker, '/']

/-- An identifier without a last marker, one whose rest is not read, or one that starts as
the project's own do and ends in canonical text. -/
def Scheme.Own (scheme : Scheme) (project_id : String) (reads : String → Bool)
    (identifier : String) : Prop :=
  ∀ encoded, text.afterLast ['/', scheme.marker, '/'] identifier.toList = some encoded →
    reads (String.ofList encoded) = true →
    identifier = scheme.before project_id ++ String.ofList encoded ∧
      base64.canonical encoded = true

theorem marker_object : 'o' ≠ '/' := by decide

theorem marker_edge : 'e' ≠ '/' := by decide

def object_scheme : Scheme := ⟨"plsql://", 'o', marker_object⟩

def edge_scheme : Scheme := ⟨"edge://", 'e', marker_edge⟩

/-- Decoding gives a text. -/
def reads_name (encoded : String) : Bool :=
  (b64d encoded).isSome

/-- Decoding gives three parts. -/
def reads_parts (encoded : String) : Bool :=
  (b64d encoded).any fun payload => (text.segments '\x1f' payload).length = 3

/-- The identifiers that are read are those made of what they are read as. -/
theorem Scheme.own_iff (scheme : Scheme) {project_id : String} {reads : String → Bool}
    (hreads : ∀ encoded, reads encoded = true → (b64d encoded).isSome = true) :
    scheme.Own project_id reads identifier ↔
      ∀ encoded name, text.afterLast ['/', scheme.marker, '/'] identifier.toList = some encoded →
        reads (String.ofList encoded) = true → b64d (String.ofList encoded) = some name →
        identifier = scheme.before project_id ++ b64e name := by
  constructor
  · intro h encoded name hlast hread hname
    obtain ⟨hidentifier, hcanonical⟩ := h encoded hlast hread
    rw [(b64e_of_b64d hname).mpr (by rwa [String.toList_ofList])]
    exact hidentifier
  · intro h encoded hlast hread
    obtain ⟨name, hname⟩ := Option.isSome_iff_exists.mp (hreads _ hread)
    have hidentifier := h encoded name hlast hread hname
    have hafter := encoded_after_marker scheme.marker_ne (scheme.start ++ project_id) name
    rw [Scheme.before] at hidentifier
    rw [hidentifier, hafter] at hlast
    obtain rfl := Option.some.inj hlast
    refine ⟨?_, ?_⟩
    · rw [String.ofList_toList]
      exact hidentifier
    · rw [b64e, String.toList_ofList]
      exact base64.canonical_encode fun _ => utf8_lt

theorem own_object_iff {project_id : String} :
    object_scheme.Own project_id reads_name identifier ↔
      ∀ name, qualified_name_from_object_id identifier = some name →
        identifier = object_id project_id name := by
  rw [object_scheme.own_iff fun (encoded : String) (h : reads_name encoded = true) => h]
  constructor
  · intro h name hname
    rw [qualified_name_from_object_id] at hname
    cases hlast : text.afterLast "/o/".toList identifier.toList with
    | none =>
      rw [hlast] at hname
      cases hname
    | some encoded =>
      rw [hlast] at hname
      exact h encoded name hlast (Option.isSome_of_eq_some hname) hname
  · intro h encoded name hlast _ hname
    refine h name ?_
    rw [qualified_name_from_object_id]
    have hmarker : text.afterLast "/o/".toList identifier.toList = some encoded := hlast
    rw [hmarker]
    exact hname

/-- The three parts make the payload they were read from. -/
theorem intercalate_segments {payload relationship source target : String}
    (h : text.segments '\x1f' payload = [relationship, source, target]) :
    unit_separator.intercalate [relationship, source, target] = payload := by
  have hsplit : payload.toList.splitOn '\x1f' =
      [relationship.toList, source.toList, target.toList] := by
    have hmap := congrArg (List.map String.toList) h
    rw [text.segments, List.map_map] at hmap
    have hid : String.toList ∘ String.ofList = id := funext fun _ => String.toList_ofList
    rwa [hid, List.map_id] at hmap
  have hpayload : ['\x1f'].intercalate (payload.toList.splitOn '\x1f') = payload.toList :=
    List.intercalate_splitOn '\x1f'
  rw [hsplit] at hpayload
  apply String.toList_inj.mp
  rw [String.toList_intercalate]
  exact hpayload

theorem own_edge_iff {project_id : String} :
    edge_scheme.Own project_id reads_parts identifier ↔
      ∀ relationship source target, edge_parts identifier = some (relationship, source, target) →
        identifier = edge_id project_id relationship source target := by
  rw [edge_scheme.own_iff fun (encoded : String) (h : reads_parts encoded = true) =>
    Option.isSome_of_any h]
  constructor
  · intro h relationship source target hparts
    rw [edge_parts] at hparts
    cases hlast : text.afterLast "/e/".toList identifier.toList with
    | none =>
      rw [hlast] at hparts
      cases hparts
    | some encoded =>
      rw [hlast] at hparts
      dsimp only at hparts
      cases hpayload : b64d (String.ofList encoded) with
      | none =>
        rw [hpayload] at hparts
        cases hparts
      | some payload =>
        rw [hpayload] at hparts
        have hsegments : text.segments '\x1f' payload = [relationship, source, target] := by
          dsimp only at hparts
          split at hparts
          · rename_i hsegments
            cases hparts
            exact hsegments
          · cases hparts
        rw [edge_id, intercalate_segments hsegments]
        refine h encoded payload hlast ?_ hpayload
        rw [reads_parts, hpayload, Option.any_some, hsegments]
        rfl
  · intro h encoded payload hlast hreads hpayload
    rw [reads_parts, hpayload, Option.any_some, decide_eq_true_eq] at hreads
    obtain ⟨relationship, source, target, hsegments⟩ := List.length_eq_three.mp hreads
    have hparts : edge_parts identifier = some (relationship, source, target) := by
      have hmarker : text.afterLast "/e/".toList identifier.toList = some encoded := hlast
      rw [edge_parts, hmarker]
      dsimp only
      rw [hpayload]
      dsimp only
      rw [hsegments]
    have hidentifier := h relationship source target hparts
    rw [edge_id, intercalate_segments hsegments] at hidentifier
    exact hidentifier

end Codecs

section Lookups

/-- Each cached record is that of the name its key decodes to. -/
def Named (client : AnalysisClient) (c : ObjectCache) : Prop :=
  ∀ key record, c.lookup key = some (some record) →
    qualified_name_from_object_id key = some record.qualified_name ∧
      record.id = object_id client.project_id record.qualified_name

theorem Named.cons {key : String} {value : Option PlsqlObjectRecord} (h : Named client c)
    (hvalue : ∀ record, value = some record →
      qualified_name_from_object_id key = some record.qualified_name ∧
        record.id = object_id client.project_id record.qualified_name) :
    Named client ((key, value) :: c) := by
  intro k record hk
  by_cases hkey : k = key
  · rw [hkey, lookup_cons_self] at hk
    rw [hkey]
    exact hvalue record (Option.some.inj hk)
  · rw [lookup_cons_other hkey] at hk
    exact h k record hk

/-- A looked up object is cached under the id that it was asked by. -/
theorem get_object_named {record : Option PlsqlObjectRecord} (hc : Named client c)
    (h : plsql.get_object client.toNeo4jPlsqlAnalysisClient db.toGraphDb c identifier =
      .ok (record, c')) : Named client c' ∧ c'.lookup identifier = some record := by
  refine ⟨?_, (get_object_cache h).2.2⟩
  unfold plsql.get_object at h
  split at h
  · cases h
    exact hc
  · split at h
    · cases h
      exact hc.cons fun record hrecord => by cases hrecord
    · rename_i qualified_name hname
      split at h
      · cases h
        exact hc.cons fun record hrecord => by cases hrecord
      · rename_i node rest hrows
        obtain ⟨found, hfound, hpure⟩ := results.bind_ok.mp h
        cases hpure
        refine hc.cons fun r hr => ?_
        rw [hr] at hfound
        have hrecord := first_record_of_single hrows hfound
        exact ⟨hname.trans (congrArg some hrecord.1.symm), (object_from_node_name hfound).2⟩

theorem cached_names_named {value : String → Option PlsqlObjectRecord} {names : List String}
    (hc : Named client c)
    (hvalue : ∀ name record, value name = some record → record.qualified_name = name ∧
      record.id = object_id client.project_id record.qualified_name) :
    Named client (cached_names client value names c) := by
  induction names generalizing c with
  | nil => exact hc
  | cons name names ih =>
    refine ih (hc.cons fun record hrecord => ?_)
    obtain ⟨hname, hid⟩ := hvalue name record hrecord
    rw [qualified_name_of_object_id, hname]
    exact ⟨rfl, hname ▸ hid⟩

/-- What an operation does to a cache of named records: it stays one. -/
def KeepsNames (client : AnalysisClient) (s s' : ClientState) : Prop :=
  Named client s.object_cache → Named client s'.object_cache

theorem KeepsNames.refl (s : ClientState) : KeepsNames client s s :=
  id

theorem KeepsNames.trans (a b c : ClientState) (h : KeepsNames client a b)
    (h' : KeepsNames client b c) : KeepsNames client a c :=
  h' ∘ h

theorem get_object_keeps (object_id : String) :
    Guarantees (KeepsNames client) (Reads.get_object client db object_id) := by
  intro s hs
  rw [get_object_run]
  cases hget : plsql.get_object client.toNeo4jPlsqlAnalysisClient db.toGraphDb s.object_cache
      object_id with
  | error e => exact hs
  | ok result => exact (get_object_named hs hget).1

theorem lookup_chunk_keeps (names : List String) :
    Guarantees (KeepsNames client) (lookup_chunk client db names) := by
  intro s hs
  obtain ⟨e, herror⟩ | hok := @lookup_chunk_run client db names s
  · rw [herror]
    exact hs
  · rw [hok]
    refine cached_names_named hs fun name record hrecord => ?_
    exact ⟨first_record_name hrecord, first_record_id hrecord⟩

theorem objects_by_qualified_name_keeps (names : List String) :
    Guarantees (KeepsNames client) (objects_by_qualified_name client db names) := by
  have hget : Guarantees (KeepsNames client) (get : Reads ClientState) := KeepsNames.refl
  unfold objects_by_qualified_name
  refine Guarantees.bind KeepsNames.trans hget fun state => ?_
  refine Guarantees.bind KeepsNames.trans ?_ fun found => Guarantees.pure KeepsNames.refl _
  exact Guarantees.mapM KeepsNames.refl KeepsNames.trans lookup_chunk_keeps _

theorem compute_impact_keeps (changed : PlsqlObjectRecord) (hops : Nat)
    (direction : ImpactDirection) (relationships : List PlsqlRelationship) :
    Guarantees (KeepsNames client)
      (compute_impact env client db changed hops direction relationships) := by
  unfold compute_impact
  refine Guarantees.bind KeepsNames.trans (Guarantees.lift KeepsNames.refl _) fun _ => ?_
  refine Guarantees.bind KeepsNames.trans (Guarantees.lift KeepsNames.refl _) fun _ => ?_
  refine Guarantees.bind KeepsNames.trans (objects_by_qualified_name_keeps _) fun _ => ?_
  refine Guarantees.bind KeepsNames.trans ?_ fun found => Guarantees.pure KeepsNames.refl _
  exact Guarantees.mapM KeepsNames.refl KeepsNames.trans
    (fun _ => Guarantees.lift KeepsNames.refl _) _

theorem impact_traversal_keeps (moment : Moment) (changed : PlsqlObjectRecord) (hops : Nat)
    (direction : ImpactDirection) (relationships : List PlsqlRelationship) :
    Guarantees (KeepsNames client)
      (impact_traversal env client db moment changed hops direction relationships) := by
  have hcompute := @compute_impact_keeps env client db changed hops direction relationships
  intro s
  by_cases httl : client.impact_cache_ttl = 0
  · unfold impact_traversal
    rw [if_pos httl]
    exact hcompute s
  · by_cases hhit : ∃ entry, s.impact_cache.find? (·.key.same (impact_key changed hops direction
        relationships)) = some entry ∧ moment.asked < entry.expires_at
    · obtain ⟨entry, hfound, htime⟩ := hhit
      rw [impact_traversal_hit httl hfound htime]
      exact KeepsNames.refl s
    · rw [impact_traversal_miss httl fun entry hfound htime => hhit ⟨entry, hfound, htime⟩]
      have hrest := hcompute (s.remembering
        (other_entries (impact_key changed hops direction relationships) s))
      cases hrun : (compute_impact env client db changed hops direction relationships).run.run
          (s.remembering
            (other_entries (impact_key changed hops direction relationships) s)) with
      | mk found s₁ =>
        rw [hrun] at hrest
        cases found with
        | error e => exact hrest
        | ok result => exact hrest

/-- Whatever a client is asked, its cached records keep their names. -/
theorem names_rule : CacheRule env client db (KeepsNames client) where
  refl := KeepsNames.refl
  trans := KeepsNames.trans
  get_object := get_object_keeps
  impact_of moment object_id _ _ _ _ _ := by
    unfold impact_of
    refine Guarantees.bind KeepsNames.trans ?_ fun changed => ?_
    · refine Guarantees.bind KeepsNames.trans (get_object_keeps object_id) fun record => ?_
      cases record with
      | none => exact Guarantees.throw KeepsNames.refl _
      | some record => exact Guarantees.pure KeepsNames.refl record
    · refine Guarantees.bind KeepsNames.trans (impact_traversal_keeps _ _ _ _ _) fun impact => ?_
      exact Guarantees.pure KeepsNames.refl _

theorem named_state_after (requests : List (Moment × Request)) :
    Named client (state_after env client db .init requests).object_cache :=
  names_rule.state_after .init requests fun key record h => by cases h

/-- A found object has the id that its requested id decodes to. -/
theorem get_object_id {record : PlsqlObjectRecord} (hs : Named client s.object_cache)
    (h : (Reads.get_object client db identifier).run.run s = (.ok (some record), s')) :
    qualified_name_from_object_id identifier = some record.qualified_name ∧
      record.id = object_id client.project_id record.qualified_name := by
  have hkept := @get_object_keeps client db identifier s hs
  rw [h] at hkept
  exact hkept identifier record (get_object_again h)

theorem first_dependency_mem {project_id : String} {file_paths : List (String × String)}
    {rows : List Relationship} {edge : PlsqlDependencyRecord}
    (h : first_dependency project_id file_paths rows = .ok (some edge)) :
    ∃ row ∈ rows, dependency_from_row project_id row file_paths = .ok (some edge) := by
  induction rows with
  | nil => cases h
  | cons row rows ih =>
    obtain ⟨found, hfound, hrest⟩ := results.bind_ok.mp h
    cases found with
    | some found =>
      cases hrest
      exact ⟨row, List.mem_cons_self, hfound⟩
    | none =>
      obtain ⟨row', hrow', hedge⟩ := ih hrest
      exact ⟨row', List.mem_cons_of_mem _ hrow', hedge⟩

/-- A found edge has the id of the parts that its requested id decodes to. -/
theorem relationship_evidence_id {edge : PlsqlDependencyRecord}
    (h : relationship_evidence client db identifier = .ok (some edge)) :
    ∃ relationship source target,
      edge_parts identifier = some (relationship, source, target) ∧
        edge.id = edge_id client.project_id relationship source target := by
  rw [relationship_evidence] at h
  cases hparts : edge_parts identifier with
  | none =>
    rw [hparts] at h
    cases h
  | some parts =>
    obtain ⟨relationship, source, target⟩ := parts
    rw [hparts] at h
    dsimp only at h
    split_ifs at h
    · obtain ⟨row, hrow, hedge⟩ := first_dependency_mem h
      obtain ⟨⟨htype, hsource, htarget⟩, hid⟩ := dependency_from_row_triple hedge
      obtain ⟨stored, hstored, rfl⟩ := List.mem_map.mp hrow
      have hclause := (List.mem_filter.mp (List.mem_of_mem_take hstored)).2
      simp only [triple_clause, Bool.and_eq_true, decide_eq_true_eq, beq_iff_eq] at hclause
      obtain ⟨-, ⟨hrelationship, hfrom⟩, hto⟩ := hclause
      refine ⟨relationship, source, target, rfl, ?_⟩
      have hs : edge.triple.source = source := Option.some.inj (hsource.symm.trans hfrom)
      have ht : edge.triple.target = target := Option.some.inj (htarget.symm.trans hto)
      have hr : edge.triple.relationship.name = relationship := htype.symm.trans hrelationship
      rw [hid, EdgeTriple.id, hs, ht, hr]
    · cases h

end Lookups

/-- An identifier is read only where it is one of the project, and what is found by it, after
any requests, has it as its id. -/
structure Faithful (client : AnalysisClient) (identifier : String) : Prop where
  object_name : ∀ name, qualified_name_from_object_id identifier = some name →
    identifier = object_id client.project_id name
  parts : ∀ relationship source target,
    edge_parts identifier = some (relationship, source, target) →
    identifier = edge_id client.project_id relationship source target
  object : ∀ env db requests record s',
    (Reads.get_object client db identifier).run.run (state_after env client db .init requests) =
      (.ok (some record), s') → record.id = identifier
  evidence : ∀ db edge, relationship_evidence client db identifier = .ok (some edge) →
    edge.id = identifier

/-- So it is for an identifier that either decoder finds foreign or the project's own, in the
spelling of its encoder. -/
theorem faithful_iff (client : AnalysisClient) (identifier : String) :
    Faithful client identifier ↔
      object_scheme.Own client.project_id reads_name identifier ∧
        edge_scheme.Own client.project_id reads_parts identifier := by
  constructor
  · intro h
    exact ⟨own_object_iff.mpr h.object_name, own_edge_iff.mpr h.parts⟩
  · rintro ⟨hobject, hedge⟩
    have hname := own_object_iff.mp hobject
    have hparts := own_edge_iff.mp hedge
    refine ⟨hname, hparts, fun env db requests record s' h => ?_, fun db edge h => ?_⟩
    · obtain ⟨hdecode, hid⟩ := get_object_id (named_state_after requests) h
      rw [hid]
      exact (hname _ hdecode).symm
    · obtain ⟨relationship, source, target, hdecode, hid⟩ := relationship_evidence_id h
      rw [hid]
      exact (hparts _ _ _ hdecode).symm

/-- An object of another project is read as the client's own. -/
theorem foreign_project_read : ¬ ∀ client identifier, Faithful client identifier := by
  intro h
  have hname := (h twin_client (object_id "other" "HR.PAY")).object_name "HR.PAY"
    (qualified_name_of_object_id "other" "HR.PAY")
  have hproject := congrArg (fun s : String => s.toList.take 9) hname
  revert hproject
  decide

end lagraph.plsql
