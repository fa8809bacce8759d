import LaGraph.Plsql.Caches.Operations
import LaGraph.Plsql.Endpoints.Listings

open foundation foundation.Stateful foundation.json

namespace lagraph.plsql

variable {sha256 : List Char → List (Fin 16)} {decode : List Nat → Option (List Char)}
  {settings : Settings} {env : Environment} {db : AnalysisGraph} {client : AnalysisClient}
  {s s' : ClientState} {from_id to_id object_id : String} {source target changed : PlsqlObjectRecord}
  {filter : ImpactFilter} {moment : Moment} {max_hops limit offset : Int} {hops : Nat}

theorem bounded_limit_pos {client : Neo4jPlsqlAnalysisClient} : 0 < bounded_limit client limit := by
  unfold bounded_limit
  omega

theorem max_zero_toNat {offset : Nat} : (max 0 (offset : Int)).toNat = offset := by
  omega

section Neo4jPaths

/-- The paths between two objects as records. -/
def paths_between (env : Environment) (client : AnalysisClient) (db : AnalysisGraph)
    (source target : PlsqlObjectRecord) (hops : Nat) : Except Raised (List PlsqlPathRecord) :=
  if source.qualified_name = target.qualified_name then .ok []
  else do
    let ordered ← all_paths client.toNeo4jPlsqlAnalysisClient db.toGraphDb source.qualified_name
      target.qualified_name hops
    .ok (ordered.map (path_record env.sha1 client.toNeo4jPlsqlAnalysisClient))

theorem require_object_of_cached {c : ObjectCache} {record : PlsqlObjectRecord}
    (h : c.lookup object_id = some (some record)) :
    require_object client.toNeo4jPlsqlAnalysisClient db.toGraphDb c object_id =
      .ok (record, c) := by
  simp only [require_object, get_object, h, Bind.bind, Except.bind]

/-- With both objects cached, a page of paths is one of the paths between them. -/
theorem find_paths_cached (hsource : s.object_cache.lookup from_id = some (some source))
    (htarget : s.object_cache.lookup to_id = some (some target)) :
    (Reads.find_paths env client db from_id to_id max_hops limit offset).run.run s =
      match paths_between env client db source target
        (bounded_hops client.toNeo4jPlsqlAnalysisClient max_hops) with
      | .ok records => (.ok (path_page client.toNeo4jPlsqlAnalysisClient records limit offset), s)
      | .error e => (.error e, s) := by
  have hfrom := @require_object_of_cached db client from_id _ source hsource
  have hto := @require_object_of_cached db client to_id _ target htarget
  unfold Reads.find_paths
  rw [run_bind_ok (run_get s), run_bind_ok (require_object_cached hsource),
    run_bind_ok (require_object_cached htarget), run_lift, find_paths, hfrom]
  simp only [Bind.bind, Except.bind, hto, paths_between]
  by_cases hsame : source.qualified_name = target.qualified_name
  · simp only [if_pos hsame]
    refine congrArg (fun page => (Except.ok page, s)) ?_
    simp [path_page]
  · simp only [if_neg hsame]
    cases all_paths client.toNeo4jPlsqlAnalysisClient db.toGraphDb source.qualified_name
        target.qualified_name (bounded_hops client.toNeo4jPlsqlAnalysisClient max_hops) with
    | error e => rfl
    | ok ordered => rfl

/-- Both ends of the paths are cached in sound caches. -/
structure PathsSettled (env : Environment) (client : AnalysisClient) (db : AnalysisGraph)
    (from_id to_id : String) (source target : PlsqlObjectRecord) (s : ClientState) : Prop where
  sound : SoundCaches env client db s
  source_cached : s.object_cache.lookup from_id = some (some source)
  target_cached : s.object_cache.lookup to_id = some (some target)

theorem PathsSettled.progress (h : PathsSettled env client db from_id to_id source target s)
    (hprogress : Progress env client db s s') :
    PathsSettled env client db from_id to_id source target s' where
  sound := (hprogress h.sound).1
  source_cached := (hprogress h.sound).2 _ _ h.source_cached
  target_cached := (hprogress h.sound).2 _ _ h.target_cached

/-- Once its ends are cached, a listing of paths lists the paths between them. -/
theorem lists_paths {records : List PlsqlPathRecord}
    (hrecords : paths_between env client db source target
      (bounded_hops client.toNeo4jPlsqlAnalysisClient settings.plsql_max_hops) = .ok records) :
    Lists sha256 decode settings (.neo4j env client db) (.paths from_id to_id)
      (records.map .inl) (PathsSettled env client db from_id to_id source target) := by
  intro s choice cursor offset hstate hcursor hoffset
  have hfound := @find_paths_cached env db client s from_id to_id source target
    settings.plsql_max_hops (effective_page_limit settings choice.2) offset
    hstate.source_cached hstate.target_cached
  rw [hrecords] at hfound
  have hroute := (@find_paths_route_ok_iff _ sha256 decode settings (.neo4j env client db) s s
    cursor from_id to_id choice.2 _).mpr ⟨hcursor, source, s, target, s, offset, _,
      get_object_cached hstate.source_cached, get_object_cached hstate.target_cached, hoffset,
      hfound, rfl⟩
  refine ⟨_, s, @bounded_limit_pos (effective_page_limit settings choice.2)
    client.toNeo4jPlsqlAnalysisClient, hstate, ?_⟩
  unfold Listing.serve
  simp only
  rw [run_bind_ok hroute, run_pure, ← slice_of_page, PlsqlPathResult.page, path_page]
  simp only [max_zero_toNat]

/-- A first page of paths settles them. -/
theorem paths_settled {choice : Moment × PageLimit} {page : Page String ListedItem}
    (hsound : SoundCaches env client db s)
    (h : ((Listing.paths from_id to_id).serve sha256 decode settings (.neo4j env client db) choice
      none).run.run s = (.ok page, s')) :
    ∃ source target records size,
      paths_between env client db source target
        (bounded_hops client.toNeo4jPlsqlAnalysisClient settings.plsql_max_hops) = .ok records ∧
      PathsSettled env client db from_id to_id source target s' ∧ 0 < size ∧
      page = slice (encode_page_cursor ((Listing.paths from_id to_id).scope sha256 settings))
        (records.map .inl) 0 size := by
  unfold Listing.serve at h
  simp only at h
  obtain ⟨result, s₃, hroute, hpage⟩ := of_run_bind_ok h
  cases hpage
  obtain ⟨-, source, s₁, target, s₂, offset, found, hsource, htarget, hoffset, hfound, rfl⟩ :=
    find_paths_route_ok_iff.mp hroute
  cases hoffset
  have hlearn₁ := @get_object_learns client db from_id s
  have hlearn₂ := @get_object_learns client db to_id s₁
  change (Reads.get_object client db from_id).run.run s = _ at hsource
  change (Reads.get_object client db to_id).run.run s₁ = _ at htarget
  rw [hsource] at hlearn₁
  rw [htarget] at hlearn₂
  have hsource_cached := hlearn₂.grows _ _ (get_object_again hsource)
  have htarget_cached := get_object_again htarget
  have hsettled : PathsSettled env client db from_id to_id source target s₂ :=
    ⟨(hlearn₁.progress.trans hlearn₂.progress hsound).1, hsource_cached, htarget_cached⟩
  have hcached := @find_paths_cached env db client s₂ from_id to_id source target
    settings.plsql_max_hops (effective_page_limit settings choice.2) (0 : Nat) hsource_cached
    htarget_cached
  change (Reads.find_paths env client db from_id to_id _ _ _).run.run s₂ = _ at hfound
  cases hbetween : paths_between env client db source target
      (bounded_hops client.toNeo4jPlsqlAnalysisClient settings.plsql_max_hops) with
  | error e =>
    rw [hbetween] at hcached
    rw [hcached] at hfound
    cases hfound
  | ok records =>
    rw [hbetween] at hcached
    rw [hcached] at hfound
    cases hfound
    refine ⟨source, target, records, _, hbetween, hsettled, @bounded_limit_pos
      (effective_page_limit settings choice.2) client.toNeo4jPlsqlAnalysisClient, ?_⟩
    rw [← slice_of_page, PlsqlPathResult.page, path_page]
    rfl

end Neo4jPaths

section Neo4jImpact

/-- The whole impact of a changed object for the routes' parameters. -/
def impact_between (env : Environment) (client : AnalysisClient) (db : AnalysisGraph)
    (settings : Settings) (changed : PlsqlObjectRecord) (filter : ImpactFilter) : Reads Impact :=
  compute_impact env client db changed
    (bounded_hops client.toNeo4jPlsqlAnalysisClient (filter.max_hops settings)) filter.direction
    (filter.relationships.getD PATH_RELATIONSHIPS)

/-- The changed object is cached in sound caches, and its impact is settled. -/
structure ImpactSettled (env : Environment) (client : AnalysisClient) (db : AnalysisGraph)
    (settings : Settings) (object_id : String) (filter : ImpactFilter)
    (changed : PlsqlObjectRecord) (impact : Impact) (s : ClientState) : Prop where
  sound : SoundCaches env client db s
  cached : s.object_cache.lookup object_id = some (some changed)
  computes : Computes env client db changed
    (bounded_hops client.toNeo4jPlsqlAnalysisClient (filter.max_hops settings)) filter.direction
    (filter.relationships.getD PATH_RELATIONSHIPS) impact s.object_cache

theorem ImpactSettled.progress {impact : Impact}
    (h : ImpactSettled env client db settings object_id filter changed impact s)
    (hprogress : Progress env client db s s') :
    ImpactSettled env client db settings object_id filter changed impact s' where
  sound := (hprogress h.sound).1
  cached := (hprogress h.sound).2 _ _ h.cached
  computes := h.computes.mono (hprogress h.sound).2

/-- With the changed object cached, a page of impacts is one of its traversal. -/
theorem impact_of_cached {direction : ImpactDirection}
    {relationships : Option (List PlsqlRelationship)}
    (hcached : s.object_cache.lookup object_id = some (some changed)) :
    (impact_of env client db moment object_id max_hops limit direction relationships
        offset).run.run s =
      match (impact_traversal env client db moment changed
        (bounded_hops client.toNeo4jPlsqlAnalysisClient max_hops) direction
        (relationships.getD PATH_RELATIONSHIPS)).run.run s with
      | (.ok impact, s') => (.ok (impact_page client impact limit offset), s')
      | (.error e, s') => (.error e, s') := by
  unfold impact_of
  rw [run_bind_ok (require_object_cached hcached)]
  simp only
  rw [run_bind]
  cases (impact_traversal env client db moment changed
      (bounded_hops client.toNeo4jPlsqlAnalysisClient max_hops) direction
      (relationships.getD PATH_RELATIONSHIPS)).run.run s with
  | mk found s₁ =>
    cases found with
    | error e => rfl
    | ok impact => rfl

/-- Once an impact is settled, its listing lists its items. -/
theorem lists_impact {impact : Impact} :
    Lists sha256 decode settings (.neo4j env client db) (.impact object_id filter)
      (impact.items.map .inr)
      (ImpactSettled env client db settings object_id filter changed impact) := by
  intro s choice cursor offset hstate hcursor hoffset
  have hchanged := hstate.sound.first_record hstate.cached
  obtain ⟨s', htraversal⟩ := @impact_traversal_settled env client db s changed _ _ _ _ choice.1
    hstate.sound hchanged hstate.computes
  have hprogress := (@impact_traversal_run env client db changed
    (bounded_hops client.toNeo4jPlsqlAnalysisClient (filter.max_hops settings)) filter.direction
    (filter.relationships.getD PATH_RELATIONSHIPS) choice.1 hchanged s).1
  rw [htraversal] at hprogress
  have hfound := @impact_of_cached env db client s object_id changed choice.1
    (filter.max_hops settings) (effective_page_limit settings choice.2) offset filter.direction
    filter.relationships hstate.cached
  rw [htraversal] at hfound
  have hroute := (@get_impact_route_ok_iff _ sha256 decode settings (.neo4j env client db) s s'
    cursor object_id choice.1 choice.2 filter _).mpr ⟨hcursor, changed, s, offset, _,
      get_object_cached hstate.cached, hoffset, hfound, rfl⟩
  refine ⟨_, s', @bounded_limit_pos (effective_page_limit settings choice.2)
    client.toNeo4jPlsqlAnalysisClient, hstate.progress hprogress, ?_⟩
  unfold Listing.serve
  simp only
  rw [run_bind_ok hroute, run_pure, ← slice_of_page, PlsqlImpactResult.page, impact_page]
  simp only [max_zero_toNat]

/-- A first page of impacts settles them. -/
theorem impact_settled {choice : Moment × PageLimit} {page : Page String ListedItem}
    (hsound : SoundCaches env client db s)
    (h : ((Listing.impact object_id filter).serve sha256 decode settings (.neo4j env client db)
      choice none).run.run s = (.ok page, s')) :
    ∃ changed impact size,
      ImpactSettled env client db settings object_id filter changed impact s' ∧ 0 < size ∧
      page = slice (encode_page_cursor ((Listing.impact object_id filter).scope sha256 settings))
        (impact.items.map .inr) 0 size := by
  unfold Listing.serve at h
  simp only at h
  obtain ⟨result, s₃, hroute, hpage⟩ := of_run_bind_ok h
  cases hpage
  obtain ⟨-, changed, s₁, offset, found, hget, hoffset, hfound, rfl⟩ :=
    get_impact_route_ok_iff.mp hroute
  cases hoffset
  have hlearn := @get_object_learns client db object_id s
  change (Reads.get_object client db object_id).run.run s = _ at hget
  rw [hget] at hlearn
  have hcached := get_object_again hget
  have hsound₁ := (hlearn.progress hsound).1
  obtain ⟨hprogress, hresult⟩ := @impact_traversal_run env client db changed
    (bounded_hops client.toNeo4jPlsqlAnalysisClient (filter.max_hops settings)) filter.direction
    (filter.relationships.getD PATH_RELATIONSHIPS) choice.1 (hsound₁.first_record hcached) s₁
  have hpage := @impact_of_cached env db client s₁ object_id changed choice.1
    (filter.max_hops settings) (effective_page_limit settings choice.2) (0 : Nat) filter.direction
    filter.relationships hcached
  change (impact_of env client db _ object_id _ _ _ _ _).run.run s₁ = _ at hfound
  rw [hpage] at hfound
  cases htraversal : (impact_traversal env client db choice.1 changed
      (bounded_hops client.toNeo4jPlsqlAnalysisClient (filter.max_hops settings)) filter.direction
      (filter.relationships.getD PATH_RELATIONSHIPS)).run.run s₁ with
  | mk outcome s₂ =>
    rw [htraversal] at hfound hprogress
    cases outcome with
    | error e => cases hfound
    | ok impact =>
      cases hfound
      refine ⟨changed, impact, _, ⟨(hprogress hsound₁).1, (hprogress hsound₁).2 _ _ hcached,
        hresult impact _ hsound₁ htraversal⟩, @bounded_limit_pos
          (effective_page_limit settings choice.2) client.toNeo4jPlsqlAnalysisClient, ?_⟩
      rw [← slice_of_page, PlsqlImpactResult.page, impact_page]
      rfl

end Neo4jImpact

section Synthetic

variable {synthetic : SyntheticPlsqlAnalysisClient}

theorem synthetic_limit_pos : 0 < synthetic.bounded_limit limit := by
  unfold SyntheticPlsqlAnalysisClient.bounded_limit
  omega

theorem lists_synthetic_paths (hsource : synthetic.by_id from_id = some source)
    (htarget : synthetic.by_id to_id = some target) :
    Lists sha256 decode settings (.synthetic env synthetic) (.paths from_id to_id)
      ((synthetic.all_paths env.sha1 from_id to_id settings.plsql_max_hops).map .inl)
      fun _ => True := by
  intro s choice cursor offset hstate hcursor hoffset
  have hroute := (@find_paths_route_ok_iff _ sha256 decode settings (.synthetic env synthetic) s s
    cursor from_id to_id choice.2 _).mpr ⟨hcursor, source, s, target, s, offset, _,
      by rw [← hsource]; rfl, by rw [← htarget]; rfl, hoffset, rfl, rfl⟩
  refine ⟨_, s, @synthetic_limit_pos (effective_page_limit settings choice.2) synthetic, hstate, ?_⟩
  unfold Listing.serve
  simp only
  rw [run_bind_ok hroute, run_pure, ← slice_of_page, PlsqlPathResult.page,
    SyntheticPlsqlAnalysisClient.find_paths]
  simp only [max_zero_toNat]

theorem lists_synthetic_impact (hchanged : synthetic.by_id object_id = some changed) :
    Lists sha256 decode settings (.synthetic env synthetic) (.impact object_id filter)
      ((synthetic.impact env object_id (filter.max_hops settings) filter.direction
        filter.relationships).items.map .inr) fun _ => True := by
  intro s choice cursor offset hstate hcursor hoffset
  have hroute := (@get_impact_route_ok_iff _ sha256 decode settings (.synthetic env synthetic) s s
    cursor object_id choice.1 choice.2 filter _).mpr ⟨hcursor, changed, s, offset, _,
      by rw [← hchanged]; rfl, hoffset, rfl, rfl⟩
  refine ⟨_, s, @synthetic_limit_pos (effective_page_limit settings choice.2) synthetic, hstate, ?_⟩
  unfold Listing.serve
  simp only
  rw [run_bind_ok hroute, run_pure, ← slice_of_page, PlsqlImpactResult.page,
    SyntheticPlsqlAnalysisClient.impact_of]
  simp only [max_zero_toNat]

end Synthetic

section Cursors

variable {σ τ : Type} {analysis : AnalysisGraphClient σ} {analysis' : AnalysisGraphClient τ}
  {settings' : Settings} {listing other : Listing} {cursor : Option String} {issued : String}
  {choice choice' : Moment × PageLimit} {page page' : Page String ListedItem} {t t' : σ}
  {u u' : τ}

theorem next_cursor_eq {scope : String} {offset shown : Nat} {truncated : Bool}
    (h : next_cursor scope offset shown truncated = some issued) :
    issued = encode_page_cursor scope (offset + shown) := by
  unfold next_cursor at h
  split_ifs at h
  exact (Option.some.inj h).symm

/-- The cursor of the next page is one of the listing's scope. -/
theorem next_of_serve
    (h : (listing.serve sha256 decode settings analysis choice cursor).run.run t = (.ok page, t'))
    (hnext : page.next = some issued) :
    ∃ offset, issued = encode_page_cursor (listing.scope sha256 settings) offset := by
  cases listing with
  | paths from_id to_id =>
    obtain ⟨result, t₁, hroute, hpage⟩ := of_run_bind_ok h
    cases hpage
    obtain ⟨-, _, _, _, _, offset, found, -, -, -, -, rfl⟩ := find_paths_route_ok_iff.mp hroute
    exact ⟨_, next_cursor_eq hnext⟩
  | impact object_id filter =>
    obtain ⟨result, t₁, hroute, hpage⟩ := of_run_bind_ok h
    cases hpage
    obtain ⟨-, _, _, offset, found, -, -, -, rfl⟩ := get_impact_route_ok_iff.mp hroute
    exact ⟨_, next_cursor_eq hnext⟩

/-- A page is served for a cursor that can be read in the listing's scope. -/
theorem cursor_of_serve
    (h : (listing.serve sha256 decode settings analysis choice (some issued)).run.run t =
      (.ok page, t')) :
    Accepted issued ∧
      ∃ offset, decode_page_cursor decode (some issued) (listing.scope sha256 settings) =
        .ok offset := by
  cases listing with
  | paths from_id to_id =>
    obtain ⟨result, t₁, hroute, -⟩ := of_run_bind_ok h
    obtain ⟨hcursor, _, _, _, _, offset, _, -, -, hoffset, -⟩ := find_paths_route_ok_iff.mp hroute
    exact ⟨hcursor issued rfl, offset, hoffset⟩
  | impact object_id filter =>
    obtain ⟨result, t₁, hroute, -⟩ := of_run_bind_ok h
    obtain ⟨hcursor, _, _, offset, _, -, hoffset, -⟩ := get_impact_route_ok_iff.mp hroute
    exact ⟨hcursor issued rfl, offset, hoffset⟩

theorem query_bounded : (listing.query settings).Bounded := by
  have hbound : 50 < LIST_BOUND := by decide
  have hhops := settings.plsql_max_hops_le
  cases listing with
  | paths from_id to_id =>
    change settings.plsql_max_hops < LIST_BOUND
    omega
  | impact object_id filter =>
    change filter.max_hops settings < LIST_BOUND
    unfold ImpactFilter.max_hops
    split_ifs <;> omega

/-- A cursor issued for one query is refused for any other, whatever the state. -/
theorem foreign_cursor_refused
    (hissued : (listing.serve sha256 decode settings analysis choice cursor).run.run t =
      (.ok page, t')) (hnext : page.next = some issued)
    (hquery : listing.query settings ≠ other.query settings')
    (hhash : sha256 (listing.query settings).text = sha256 (other.query settings').text →
      (listing.query settings).text = (other.query settings').text) :
    (other.serve sha256 decode settings' analysis' choice' (some issued)).run.run u ≠
      (.ok page', u') := by
  intro hserved
  obtain ⟨offset, rfl⟩ := next_of_serve hissued hnext
  obtain ⟨haccepted, found, hdecode⟩ := cursor_of_serve hserved
  have hscope : listing.scope sha256 settings ≠ other.scope sha256 settings' := fun heq =>
    hquery (pagination_scope_injective hhash query_bounded query_bounded heq)
  rw [decode_encode (short_of_accepted haccepted), if_neg hscope] at hdecode
  cases hdecode

end Cursors

end lagraph.plsql
