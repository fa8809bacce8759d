import LaGraph.Plsql.Endpoints.Pages
import LaGraph.Plsql.Isolation

open foundation foundation.Stateful foundation.json

namespace lagraph.plsql

variable {σ : Type} {sha256 : List Char → List (Fin 16)} {decode : List Nat → Option (List Char)}
  {settings : Settings} {env : Environment}

/-- The whole result of a listing over a graph database. -/
def neo4j_result (env : Environment) (client : AnalysisClient) (db : AnalysisGraph)
    (settings : Settings) : Listing → Reads (List ListedItem)
  | .paths from_id to_id => do
    let source ← Reads.require_object client db from_id
    let target ← Reads.require_object client db to_id
    let records ← paths_between env client db source target
      (bounded_hops client.toNeo4jPlsqlAnalysisClient settings.plsql_max_hops)
    pure (records.map .inl)
  | .impact object_id filter => do
    let changed ← Reads.require_object client db object_id
    let impact ← impact_between env client db settings changed filter
    pure (impact.items.map .inr)

/-- The whole result of a listing over a fixed corpus. -/
def synthetic_result (env : Environment) (client : SyntheticPlsqlAnalysisClient)
    (settings : Settings) : Listing → List ListedItem
  | .paths from_id to_id =>
    (client.all_paths env.sha1 from_id to_id settings.plsql_max_hops).map .inl
  | .impact object_id filter =>
    (client.impact env object_id (filter.max_hops settings) filter.direction
      filter.relationships).items.map .inr

/-- A first page that is not refused begins a walk over the whole result: the cursors visit
every item once and in order, on at most one page for each item. -/
def VisitsAll (serve : Moment × PageLimit → Option String → Served σ (Page String ListedItem))
    (result : ExceptT Raised (StateM σ) (List ListedItem)) (choices : Nat → Moment × PageLimit)
    (others : Nat → σ → σ) (s : σ) : Prop :=
  match (serve (choices 0) none).run.run (others 0 s) with
  | (.error _, _) => True
  | (.ok _, s') => ∃ items, result.run.run s' = (.ok items, s') ∧
      (items.length < LIST_BOUND →
        follow serve choices others (items.length + 1) 0 none s = some items)

theorem visitsAll_of_lists {analysis : AnalysisGraphClient σ} {listing : Listing}
    {result : ExceptT Raised (StateM σ) (List ListedItem)} {choices : Nat → Moment × PageLimit}
    {others : Nat → σ → σ} {s : σ} (hlength : ∀ text, (sha256 text).length = 64)
    (hfirst : ∀ page s', (listing.serve sha256 decode settings analysis (choices 0) none).run.run
      (others 0 s) = (.ok page, s') → ∃ (items : List ListedItem) (I : σ → Prop) (size : Nat),
        Lists sha256 decode settings analysis listing items I ∧ (∀ k s, I s → I (others k s)) ∧
          I s' ∧ 0 < size ∧ result.run.run s' = (.ok items, s') ∧
          page = slice (encode_page_cursor (listing.scope sha256 settings)) items 0 size) :
    VisitsAll (listing.serve sha256 decode settings analysis) result choices others s := by
  unfold VisitsAll
  cases hserve : (listing.serve sha256 decode settings analysis (choices 0) none).run.run
      (others 0 s) with
  | mk found s' =>
    cases found with
    | error e => trivial
    | ok page =>
      obtain ⟨items, I, size, hlists, hothers, hstate, hsize, hresult, rfl⟩ :=
        hfirst page s' hserve
      exact ⟨items, hresult, fun hbound =>
        (hlists.pages hlength hbound).follow_all hothers hsize hstate hserve⟩

section Neo4j

variable {client : AnalysisClient} {db : AnalysisGraph} {choices : Nat → Moment × PageLimit}
  {asked : List (Moment × Request)} {between : Nat → List (Moment × Request)}

theorem sound_between (k : Nat) : SoundCaches env client db
    (state_after env client db (state_after env client db .init asked) (between k)) :=
  (state_after_progress _ _ (soundCaches_state_after asked)).1

/-- Over a graph database, from whatever caches and with whatever requests in between. -/
theorem neo4j_visitsAll (hlength : ∀ text, (sha256 text).length = 64) (listing : Listing) :
    VisitsAll (listing.serve sha256 decode settings (.neo4j env client db))
      (neo4j_result env client db settings listing) choices
      (fun k s => state_after env client db s (between k))
      (state_after env client db .init asked) := by
  refine visitsAll_of_lists hlength fun page s' hserve => ?_
  cases listing with
  | paths from_id to_id =>
    obtain ⟨source, target, records, size, hrecords, hsettled, hsize, hpage⟩ :=
      paths_settled (sound_between 0) hserve
    refine ⟨_, _, size, lists_paths hrecords, fun k s h => h.progress (state_after_progress _ _),
      hsettled, hsize, ?_, hpage⟩
    unfold neo4j_result
    simp only
    rw [run_bind_ok (require_object_cached hsettled.source_cached),
      run_bind_ok (require_object_cached hsettled.target_cached), run_bind, run_lift, hrecords]
    rfl
  | impact object_id filter =>
    obtain ⟨changed, impact, size, hsettled, hsize, hpage⟩ :=
      impact_settled (sound_between 0) hserve
    refine ⟨_, _, size, lists_impact, fun k s h => h.progress (state_after_progress _ _),
      hsettled, hsize, ?_, hpage⟩
    have himpact : (impact_between env client db settings changed filter).run.run s' =
        (.ok impact, s') := hsettled.computes s' (Extends.refl _)
    unfold neo4j_result
    simp only
    rw [run_bind_ok (require_object_cached hsettled.cached), run_bind_ok himpact]
    rfl

end Neo4j

section Synthetic

variable {client : SyntheticPlsqlAnalysisClient} {choices : Nat → Moment × PageLimit}

/-- Over a fixed corpus. -/
theorem synthetic_visitsAll (hlength : ∀ text, (sha256 text).length = 64) (listing : Listing) :
    VisitsAll (listing.serve sha256 decode settings (.synthetic env client))
      (pure (synthetic_result env client settings listing)) choices (fun _ s => s) () := by
  refine visitsAll_of_lists hlength fun page s' hserve => ?_
  have hscope : ∀ c, none = some c → Accepted c := fun c h => by cases h
  cases listing with
  | paths from_id to_id =>
    obtain ⟨result, t, hroute, -⟩ := of_run_bind_ok hserve
    obtain ⟨-, source, s₁, target, s₂, offset, found, hsource, htarget, -⟩ :=
      find_paths_route_ok_iff.mp hroute
    have hlists := @lists_synthetic_paths sha256 decode settings env from_id to_id source target
      client (Except.ok.inj (congrArg Prod.fst hsource)) (Except.ok.inj (congrArg Prod.fst htarget))
    obtain ⟨size, s₃, hsize, -, hpage⟩ := hlists () (choices 0) none 0 trivial hscope rfl
    rw [hserve] at hpage
    cases hpage
    exact ⟨_, fun _ => True, size, hlists, fun _ _ _ => trivial, trivial, hsize, rfl, rfl⟩
  | impact object_id filter =>
    obtain ⟨result, t, hroute, -⟩ := of_run_bind_ok hserve
    obtain ⟨-, changed, s₁, offset, found, hchanged, -⟩ := get_impact_route_ok_iff.mp hroute
    have hlists := @lists_synthetic_impact sha256 decode settings env object_id changed filter
      client (Except.ok.inj (congrArg Prod.fst hchanged))
    obtain ⟨size, s₃, hsize, -, hpage⟩ := hlists () (choices 0) none 0 trivial hscope rfl
    rw [hserve] at hpage
    cases hpage
    exact ⟨_, fun _ => True, size, hlists, fun _ _ _ => trivial, trivial, hsize, rfl, rfl⟩

end Synthetic

/-- A cursor that one query has issued is refused for every other one, wherever and under
whatever settings it is presented. -/
def RefusesForeign (sha256 : List Char → List (Fin 16))
    (decode : List Nat → Option (List Char)) (settings settings' : Settings)
    (listing other : Listing) : Prop :=
  ∀ (σ τ : Type) (analysis : AnalysisGraphClient σ) (analysis' : AnalysisGraphClient τ)
    (choice choice' : Moment × PageLimit) (cursor : Option String) (issued : String)
    (page page' : Page String ListedItem) (s s' : σ) (t t' : τ),
    (listing.serve sha256 decode settings analysis choice cursor).run.run s = (.ok page, s') →
    page.next = some issued →
    (other.serve sha256 decode settings' analysis' choice' (some issued)).run.run t ≠
      (.ok page', t')

section Chain

def chain_object (name : String) : PlsqlObjectRecord where
  id := name
  kind := .Procedure
  name := name
  schema_name := name
  qualified_name := name
  project_id := "p"
  owner := none
  evidence := none

def chain_call (source target : String) : PlsqlDependencyRecord where
  id := source ++ target
  relationship := .CALLS
  resolution := .EXACT
  source_id := source
  source_kind := .Procedure
  source_name := source
  source_qualified_name := source
  target_id := target
  target_kind := .Procedure
  target_name := target
  target_qualified_name := target
  evidence := none
  evidence_kind := none
  derived := none
  events := none
  via_table_id := none
  via_table_kind := none
  via_table_name := none
  via_table_qualified_name := none

/-- `A` calls `B`, and `B` calls `C`. -/
def chain_client : SyntheticPlsqlAnalysisClient where
  project_id := "p"
  max_rows := 200
  corpus := [chain_object "A", chain_object "B", chain_object "C"]
  edges := [chain_call "A" "B", chain_call "B" "C"]
  max_rows_pos := by omega

def chain_settings : Settings where
  plsql_max_rows := 200
  plsql_max_hops := 5
  plsql_max_rows_pos := by omega
  plsql_max_hops_pos := by omega
  plsql_max_hops_le := by omega

/-- The impact of `C`. -/
def chain_impact : Listing :=
  .impact "C" { direction := .upstream, depth := none, relationship := none, direct_only := false,
                writes_only := false }

def chain_paths : Listing :=
  .paths "A" "C"

/-- The digits of a hexadecimal text. -/
def digest (hex : String) : List (Fin 16) :=
  hex.toList.map fun c => Fin.ofNat 16 ((hexValue c).getD 0)

/-- The digests of the two queries. -/
def chain_sha256 (text : List Char) : List (Fin 16) :=
  if text = (chain_impact.query chain_settings).text then
    digest "7da547510b0bc2eb1459b88a7db3c2a0ccb72ae3c8621ce93c6b29102d094780"
  else digest "be6656e7472ac2572f0ece77d413aa5a55bde69c5e7716a9e7e5f5a1811fc808"

theorem length_chain_sha256 (text : List Char) : (chain_sha256 text).length = 64 := by
  unfold chain_sha256
  split_ifs
  · rfl
  · rfl

/-- One item a page. -/
def one_by_one (_page : Nat) : Moment × PageLimit :=
  ({ asked := 0, finished := 0 }, { value := 1, pos := by omega, le := by omega })

theorem chain_first_page : ∃ page,
    (chain_impact.serve chain_sha256 (fun _ => none) chain_settings
      (.synthetic shared_environment chain_client) (one_by_one 0) none).run.run () =
        (.ok page, ()) := by
  obtain ⟨size, s', -, -, hpage⟩ := @lists_synthetic_impact chain_sha256 (fun _ => none)
    chain_settings shared_environment "C" (chain_object "C") _ chain_client (by decide) ()
    (one_by_one 0) none 0 trivial (fun c h => by cases h) rfl
  exact ⟨_, hpage⟩

end Chain

end lagraph.plsql
