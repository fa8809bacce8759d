import LaGraph.Plsql.FindPaths.SimplePaths

open foundation

namespace lagraph.plsql

variable {sha1 : String → String} {client : Neo4jPlsqlAnalysisClient} {db : GraphDb}
  {cache : ObjectCache} {from_id to_id source target : String} {max_hops : Int}

/-- The pages of a path search list `paths`: every page succeeds, shows its part
of the list and counts the whole of it. -/
def PagesList (sha1 : String → String) (client : Neo4jPlsqlAnalysisClient) (db : GraphDb)
    (cache : ObjectCache) (from_id to_id : String) (max_hops : Int)
    (paths : List (List EdgeTriple)) : Prop :=
  ∀ limit offset, ∃ page,
    find_paths sha1 client db cache from_id to_id max_hops limit offset = .ok page ∧
      page.items.map (fun record => record.steps.map (·.triple)) =
        (paths.drop (max 0 offset).toNat).take (bounded_limit client limit) ∧
      page.total = paths.length

/-- The simple paths between two qualified names within a hop bound. -/
def SimplePathWithin (client : Neo4jPlsqlAnalysisClient) (db : GraphDb) (source target : String)
    (hops : Int) (p : List EdgeTriple) : Prop :=
  (p.length : Int) ≤ hops ∧ (path_graph client db).SimplePath source target p

/-- Over all pages, `find_paths` produces exactly the simple paths within the
smaller of the two hop bounds, each once. -/
def EnumeratesSimplePaths (sha1 : String → String) (client : Neo4jPlsqlAnalysisClient)
    (db : GraphDb) (cache : ObjectCache) (from_id to_id source target : String)
    (max_hops : Int) : Prop :=
  ∃ paths, PagesList sha1 client db cache from_id to_id max_hops paths ∧ paths.Nodup ∧
    ∀ p, p ∈ paths ↔ SimplePathWithin client db source target (min max_hops client.max_hops) p

/-- The pages determine the list. -/
theorem PagesList.unique {paths others : List (List EdgeTriple)}
    (h : PagesList sha1 client db cache from_id to_id max_hops paths)
    (hothers : PagesList sha1 client db cache from_id to_id max_hops others) :
    paths = others := by
  apply List.ext_getElem?
  intro i
  obtain ⟨page, hpage, hitems, -⟩ := h 1 i
  obtain ⟨page', hpage', hitems', -⟩ := hothers 1 i
  obtain rfl : page = page' := Except.ok.inj (hpage.symm.trans hpage')
  have hone : bounded_limit client 1 = 1 := by
    have hrows := client.max_rows_pos
    unfold bounded_limit
    omega
  have hoffset : (max 0 (i : Int)).toNat = i := by omega
  rw [hone, hoffset, List.take_one, List.head?_drop] at hitems hitems'
  simpa using congrArg List.head? (hitems.symm.trans hitems')

/-- Once both objects are found, the pages list the result of the search. -/
theorem pagesList_all_paths {from_object to_object : PlsqlObjectRecord}
    {from_cache to_cache : ObjectCache} {paths : List (List PlsqlDependencyRecord)}
    (hfrom : require_object client db cache from_id = .ok (from_object, from_cache))
    (hto : require_object client db from_cache to_id = .ok (to_object, to_cache))
    (hne : from_object.qualified_name ≠ to_object.qualified_name)
    (hpaths : all_paths client db from_object.qualified_name to_object.qualified_name
      (bounded_hops client max_hops) = .ok paths) :
    PagesList sha1 client db cache from_id to_id max_hops (paths.map (·.map (·.triple))) := by
  intro limit offset
  refine ⟨path_page client (paths.map (path_record sha1 client)) limit offset, ?_, ?_, ?_⟩
  · simp only [find_paths, hfrom, hto, hpaths, if_neg hne, Bind.bind, Except.bind]
  · simp only [path_page, List.map_take, List.map_drop, List.map_map]
    rfl
  · simp [path_page]

/-- A search allowed no hop still tries one. -/
theorem le_bounded_hops_iff {hops : Nat} :
    hops ≤ bounded_hops client max_hops ↔
      (hops : Int) ≤ min max_hops client.max_hops ∨ max_hops < 1 ∧ hops ≤ 1 := by
  have hcap := client.max_hops_pos
  unfold bounded_hops
  omega

/-- Between distinct ends, a single-edge path is an edge that joins them. -/
theorem direct_edge_of_simplePath {p : List EdgeTriple} (hne : source ≠ target)
    (hlen : p.length ≤ 1) (hp : (path_graph client db).SimplePath source target p) :
    ∃ e, p = [e] ∧ (path_graph client db).Edge e ∧ e.source = source ∧ e.target = target := by
  obtain ⟨hw, -⟩ := hp
  rcases p with _ | ⟨e, _ | ⟨f, p⟩⟩
  · exact absurd hw hne
  · exact ⟨e, rfl, hw.1, hw.2.1, hw.2.2⟩
  · simp at hlen

theorem simplePath_of_direct_edge {e : EdgeTriple} (hne : source ≠ target)
    (he : (path_graph client db).Edge e) (hsource : e.source = source)
    (htarget : e.target = target) : (path_graph client db).SimplePath source target [e] := by
  refine ⟨⟨he, hsource, htarget⟩, ?_⟩
  simpa [Multigraph.nodes, path_graph, htarget] using hne

theorem direct_singleton {e : EdgeTriple} : (path_graph client db).Direct target source [e] := by
  rw [← List.nil_append [e], Multigraph.direct_concat]
  exact ⟨Multigraph.direct_nil, by simp⟩

/-- A path search enumerates the simple paths exactly when every one of them
enters each of its nodes at that node's smallest depth, and, should it be
allowed no hop at all, no edge joins the two objects. -/
theorem find_paths_enumerates_iff {from_object to_object : PlsqlObjectRecord}
    {from_cache to_cache : ObjectCache}
    (hfrom : require_object client db cache from_id = .ok (from_object, from_cache))
    (hto : require_object client db from_cache to_id = .ok (to_object, to_cache))
    (hfromId : from_id = object_id client.project_id from_object.qualified_name)
    (htoId : to_id = object_id client.project_id to_object.qualified_name)
    (hdistinct : from_id ≠ to_id) (hmap : RowsMap client db) (hids : EdgesIdentified client db)
    (hbudget : WithinBudget client db from_object.qualified_name to_object.qualified_name
      (bounded_hops client max_hops)) :
    EnumeratesSimplePaths sha1 client db cache from_id to_id from_object.qualified_name
        to_object.qualified_name max_hops ↔
      (1 ≤ max_hops ∨ ∀ e, (path_graph client db).Edge e →
        ¬ (e.source = from_object.qualified_name ∧ e.target = to_object.qualified_name)) ∧
      ∀ p, SimplePathWithin client db from_object.qualified_name to_object.qualified_name
          (min max_hops client.max_hops) p →
        (path_graph client db).Direct to_object.qualified_name from_object.qualified_name p := by
  have hne : from_object.qualified_name ≠ to_object.qualified_name := by
    intro heq
    exact hdistinct (by rw [hfromId, htoId, heq])
  obtain ⟨found, hfound, hnodup, hmem⟩ := all_paths_spec hne hmap hids hbudget
  have hpages : PagesList sha1 client db cache from_id to_id max_hops
      (found.map (·.map (·.triple))) := pagesList_all_paths hfrom hto hne hfound
  simp only [Multigraph.arrives_iff hne, le_bounded_hops_iff] at hmem
  constructor
  · rintro ⟨paths, hpaths, -, hall⟩
    obtain rfl := hpaths.unique hpages
    refine ⟨?_, fun p hp => ((hmem p).mp ((hall p).mpr hp)).2.2⟩
    by_contra hnone
    simp only [not_or, not_forall, not_not] at hnone
    obtain ⟨hhops, e, he, hsource, htarget⟩ := hnone
    have hsimple := simplePath_of_direct_edge hne he hsource htarget
    have hin := (hall [e]).mp ((hmem [e]).mpr ⟨Or.inr ⟨by omega, by simp⟩, hsimple,
      direct_singleton⟩)
    have hlen := hin.1
    simp only [List.length_singleton] at hlen
    omega
  · rintro ⟨hhops, hdirect⟩
    refine ⟨_, hpages, hnodup, fun p => (hmem p).trans ⟨?_, ?_⟩⟩
    · rintro ⟨hlen | ⟨hzero, hlen⟩, hsimple, -⟩
      · exact ⟨hlen, hsimple⟩
      · obtain ⟨e, rfl, he, hsource, htarget⟩ := direct_edge_of_simplePath hne hlen hsimple
        rcases hhops with hpos | hnone
        · omega
        · exact absurd ⟨hsource, htarget⟩ (hnone e he)
    · intro hp
      exact ⟨Or.inl hp.1, hp.2, hdirect p hp⟩

/-- The dependencies of a database that its rows map to. -/
def dependencies (client : Neo4jPlsqlAnalysisClient) (db : GraphDb) :
    List PlsqlDependencyRecord :=
  db.relationships.filterMap fun row =>
    (dependency_from_row client.project_id row (file_map db client.project_id)).toOption.join

theorem rowsMap_of_all
    (h : ∀ row ∈ db.relationships, ((dependency_from_row client.project_id row
      (file_map db client.project_id)).toOption.join).isSome = true) :
    RowsMap client db := by
  intro row hrow
  have hsome := h row hrow.1
  revert hsome
  cases dependency_from_row client.project_id row (file_map db client.project_id) with
  | error e => simp [Except.toOption]
  | ok edge =>
    cases edge with
    | none => simp [Except.toOption]
    | some edge => exact fun _ => ⟨edge, rfl⟩

theorem edgesIdentified_of_all (hmap : RowsMap client db)
    (h : ∀ a ∈ dependencies client db, ∀ b ∈ dependencies client db,
      a.id = b.id → a.triple = b.triple) :
    EdgesIdentified client db := by
  have hdependency : ∀ e, (path_graph client db).Edge e → ∃ a ∈ dependencies client db,
      a.triple = e ∧ a.id = e.id client.project_id := by
    rintro e ⟨row, hrow, hof⟩
    obtain ⟨edge, hedge⟩ := hmap row hrow
    obtain ⟨hof', hid⟩ := dependency_from_row_triple hedge
    obtain rfl := EdgeTriple.eq_of_row hof' hof
    refine ⟨edge, List.mem_filterMap.mpr ⟨row, hrow.1, ?_⟩, rfl, hid⟩
    rw [hedge]
    rfl
  intro e f he hf hid
  obtain ⟨a, ha, rfl, haid⟩ := hdependency e he
  obtain ⟨b, hb, rfl, hbid⟩ := hdependency f hf
  exact h a ha b hb (by rw [haid, hbid, hid])

/-- A package node of the project `p`. -/
def package (name : String) : DatabaseObject where
  labels := ["DatabaseObject", "Package"]
  projectId := some "p"
  qualifiedName := some name
  name := none

def package_record (name : String) : PlsqlObjectRecord where
  id := object_id "p" name
  kind := .Package
  name := name
  schema_name := name
  qualified_name := name
  project_id := "p"
  owner := none
  evidence := none

def call (source target : String) : Relationship where
  source := package source
  target := package target
  type := "CALLS"

def calls (source target : String) : EdgeTriple := ⟨.CALLS, source, target⟩

/-- A diamond with arms of unequal length: `X` is called by `A` and, through
`B`, again one hop later. -/
def diamond : GraphDb where
  objects := [package "A", package "B", package "X", package "T"]
  files := []
  relationships := [call "A" "X", call "A" "B", call "B" "X", call "X" "T"]

def diamond_client : Neo4jPlsqlAnalysisClient := .init "p" 200 5 100

set_option maxRecDepth 10000

theorem diamond_rowsMap : RowsMap diamond_client diamond :=
  rowsMap_of_all (by decide)

theorem diamond_edgesIdentified : EdgesIdentified diamond_client diamond :=
  edgesIdentified_of_all diamond_rowsMap (by decide)

theorem diamond_source : require_object diamond_client diamond [] (object_id "p" "A") =
    .ok (package_record "A", [(object_id "p" "A", some (package_record "A"))]) := by
  decide

theorem diamond_target : require_object diamond_client diamond
      [(object_id "p" "A", some (package_record "A"))] (object_id "p" "T") =
    .ok (package_record "T", [(object_id "p" "T", some (package_record "T")),
      (object_id "p" "A", some (package_record "A"))]) := by
  decide

theorem diamond_withinBudget : WithinBudget diamond_client diamond "A" "T"
    (bounded_hops diamond_client 5) := by
  intro h
  have hsome : (search_rounds diamond_client diamond "T" (bounded_hops diamond_client 5)
      (search_start "A")).toOption.isSome = true := by decide
  rw [h] at hsome
  cases hsome

/-- The digest of the diamond's shorter path. -/
def diamond_sha1 (_trail : String) : String := "07a45d2983fd51b42458cf2ebf00f6914efb353e"

/-- The search reports one path of the diamond only. -/
theorem diamond_pages {paths : List (List EdgeTriple)}
    (h : PagesList diamond_sha1 diamond_client diamond [] (object_id "p" "A")
      (object_id "p" "T") 5 paths) :
    paths = [[calls "A" "X", calls "X" "T"]] := by
  obtain ⟨page, hpage, hitems, htotal⟩ := h 10 0
  have hrun : (find_paths diamond_sha1 diamond_client diamond [] (object_id "p" "A")
      (object_id "p" "T") 5 10 0).toOption.map (fun page =>
        (page.items.map (fun record => record.steps.map (·.triple)), page.total)) =
      some ([[calls "A" "X", calls "X" "T"]], 1) := by decide
  rw [hpage] at hrun
  simp only [Except.toOption, Option.map_some, Option.some.injEq, Prod.mk.injEq] at hrun
  have hlen : paths.length ≤ 10 := by omega
  have hlimit : bounded_limit diamond_client 10 = 10 := by decide
  rw [hrun.1, hlimit] at hitems
  simpa [List.take_of_length_le hlen] using hitems.symm

/-- The route through `B` is a simple path within the bounds. -/
theorem diamond_longer_path : SimplePathWithin diamond_client diamond "A" "T"
    (min 5 diamond_client.max_hops) [calls "A" "B", calls "B" "X", calls "X" "T"] := by
  have hedge : ∀ a b, call a b ∈ diamond.relationships →
      (path_graph diamond_client diamond).Edge (calls a b) := by
    intro a b hmem
    have htype : "CALLS" ∈ PATH_RELATIONSHIPS.map (·.name) := by decide
    exact ⟨call a b, ⟨hmem, rfl, htype⟩, rfl, rfl, rfl⟩
  refine ⟨by decide, ⟨hedge _ _ ?_, rfl, hedge _ _ ?_, rfl, hedge _ _ ?_, rfl, rfl⟩, ?_⟩
  · decide
  · decide
  · decide
  · change ["A", "B", "X", "T"].Nodup
    decide

/-- In the diamond every premise holds, and the path through `B` is missing. -/
theorem diamond_path_missing :
    (RowsMap diamond_client diamond ∧ EdgesIdentified diamond_client diamond ∧
      WithinBudget diamond_client diamond "A" "T" (bounded_hops diamond_client 5)) ∧
    ¬ EnumeratesSimplePaths diamond_sha1 diamond_client diamond [] (object_id "p" "A")
      (object_id "p" "T") "A" "T" 5 := by
  refine ⟨⟨diamond_rowsMap, diamond_edgesIdentified, diamond_withinBudget⟩, ?_⟩
  rintro ⟨paths, hpages, -, hall⟩
  have hmem := (hall _).mpr diamond_longer_path
  rw [diamond_pages hpages] at hmem
  exact absurd hmem (by decide)

theorem find_paths_enumerates_iff_diamond :
    EnumeratesSimplePaths diamond_sha1 diamond_client diamond [] (object_id "p" "A")
        (object_id "p" "T") "A" "T" 5 ↔
      ((1 : Int) ≤ 5 ∨ ∀ e, (path_graph diamond_client diamond).Edge e →
        ¬ (e.source = "A" ∧ e.target = "T")) ∧
      ∀ p, SimplePathWithin diamond_client diamond "A" "T" (min 5 diamond_client.max_hops) p →
        (path_graph diamond_client diamond).Direct "T" "A" p :=
  find_paths_enumerates_iff diamond_source diamond_target rfl rfl (by decide) diamond_rowsMap
    diamond_edgesIdentified diamond_withinBudget

end lagraph.plsql
