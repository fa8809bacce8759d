import LaGraph.Plsql.Caches
import LaGraph.Plsql.Dependencies.Rows
import LaGraph.Plsql.Synthetic.Dependencies

open foundation foundation.Stateful

namespace lagraph.plsql

/-- The summary counts what there is in every category, and says when it lists less of the
selected one. -/
structure PlsqlDependencySummaryRecord.Exact (summary : PlsqlDependencySummaryRecord)
    (category : PlsqlDependencyCategory) (matching : PlsqlDependencyCategory → Nat) : Prop where
  counts : ∀ category, summary.counts category = matching category
  total : summary.total = summary.counts category
  truncated : summary.truncated = true ↔ summary.items.length < matching category

/-- Whether a relationship belongs to a category of table access. -/
def of_access (category : PlsqlDependencyCategory) (relationship : String) : Bool :=
  match category with
  | .reads => relationship = PlsqlRelationship.READS.name
  | .writes => relationship = PlsqlRelationship.WRITES.name
  | _ => relationship ≠ PlsqlRelationship.READS.name ∧ relationship ≠ PlsqlRelationship.WRITES.name

/-- The categories of table access. -/
def ACCESS_CATEGORIES : List PlsqlDependencyCategory :=
  [.reads, .writes, .other]

variable {callers callees access : List PlsqlDependencyRecord} {category : PlsqlDependencyCategory}
  {summary : PlsqlDependencySummaryRecord}

theorem relationship_iff {r s : PlsqlRelationship} : r.name = s.name ↔ r = s :=
  ⟨PlsqlRelationship.name_injective, fun h => by rw [h]⟩

theorem length_bucket (h : category ∈ ACCESS_CATEGORIES) :
    (bucket callers callees access category).length =
      access.countP fun edge => of_access category edge.relationship.name := by
  rw [List.countP_eq_length_filter]
  simp only [ACCESS_CATEGORIES, List.mem_cons, List.not_mem_nil, or_false] at h
  rcases h with rfl | rfl | rfl <;> simp only [bucket, of_access, relationship_iff, ne_eq]

/-- Every relationship belongs to one of the categories. -/
theorem of_access_or (relationship : String) :
    (of_access .reads relationship || (of_access .writes relationship ||
      of_access .other relationship)) = true := by
  unfold of_access
  by_cases hreads : relationship = PlsqlRelationship.READS.name
  · simp [hreads]
  · by_cases hwrites : relationship = PlsqlRelationship.WRITES.name
    · simp [hwrites]
    · simp [hreads, hwrites]

/-- What makes up a summary from the three pages. -/
structure Summarises (summary : PlsqlDependencySummaryRecord) (category : PlsqlDependencyCategory)
    (bounded : Nat) (callers callees access : PlsqlDependencyPage) : Prop where
  count_callers : summary.counts .callers = callers.total
  count_callees : summary.counts .callees = callees.total
  count_access : ∀ category ∈ ACCESS_CATEGORIES, summary.counts category =
    access.items.countP fun edge => of_access category edge.relationship.name
  items : summary.items =
    (bucket callers.items callees.items access.items category).take bounded
  truncated : summary.truncated =
    decide (bounded < (bucket callers.items callees.items access.items category).length)
  total : summary.total = (bucket callers.items callees.items access.items category).length

theorem mem_access_categories : category ∈ ACCESS_CATEGORIES ↔
    category ≠ .callers ∧ category ≠ .callees := by
  cases category <;> decide

/-- A summary is exact when the page of accesses and that of the selected category are. -/
theorem Summarises.exact_iff {callers callees access : PlsqlDependencyPage} {bounded : Nat}
    {matching : PlsqlDependencyCategory → Nat}
    (h : Summarises summary category bounded callers callees access)
    (hcallers : callers.total = matching .callers) (hcallees : callees.total = matching .callees) :
    summary.Exact category matching ↔
      (∀ category ∈ ACCESS_CATEGORIES, (access.items.countP fun edge =>
        of_access category edge.relationship.name) = matching category) ∧
      (category = .callers → callers.items.length = matching .callers) ∧
      (category = .callees → callees.items.length = matching .callees) := by
  constructor
  · intro hexact
    have htotal := hexact.total
    rw [h.total, hexact.counts] at htotal
    refine ⟨fun category hcategory => ?_, ?_, ?_⟩
    · rw [← h.count_access category hcategory, hexact.counts]
    · rintro rfl
      exact htotal
    · rintro rfl
      exact htotal
  · rintro ⟨haccess, hselected, hselected'⟩
    have hcounts : ∀ category, summary.counts category = matching category := by
      intro category
      by_cases hcategory : category ∈ ACCESS_CATEGORIES
      · rw [h.count_access category hcategory, haccess category hcategory]
      · rw [mem_access_categories, not_and_or, not_not, not_not] at hcategory
        rcases hcategory with rfl | rfl
        · rw [h.count_callers, hcallers]
        · rw [h.count_callees, hcallees]
    have hlength : (bucket callers.items callees.items access.items category).length =
        matching category := by
      by_cases hcategory : category ∈ ACCESS_CATEGORIES
      · rw [length_bucket hcategory, haccess category hcategory]
      · rw [mem_access_categories, not_and_or, not_not, not_not] at hcategory
        rcases hcategory with rfl | rfl
        · exact hselected rfl
        · exact hselected' rfl
    refine ⟨hcounts, ?_, ?_⟩
    · rw [h.total, hlength, hcounts]
    · rw [h.truncated, h.items, List.length_take, hlength, decide_eq_true_eq]
      omega

section Neo4j

variable {client : AnalysisClient} {db : AnalysisGraph} {record : PlsqlObjectRecord}
  {clause : Relationship → Bool} {object_id : String} {s : ClientState}

/-- All the matches of a clause fit in a page and have named ends. -/
def Complete (client : AnalysisClient) (db : AnalysisGraph) (clause : Relationship → Bool) :
    Prop :=
  (edge_matches db.toGraphDb client.project_id clause).length ≤ client.max_rows ∧
    ∀ row ∈ edge_matches db.toGraphDb client.project_id clause, named row = true

theorem complete_iff : Complete client db clause ↔ Shown client db clause fun _ => true := by
  rw [shown_all, Complete, edge_rows, List.length_insertionSort]
  simp only [List.mem_insertionSort]

def callers_of_clause (record : PlsqlObjectRecord) : Relationship → Bool :=
  callers_clause record.qualified_name all_resolutions

def callees_of_clause (record : PlsqlObjectRecord) : Relationship → Bool :=
  callees_clause record.qualified_name all_resolutions

def access_of_clause (record : PlsqlObjectRecord) : Relationship → Bool :=
  table_access_clause record.qualified_name (record.qualified_name ++ ".")
    (TABLE_ACCESS_RELATIONSHIPS.map (·.name)) (TABLE_OR_VIEW.map (·.label)) all_resolutions

/-- The relationships of the graph that match a category. -/
def matching (client : AnalysisClient) (db : AnalysisGraph) (record : PlsqlObjectRecord) :
    PlsqlDependencyCategory → Nat
  | .callers => edge_count db.toGraphDb client.project_id (callers_of_clause record)
  | .callees => edge_count db.toGraphDb client.project_id (callees_of_clause record)
  | category => (edge_matches db.toGraphDb client.project_id (access_of_clause record)).countP
      fun row => of_access category row.type

theorem valid_callers : Valid (callers_of_clause record) := by
  intro row hrow
  simp only [callers_of_clause, callers_clause, Bool.and_eq_true, beq_iff_eq] at hrow
  refine ⟨hrow.2, ?_⟩
  rw [hrow.1.1]
  decide

theorem valid_callees : Valid (callees_of_clause record) := by
  intro row hrow
  simp only [callees_of_clause, callees_clause, Bool.and_eq_true, beq_iff_eq] at hrow
  refine ⟨hrow.2, ?_⟩
  rw [hrow.1.1]
  decide

theorem valid_access : Valid (access_of_clause record) := by
  intro row hrow
  simp only [access_of_clause, table_access_clause, Bool.and_eq_true] at hrow
  refine ⟨hrow.2, ?_⟩
  obtain ⟨relationship, hmem, hname⟩ := List.mem_map.mp (List.contains_iff_mem.mp hrow.1.1)
  refine List.mem_map.mpr ⟨relationship, ?_, hname⟩
  revert hmem
  cases relationship <;> decide

/-- A page is a whole list of matches exactly when they fit and have named ends. -/
theorem page_complete_iff {count : Nat} {page : PlsqlDependencyPage} (hvalid : Valid clause)
    (h : dependency_page client db (edge_select db.toGraphDb client.project_id clause) count
      client.max_rows = .ok page) :
    page.items.length = edge_count db.toGraphDb client.project_id clause ↔
      Complete client db clause := by
  have hcount := @countP_page_iff client db clause (fun _ => true) count page (fun _ => true)
    hvalid h fun _ _ _ _ => rfl
  rwa [List.countP_true, List.countP_true, ← complete_iff] at hcount

/-- The accesses of every category are counted exactly when their page is complete. -/
theorem access_counted {count : Nat} {access : PlsqlDependencyPage}
    (h : dependency_page client db
      (edge_select db.toGraphDb client.project_id (access_of_clause record)) count
      client.max_rows = .ok access) :
    (∀ category ∈ ACCESS_CATEGORIES, (access.items.countP fun edge =>
        of_access category edge.relationship.name) = matching client db record category) ↔
      Complete client db (access_of_clause record) := by
  have hcategory (category : PlsqlDependencyCategory) : (access.items.countP fun edge =>
      of_access category edge.relationship.name) =
        (edge_matches db.toGraphDb client.project_id (access_of_clause record)).countP
          (fun row => of_access category row.type) ↔
      Shown client db (access_of_clause record) fun row => of_access category row.type :=
    countP_page_iff valid_access h fun row edge _ hedge => by rw [(record_of_triple hedge).1]
  have hall : ∀ row : Relationship, true = (of_access .reads row.type ||
      (of_access .writes row.type || of_access .other row.type)) :=
    fun row => (of_access_or row.type).symm
  rw [complete_iff, Shown, capped.shows_select_congr fun row _ => hall row, capped.shows_or,
    capped.shows_or]
  simp only [ACCESS_CATEGORIES, List.mem_cons, List.not_mem_nil, or_false, forall_eq_or_imp,
    forall_eq]
  exact and_congr (hcategory .reads) (and_congr (hcategory .writes) (hcategory .other))

/-- The object that a read has required is required again at no cost. -/
theorem require_object_repeats {s' : ClientState}
    (h : (Reads.require_object client db object_id).run.run s = (.ok record, s')) :
    (Reads.require_object client db object_id).run.run s' = (.ok record, s') :=
  require_object_cached (require_object_again h)

theorem callers_run {limit : Int}
    (h : (Reads.require_object client db object_id).run.run s = (.ok record, s)) :
    (callers_of client db object_id limit).run.run s =
      (dependency_page client db
        (edge_select db.toGraphDb client.project_id (callers_of_clause record))
        (edge_count db.toGraphDb client.project_id (callers_of_clause record)) limit, s) := by
  rw [callers_of, run_bind_ok h]
  exact run_lift _

theorem callees_run {limit : Int}
    (h : (Reads.require_object client db object_id).run.run s = (.ok record, s)) :
    (callees_of client db object_id limit).run.run s =
      (dependency_page client db
        (edge_select db.toGraphDb client.project_id (callees_of_clause record))
        (edge_count db.toGraphDb client.project_id (callees_of_clause record)) limit, s) := by
  rw [callees_of, run_bind_ok h]
  exact run_lift _

theorem access_run {limit : Int}
    (h : (Reads.require_object client db object_id).run.run s = (.ok record, s)) :
    (table_access_of client db object_id limit).run.run s =
      (dependency_page client db
        (edge_select db.toGraphDb client.project_id (access_of_clause record))
        (edge_count db.toGraphDb client.project_id (access_of_clause record)) limit, s) := by
  rw [table_access_of, run_bind_ok h]
  exact run_lift _

/-- What a request for a summary computes. -/
theorem dependencies_run {limit : Int} {s₁ s₂ : ClientState}
    (hrecord : (Reads.require_object client db object_id).run.run s = (.ok record, s₁))
    (h : (dependencies_of client db object_id category limit).run.run s = (.ok summary, s₂)) :
    ∃ callers callees access,
      dependency_page client db
          (edge_select db.toGraphDb client.project_id (callers_of_clause record))
          (edge_count db.toGraphDb client.project_id (callers_of_clause record))
          client.max_rows = .ok callers ∧
        dependency_page client db
          (edge_select db.toGraphDb client.project_id (callees_of_clause record))
          (edge_count db.toGraphDb client.project_id (callees_of_clause record))
          client.max_rows = .ok callees ∧
        dependency_page client db
          (edge_select db.toGraphDb client.project_id (access_of_clause record))
          (edge_count db.toGraphDb client.project_id (access_of_clause record))
          client.max_rows = .ok access ∧
        Summarises summary category
          (bounded_limit client.toNeo4jPlsqlAnalysisClient limit) callers callees access := by
  have hagain := require_object_repeats hrecord
  rw [dependencies_of, run_bind_ok hrecord] at h
  obtain ⟨callers, s₃, hcallers, h⟩ := of_run_bind_ok h
  rw [callers_run hagain] at hcallers
  obtain ⟨hcallers_page, rfl⟩ := Prod.mk.inj hcallers
  obtain ⟨callees, s₃, hcallees, h⟩ := of_run_bind_ok h
  rw [callees_run hagain] at hcallees
  obtain ⟨hcallees_page, rfl⟩ := Prod.mk.inj hcallees
  obtain ⟨access, s₃, haccess, h⟩ := of_run_bind_ok h
  rw [access_run hagain] at haccess
  obtain ⟨haccess_page, rfl⟩ := Prod.mk.inj haccess
  refine ⟨callers, callees, access, hcallers_page, hcallees_page, haccess_page, ?_⟩
  cases h
  refine ⟨rfl, rfl, fun category hcategory => ?_, rfl, rfl, rfl⟩
  rw [← length_bucket hcategory]
  rw [mem_access_categories] at hcategory
  cases category with
  | callers => exact absurd rfl hcategory.1
  | callees => exact absurd rfl hcategory.2
  | reads => rfl
  | writes => rfl
  | other => rfl

end Neo4j

namespace SyntheticPlsqlAnalysisClient

variable {client : SyntheticPlsqlAnalysisClient} {object_id : String} {limit : Int}

/-- The edges of the corpus that match a category. -/
def matching (client : SyntheticPlsqlAnalysisClient) (object_id : String) :
    PlsqlDependencyCategory → Nat
  | .callers => (client.caller_edges object_id).length
  | .callees => (client.callee_edges object_id).length
  | category => client.edges.countP fun edge =>
    of_access category edge.relationship.name && client.accesses object_id edge

theorem summarises : Summarises (client.dependencies_of object_id category limit) category
    (client.bounded_limit limit) (client.callers_of object_id client.max_rows)
    (client.callees_of object_id client.max_rows)
    (client.table_access_of object_id client.max_rows) := by
  refine ⟨rfl, rfl, fun category hcategory => ?_, rfl, rfl, rfl⟩
  rw [← length_bucket hcategory]
  rw [mem_access_categories] at hcategory
  cases category with
  | callers => exact absurd rfl hcategory.1
  | callees => exact absurd rfl hcategory.2
  | reads => rfl
  | writes => rfl
  | other => rfl

theorem length_page_iff {edges : List PlsqlDependencyRecord} :
    (client.dependency_page edges client.max_rows).items.length = edges.length ↔
      edges.length ≤ client.max_rows := by
  simp only [dependency_page, bounded_limit_max_rows, List.length_take]
  omega

theorem access_counted :
    (∀ category ∈ ACCESS_CATEGORIES,
      ((client.table_access_of object_id client.max_rows).items.countP fun edge =>
        of_access category edge.relationship.name) = client.matching object_id category) ↔
      (client.edges.filter (client.accesses object_id)).length ≤ client.max_rows := by
  have hcategory (category : PlsqlDependencyCategory) :
      ((client.table_access_of object_id client.max_rows).items.countP fun edge =>
        of_access category edge.relationship.name) =
          (client.edges.countP fun edge =>
            of_access category edge.relationship.name && client.accesses object_id edge) ↔
        capped.Shows client.max_rows client.max_rows some
          (fun edge => of_access category edge.relationship.name)
          (client.edges.filter (client.accesses object_id)) := by
    rw [← List.countP_filter, table_access_of, dependency_page, bounded_limit_max_rows,
      ← capped.page_some]
    refine capped.countP_page_eq_iff fun edge _ found hfound => ?_
    cases hfound
    rfl
  have hall : ∀ edge : PlsqlDependencyRecord, true = (of_access .reads edge.relationship.name ||
      (of_access .writes edge.relationship.name || of_access .other edge.relationship.name)) :=
    fun edge => (of_access_or edge.relationship.name).symm
  rw [← capped.shows_all_some, capped.shows_select_congr fun edge _ => hall edge,
    capped.shows_or, capped.shows_or]
  simp only [ACCESS_CATEGORIES, List.mem_cons, List.not_mem_nil, or_false, forall_eq_or_imp,
    forall_eq]
  exact and_congr (hcategory .reads) (and_congr (hcategory .writes) (hcategory .other))

end SyntheticPlsqlAnalysisClient

/-- A summary is exact in both adapters exactly when the accesses, and the callers or callees
where they are selected, fit in a page and can all be mapped. -/
theorem dependencies_exact_iff (object_id : String) (category : PlsqlDependencyCategory)
    (limit : Int) :
    (∀ (client : AnalysisClient) (db : AnalysisGraph) (record : PlsqlObjectRecord)
      (summary : PlsqlDependencySummaryRecord) (s s₁ s₂ : ClientState),
      (Reads.require_object client db object_id).run.run s = (.ok record, s₁) →
        (dependencies_of client db object_id category limit).run.run s = (.ok summary, s₂) →
          (summary.Exact category (matching client db record) ↔
            Complete client db (access_of_clause record) ∧
              (category = .callers → Complete client db (callers_of_clause record)) ∧
              (category = .callees → Complete client db (callees_of_clause record)))) ∧
    ∀ client : SyntheticPlsqlAnalysisClient,
      (client.dependencies_of object_id category limit).Exact category
          (client.matching object_id) ↔
        (client.edges.filter (client.accesses object_id)).length ≤ client.max_rows ∧
          (category = .callers → (client.caller_edges object_id).length ≤ client.max_rows) ∧
          (category = .callees → (client.callee_edges object_id).length ≤ client.max_rows) := by
  constructor
  · intro client db record summary s s₁ s₂ hrecord h
    obtain ⟨callers, callees, access, hcallers, hcallees, haccess, hsummary⟩ :=
      dependencies_run hrecord h
    rw [hsummary.exact_iff (dependency_page_ok hcallers).2.1 (dependency_page_ok hcallees).2.1,
      access_counted haccess]
    exact and_congr_right fun _ => and_congr
      (imp_congr_right fun _ => page_complete_iff valid_callers hcallers)
      (imp_congr_right fun _ => page_complete_iff valid_callees hcallees)
  · intro client
    rw [SyntheticPlsqlAnalysisClient.summarises.exact_iff rfl rfl,
      SyntheticPlsqlAnalysisClient.access_counted]
    exact and_congr_right fun _ => and_congr
      (imp_congr_right fun _ => SyntheticPlsqlAnalysisClient.length_page_iff)
      (imp_congr_right fun _ => SyntheticPlsqlAnalysisClient.length_page_iff)

/-- A procedure that reads two tables. -/
def reader_graph : AnalysisGraph where
  objects := [procedure_node "HR.A"]
  files := []
  relationships := ["HR.T", "HR.U"].map fun table =>
    { source := procedure_node "HR.A",
      target := { procedure_node table with labels := ["DatabaseObject", "Table"] },
      type := "READS" }
  declarations := []

def reader_id : String :=
  object_id "p" "HR.A"

def reader_record : PlsqlObjectRecord where
  id := reader_id
  kind := .Procedure
  name := "A"
  schema_name := "HR"
  qualified_name := "HR.A"
  project_id := "p"
  owner := none
  evidence := none

/-- The client that knows the procedure. -/
def reader_state : ClientState where
  object_cache := [(reader_id, some reader_record)]
  impact_cache := []

/-- The same reads in memory. -/
def reader_synthetic : SyntheticPlsqlAnalysisClient where
  project_id := "p"
  max_rows := 1
  corpus := [reader_record] ++ ["HR.T", "HR.U"].map fun table =>
    { reader_record with
      id := object_id "p" table, kind := .Table, name := table, qualified_name := table }
  edges := reader_graph.relationships.filterMap (record_of one_row_client reader_graph)
  max_rows_pos := Nat.zero_lt_one

theorem reader_required :
    (Reads.require_object one_row_client reader_graph reader_id).run.run .init =
      (.ok reader_record, reader_state) := by
  have hget : plsql.get_object one_row_client.toNeo4jPlsqlAnalysisClient reader_graph.toGraphDb []
      reader_id = .ok (some reader_record, [(reader_id, some reader_record)]) := by decide +kernel
  have hrun := @get_object_run one_row_client reader_graph .init reader_id
  simp only [ClientState.init, hget] at hrun
  rw [Reads.require_object, ClientState.init, run_bind_ok hrun]
  rfl

/-- One of the two reads is counted. -/
theorem reader_run : ∃ summary,
    (dependencies_of one_row_client reader_graph reader_id .reads 1).run.run .init =
        (.ok summary, reader_state) ∧ summary.counts .reads = 1 := by
  have hagain := require_object_repeats reader_required
  have hcallers : dependency_page one_row_client reader_graph
      (edge_select reader_graph.toGraphDb "p" (callers_of_clause reader_record))
      (edge_count reader_graph.toGraphDb "p" (callers_of_clause reader_record))
      one_row_client.max_rows = .ok { items := [], truncated := false, total := 0 } := by
    decide +kernel
  have hcallees : dependency_page one_row_client reader_graph
      (edge_select reader_graph.toGraphDb "p" (callees_of_clause reader_record))
      (edge_count reader_graph.toGraphDb "p" (callees_of_clause reader_record))
      one_row_client.max_rows = .ok { items := [], truncated := false, total := 0 } := by
    decide +kernel
  have haccess : dependency_page one_row_client reader_graph
      (edge_select reader_graph.toGraphDb "p" (access_of_clause reader_record))
      (edge_count reader_graph.toGraphDb "p" (access_of_clause reader_record))
      one_row_client.max_rows =
        .ok { items := reader_synthetic.edges.take 1, truncated := true, total := 2 } := by
    decide +kernel
  have hcallers_run := (callers_run hagain).trans (congrArg (Prod.mk · reader_state) hcallers)
  have hcallees_run := (callees_run hagain).trans (congrArg (Prod.mk · reader_state) hcallees)
  have haccess_run := (access_run hagain).trans (congrArg (Prod.mk · reader_state) haccess)
  rw [dependencies_of, run_bind_ok reader_required, run_bind_ok hcallers_run,
    run_bind_ok hcallees_run, run_bind_ok haccess_run]
  exact ⟨_, rfl, by decide +kernel⟩

theorem dependencies_exact_iff_reader : ∃ summary,
    (dependencies_of one_row_client reader_graph reader_id .reads 1).run.run .init =
        (.ok summary, reader_state) ∧
      (summary.Exact .reads (matching one_row_client reader_graph reader_record) ↔
        Complete one_row_client reader_graph (access_of_clause reader_record)) := by
  obtain ⟨summary, hrun, -⟩ := reader_run
  have hexact := (dependencies_exact_iff reader_id .reads 1).1 one_row_client reader_graph
    reader_record summary .init reader_state reader_state reader_required hrun
  refine ⟨summary, hrun, hexact.trans ?_⟩
  simp only [reduceCtorEq, false_implies, and_self, and_true]

/-- With two reads and room for one, both adapters count one. -/
theorem dependencies_undercounted :
    (∃ summary, (dependencies_of one_row_client reader_graph reader_id .reads 1).run.run .init =
        (.ok summary, reader_state) ∧
      ¬ summary.Exact .reads (matching one_row_client reader_graph reader_record)) ∧
    ¬ (reader_synthetic.dependencies_of reader_id .reads 1).Exact .reads
      (reader_synthetic.matching reader_id) := by
  refine ⟨?_, fun h => ?_⟩
  · obtain ⟨summary, hrun, hcount⟩ := reader_run
    refine ⟨summary, hrun, fun h => ?_⟩
    have hmatching : matching one_row_client reader_graph reader_record .reads = 2 := by
      decide +kernel
    have hreads := h.counts .reads
    rw [hcount, hmatching] at hreads
    omega
  · have hcount : (reader_synthetic.dependencies_of reader_id .reads 1).counts .reads ≠
        reader_synthetic.matching reader_id .reads := by decide +kernel
    exact hcount (h.counts .reads)

end lagraph.plsql
