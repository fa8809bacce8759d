import LaGraph.Foundation.Guarantees
import LaGraph.Plsql.Dependencies.Rows
import LaGraph.Plsql.Synthetic.Dependencies

open foundation foundation.Stateful

namespace lagraph.plsql

/-- The report counts what there is, and says when it lists less than it counts. -/
structure PlsqlHealthRecord.Exact (report : PlsqlHealthRecord) (references : PlsqlResolution → Nat) :
    Prop where
  unresolved : report.unresolved.count = references .UNRESOLVED
  ambiguous : report.ambiguous.count = references .AMBIGUOUS
  total : report.total = references .UNRESOLVED + references .AMBIGUOUS
  truncated : report.truncated = true ↔
    report.unresolved.items.length < report.unresolved.count ∨
      report.ambiguous.items.length < report.ambiguous.count

/-- A report on a page of references is exact when its counts are. -/
theorem exact_iff {report : PlsqlHealthRecord} {references : PlsqlResolution → Nat}
    {unresolved ambiguous : List PlsqlDependencyRecord} {bounded : Nat}
    (hunresolved : report.unresolved = health_category bounded unresolved)
    (hambiguous : report.ambiguous = health_category bounded ambiguous)
    (htotal : report.total = unresolved.length + ambiguous.length)
    (htruncated : report.truncated =
      decide (bounded < unresolved.length ∨ bounded < ambiguous.length)) :
    report.Exact references ↔
      unresolved.length = references .UNRESOLVED ∧ ambiguous.length = references .AMBIGUOUS := by
  constructor
  · intro h
    have hcount := h.unresolved
    have hcount' := h.ambiguous
    rw [hunresolved] at hcount
    rw [hambiguous] at hcount'
    exact ⟨hcount, hcount'⟩
  · rintro ⟨hcount, hcount'⟩
    refine ⟨?_, ?_, ?_, ?_⟩
    · rw [hunresolved]
      exact hcount
    · rw [hambiguous]
      exact hcount'
    · rw [htotal, hcount, hcount']
    · rw [htruncated, hunresolved, hambiguous]
      simp only [health_category, List.length_take, decide_eq_true_eq]
      omega

section Neo4j

variable {client : AnalysisClient} {db : AnalysisGraph} {scope : Option PlsqlObjectRecord}
  {row : Relationship} {edge : PlsqlDependencyRecord}

/-- What `EDGE_UNRESOLVED` asks of a relationship. -/
def uncertain_clause : Relationship → Bool :=
  unresolved_clause (CALLS_AND_TABLE_ACCESS.map (·.name)) (UNRESOLVED_RESOLUTIONS.map (·.name))
    all_resolutions

/-- The relationship starts at the scope object or, for a package, at a member. -/
def row_in_scope (scope : Option PlsqlObjectRecord) (row : Relationship) : Bool :=
  match scope with
  | none => true
  | some record => row.source.qualifiedName.any fun name =>
    name = record.qualified_name ∨
      record.kind = .Package ∧ text.startsWith name (record.qualified_name ++ ".")

/-- The relationships of one resolution whose source lies in the scope. -/
def references (client : AnalysisClient) (db : AnalysisGraph) (scope : Option PlsqlObjectRecord)
    (resolution : PlsqlResolution) : Nat :=
  (edge_matches db.toGraphDb client.project_id uncertain_clause).countP fun row =>
    row.resolution.getD "EXACT" = resolution.name && row_in_scope scope row

theorem valid_uncertain_clause : Valid uncertain_clause := by
  intro row hrow
  simp only [uncertain_clause, unresolved_clause, Bool.and_eq_true] at hrow
  refine ⟨hrow.2, ?_⟩
  obtain ⟨relationship, hmem, hname⟩ := List.mem_map.mp (List.contains_iff_mem.mp hrow.1.1)
  refine List.mem_map.mpr ⟨relationship, ?_, hname⟩
  revert hmem
  cases relationship <;> decide

theorem uncertain_resolution (hrow : uncertain_clause row = true) :
    row.resolution.getD "EXACT" = PlsqlResolution.UNRESOLVED.name ∨
      row.resolution.getD "EXACT" = PlsqlResolution.AMBIGUOUS.name := by
  simp only [uncertain_clause, unresolved_clause, Bool.and_eq_true] at hrow
  obtain ⟨resolution, hmem, hname⟩ := List.mem_map.mp (List.contains_iff_mem.mp hrow.1.2)
  simp only [UNRESOLVED_RESOLUTIONS, List.mem_cons, List.not_mem_nil, or_false] at hmem
  rcases hmem with rfl | rfl
  · exact Or.inr hname.symm
  · exact Or.inl hname.symm

theorem in_scope_of_record (h : record_of client db row = some edge) :
    in_scope scope edge = row_in_scope scope row := by
  cases scope with
  | none => rfl
  | some record => simp [in_scope, row_in_scope, (record_of_triple h).2]

/-- The page counts the references of one resolution exactly when it shows them. -/
theorem references_counted {count : Nat} {page : PlsqlDependencyPage}
    (h : dependency_page client db (edge_select db.toGraphDb client.project_id uncertain_clause)
      count client.max_rows = .ok page) (resolution : PlsqlResolution) :
    (page.items.filter fun edge => edge.resolution = resolution ∧ in_scope scope edge).length =
        references client db scope resolution ↔
      Shown client db uncertain_clause fun row =>
        row.resolution.getD "EXACT" = resolution.name && row_in_scope scope row := by
  rw [← List.countP_eq_length_filter]
  refine countP_page_iff valid_uncertain_clause h fun row edge hrow hedge => ?_
  have hvalid := valid_uncertain_clause row hrow
  have hresolution := record_of_resolution hvalid.1 hvalid.2 hedge
  have hsame : edge.resolution = resolution ↔
      row.resolution.getD "EXACT" = resolution.name := by
    rw [← hresolution]
    exact ⟨fun h => by rw [h], PlsqlResolution.name_injective⟩
  simp only [hsame, in_scope_of_record hedge, Bool.decide_and, Bool.decide_eq_true]

theorem shown_scope : Shown client db uncertain_clause (row_in_scope scope) ↔
    (Shown client db uncertain_clause fun row =>
      row.resolution.getD "EXACT" = PlsqlResolution.UNRESOLVED.name && row_in_scope scope row) ∧
    Shown client db uncertain_clause fun row =>
      row.resolution.getD "EXACT" = PlsqlResolution.AMBIGUOUS.name && row_in_scope scope row := by
  unfold Shown
  rw [← capped.shows_or]
  refine capped.shows_select_congr fun row hrow => ?_
  rcases uncertain_resolution (mem_edge_rows hrow) with h | h <;> simp [h]

theorem health_eq (object_id : Option String) (limit : Int) :
    health client db object_id limit = (do
      let scope ← object_id.mapM (Reads.require_object client db)
      let edges ← unresolved_references client db client.max_rows
      pure (health_report scope edges.items
        (bounded_limit client.toNeo4jPlsqlAnalysisClient limit))) := by
  cases object_id with
  | none => rfl
  | some object_id => rfl

/-- What a request for the report computes. -/
theorem health_run {object_id : Option String} {limit : Int} {report : PlsqlHealthRecord}
    {s s₁ s₂ : ClientState}
    (hscope : (object_id.mapM (Reads.require_object client db)).run.run s = (.ok scope, s₁))
    (h : (health client db object_id limit).run.run s = (.ok report, s₂)) :
    ∃ edges, unresolved_references client db client.max_rows = .ok edges ∧
      report = health_report scope edges.items
        (bounded_limit client.toNeo4jPlsqlAnalysisClient limit) := by
  rw [health_eq, run_bind_ok hscope] at h
  obtain ⟨edges, s₃, hedges, hreport⟩ := of_run_bind_ok h
  rw [run_lift] at hedges
  cases hreport
  exact ⟨edges, (Prod.mk.inj hedges).1, rfl⟩

end Neo4j

namespace SyntheticPlsqlAnalysisClient

variable {client : SyntheticPlsqlAnalysisClient} {object_id : Option String}

/-- The edges of one resolution whose source lies in the scope. -/
def references (client : SyntheticPlsqlAnalysisClient) (object_id : Option String)
    (resolution : PlsqlResolution) : Nat :=
  client.edges.countP fun edge => edge.resolution = resolution && client.in_scope object_id edge

/-- The references of the report are among the uncertain ones. -/
theorem references_eq {resolution : PlsqlResolution} (h : resolution ∈ UNRESOLVED_RESOLUTIONS) :
    client.references object_id resolution = client.uncertain_edges.countP fun edge =>
      edge.resolution = resolution && client.in_scope object_id edge := by
  rw [references, uncertain_edges, List.countP_filter]
  refine List.countP_congr fun edge _ => ?_
  by_cases hedge : edge.resolution = resolution
  · simp [hedge, h]
  · simp [hedge]

theorem references_counted {resolution : PlsqlResolution} (h : resolution ∈ UNRESOLVED_RESOLUTIONS) :
    ((client.unresolved_references client.max_rows).items.filter fun edge =>
        edge.resolution = resolution ∧ client.in_scope object_id edge).length =
      client.references object_id resolution ↔
    capped.Shows client.max_rows client.max_rows some
      (fun edge => edge.resolution = resolution && client.in_scope object_id edge)
      client.uncertain_edges := by
  rw [← List.countP_eq_length_filter, references_eq h, unresolved_references, dependency_page,
    bounded_limit_max_rows, ← capped.page_some]
  refine capped.countP_page_eq_iff fun edge _ found hfound => ?_
  cases hfound
  simp

theorem shows_scope :
    capped.Shows client.max_rows client.max_rows some (client.in_scope object_id)
        client.uncertain_edges ↔
      capped.Shows client.max_rows client.max_rows some
          (fun edge => edge.resolution = .UNRESOLVED && client.in_scope object_id edge)
          client.uncertain_edges ∧
        capped.Shows client.max_rows client.max_rows some
          (fun edge => edge.resolution = .AMBIGUOUS && client.in_scope object_id edge)
          client.uncertain_edges := by
  rw [← capped.shows_or]
  refine capped.shows_select_congr fun edge hedge => ?_
  have huncertain : edge.resolution ∈ UNRESOLVED_RESOLUTIONS := by
    simpa using (List.mem_filter.mp hedge).2
  simp only [UNRESOLVED_RESOLUTIONS, List.mem_cons, List.not_mem_nil, or_false] at huncertain
  rcases huncertain with h | h <;> simp [h]

end SyntheticPlsqlAnalysisClient

/-- A health report is exact in both adapters exactly when every reference in its scope can be
mapped and is among the first ones of the whole project. -/
theorem health_exact_iff (object_id : Option String) (limit : Int) :
    (∀ (client : AnalysisClient) (db : AnalysisGraph) (scope : Option PlsqlObjectRecord)
      (report : PlsqlHealthRecord) (s s₁ s₂ : ClientState),
      (object_id.mapM (Reads.require_object client db)).run.run s = (.ok scope, s₁) →
        (health client db object_id limit).run.run s = (.ok report, s₂) →
          (report.Exact (references client db scope) ↔
            Shown client db uncertain_clause (row_in_scope scope))) ∧
    ∀ client : SyntheticPlsqlAnalysisClient,
      (client.health object_id limit).Exact (client.references object_id) ↔
        capped.Shows client.max_rows client.max_rows some (client.in_scope object_id)
          client.uncertain_edges := by
  constructor
  · intro client db scope report s s₁ s₂ hscope h
    obtain ⟨edges, hedges, rfl⟩ := health_run hscope h
    rw [exact_iff rfl rfl rfl rfl, references_counted hedges, references_counted hedges,
      shown_scope]
  · intro client
    rw [exact_iff rfl rfl rfl rfl, SyntheticPlsqlAnalysisClient.references_counted (by decide),
      SyntheticPlsqlAnalysisClient.references_counted (by decide),
      SyntheticPlsqlAnalysisClient.shows_scope]

/-- Two calls whose callee is not resolved. -/
def noted_graph : AnalysisGraph where
  objects := []
  files := []
  relationships := ["HR.B", "HR.C"].map fun callee =>
    { source := procedure_node "HR.A", target := procedure_node callee, type := "CALLS",
      resolution := some "UNRESOLVED" }
  declarations := []

/-- The same calls in memory. -/
def one_row_synthetic : SyntheticPlsqlAnalysisClient where
  project_id := "p"
  max_rows := 1
  corpus := []
  edges := noted_graph.relationships.filterMap (record_of one_row_client noted_graph)
  max_rows_pos := Nat.zero_lt_one

/-- The report on the first of the two calls. -/
def noted_report : PlsqlHealthRecord :=
  health_report none (one_row_synthetic.edges.take 1) 1

theorem noted_health_run :
    (health one_row_client noted_graph none 1).run.run .init = (.ok noted_report, .init) := by
  have hedges : unresolved_references one_row_client noted_graph one_row_client.max_rows =
      .ok { items := one_row_synthetic.edges.take 1, truncated := true, total := 2 } := by
    decide +kernel
  have hscope : ((none : Option String).mapM
      (Reads.require_object one_row_client noted_graph)).run.run .init = (.ok none, .init) := rfl
  rw [health_eq, run_bind_ok hscope, hedges, run_bind_ok (run_lift _)]
  rfl

theorem health_exact_iff_noted : noted_report.Exact (references one_row_client noted_graph none) ↔
    Shown one_row_client noted_graph uncertain_clause (row_in_scope none) :=
  (health_exact_iff none 1).1 one_row_client noted_graph none noted_report .init .init .init rfl
    noted_health_run

/-- With two unresolved calls and room for one, both adapters count one. -/
theorem health_undercounts :
    (∃ report, (health one_row_client noted_graph none 1).run.run .init = (.ok report, .init) ∧
      ¬ report.Exact (references one_row_client noted_graph none)) ∧
    ¬ (one_row_synthetic.health none 1).Exact (one_row_synthetic.references none) := by
  refine ⟨⟨noted_report, noted_health_run, fun h => ?_⟩, fun h => ?_⟩
  · have hcount : noted_report.unresolved.count ≠
        references one_row_client noted_graph none .UNRESOLVED := by decide +kernel
    exact hcount h.unresolved
  · have hcount : (one_row_synthetic.health none 1).unresolved.count ≠
        one_row_synthetic.references none .UNRESOLVED := by decide +kernel
    exact hcount h.unresolved

end lagraph.plsql
