import LaGraph.Foundation.Multigraph.Routes
import LaGraph.Plsql.Caches
import LaGraph.Plsql.Dependencies.Rows

open foundation

namespace lagraph.plsql

/-- The end a search comes from. -/
def ImpactDirection.near : ImpactDirection → EdgeTriple → String
  | .upstream, e => e.target
  | .downstream, e => e.source

/-- The end a search goes on to. -/
def ImpactDirection.far : ImpactDirection → EdgeTriple → String
  | .upstream, e => e.source
  | .downstream, e => e.target

/-- The name that a row is fetched by. -/
def ImpactDirection.near_name : ImpactDirection → Relationship → Option String
  | .upstream, row => row.target.qualifiedName
  | .downstream, row => row.source.qualifiedName

variable {client : AnalysisClient} {db : AnalysisGraph} {direction : ImpactDirection}
  {relationships : List PlsqlRelationship} {row : Relationship} {e : EdgeTriple}
  {edge : PlsqlDependencyRecord} {keys : List String}

/-- The row is a relationship of the filter from an object of the project. -/
def traversed_row (client : AnalysisClient) (relationships : List PlsqlRelationship)
    (row : Relationship) : Bool :=
  row.source.projectId = some client.project_id && row.type ∈ relationships.map (·.name)

/-- What identifies the edge that a row maps onto. -/
def triple_of (client : AnalysisClient) (db : AnalysisGraph) (row : Relationship) :
    Option EdgeTriple :=
  (record_of client db row).map (·.triple)

/-- How many relationships are one edge. -/
def occurrences (client : AnalysisClient) (db : AnalysisGraph)
    (relationships : List PlsqlRelationship) (e : EdgeTriple) : Nat :=
  db.relationships.countP fun row =>
    traversed_row client relationships row && triple_of client db row = some e

/-- The edges that impact is traced along, from the end that is known to the other one. -/
def impact_graph (client : AnalysisClient) (db : AnalysisGraph) (direction : ImpactDirection)
    (relationships : List PlsqlRelationship) : Multigraph String EdgeTriple where
  Edge e := 0 < occurrences client db relationships e ∧ e.source ≠ e.target
  source := direction.near
  target := direction.far

/-- Different edges among these have different ids. -/
def IdsIdentify (client : AnalysisClient) (fetched : EdgeTriple → Prop) : Prop :=
  ∀ e f, fetched e → fetched f → e.id client.project_id = f.id client.project_id → e = f

/-- Without the separator in the names of the sources they have. -/
theorem idsIdentify_of_sources {fetched : EdgeTriple → Prop}
    (h : ∀ e, fetched e → '\x1f' ∉ e.source.toList) : IdsIdentify client fetched :=
  fun e f he hf hid => EdgeTriple.id_injective (h e he) (h f hf) hid

theorem near_end_eq : direction.near_end edge = direction.near edge.triple := by
  cases direction <;> rfl

theorem far_end_eq : direction.far_end edge = direction.far edge.triple := by
  cases direction <;> rfl

theorem near_ne_far : direction.near e ≠ direction.far e ↔ e.source ≠ e.target := by
  cases direction with
  | upstream => exact ne_comm
  | downstream => exact Iff.rfl

theorem record_of_id (h : record_of client db row = some edge) :
    edge.id = edge.triple.id client.project_id :=
  (dependency_from_row_triple (record_of_eq_some.mp h)).2

theorem record_of_near (h : record_of client db row = some edge) :
    direction.near_name row = some (direction.near edge.triple) := by
  obtain ⟨-, hsource, htarget⟩ := (dependency_from_row_triple (record_of_eq_some.mp h)).1
  cases direction with
  | upstream => exact htarget
  | downstream => exact hsource

theorem record_of_columns : record_of client db (EDGE_COLUMNS row) = record_of client db row := by
  unfold record_of
  rw [dependency_from_row_columns]

/-- The rows at some objects. -/
def rows_at (client : AnalysisClient) (db : AnalysisGraph) (direction : ImpactDirection)
    (relationships : List PlsqlRelationship) (keys : List String) : List Relationship :=
  db.relationships.filter fun row =>
    traversed_row client relationships row && (direction.near_name row).any (· ∈ keys)

/-- Within its limit a template returns the rows at the given objects. -/
theorem fetch_edges_perm {n : Nat}
    (h : (fetch_edges client db direction relationships keys (n + 1)).length ≤ n) :
    ∃ rows : List Relationship,
      fetch_edges client db direction relationships keys (n + 1) = rows.map EDGE_COLUMNS ∧
      rows.Perm (rows_at client db direction relationships keys) := by
  have hall {l : List Relationship} (hl : ((l.insertionSort edge_order).take (n + 1)).length ≤ n) :
      (l.insertionSort edge_order).take (n + 1) = l.insertionSort edge_order := by
    rw [List.length_take] at hl
    exact List.take_of_length_le (by omega)
  cases direction with
  | upstream =>
    unfold fetch_edges EDGE_INCOMING edge_select at h ⊢
    rw [List.length_map] at h
    refine ⟨_, by rw [hall h], (List.perm_insertionSort _ _).trans (.of_eq ?_)⟩
    refine List.filter_congr fun row _ => ?_
    rw [Bool.eq_iff_iff]
    cases hname : row.target.qualifiedName with
    | none => simp [traversed_row, incoming_clause, holds, ImpactDirection.near_name, hname]
    | some name =>
      simp [traversed_row, incoming_clause, holds, ImpactDirection.near_name, hname, and_assoc]
  | downstream =>
    unfold fetch_edges EDGE_OUTGOING at h ⊢
    rw [List.length_map] at h
    refine ⟨_, by rw [hall h], (List.perm_insertionSort _ _).trans (.of_eq ?_)⟩
    refine List.filter_congr fun row _ => ?_
    rw [Bool.eq_iff_iff]
    cases hname : row.source.qualifiedName with
    | none => simp [traversed_row, ImpactDirection.near_name, hname]
    | some name => simp [traversed_row, ImpactDirection.near_name, hname, and_assoc]

theorem triple_of_near (h : triple_of client db row = some e) :
    direction.near_name row = some (direction.near e) := by
  obtain ⟨edge, hedge, rfl⟩ := Option.map_eq_some_iff.mp h
  exact record_of_near hedge

/-- The rows at some objects have the edges at these objects, each as often as it occurs. -/
theorem count_rows_at : ((rows_at client db direction relationships keys).filterMap
      (triple_of client db)).count e =
    if direction.near e ∈ keys then occurrences client db relationships e else 0 := by
  rw [List.count_filterMap, rows_at, List.countP_filter]
  by_cases hnear : direction.near e ∈ keys
  · rw [if_pos hnear, occurrences]
    refine List.countP_congr fun row _ => ?_
    by_cases htriple : triple_of client db row = some e
    · simp [htriple, @triple_of_near client db direction row e htriple, hnear]
    · simp [htriple]
  · rw [if_neg hnear, List.countP_eq_zero]
    intro row _
    by_cases htriple : triple_of client db row = some e
    · simp [htriple, @triple_of_near client db direction row e htriple, hnear]
    · simp [htriple]

variable {fetched : EdgeTriple → Prop}

/-- A table of fetched edges with ids of their own. -/
def TableOf (client : AnalysisClient) (fetched : EdgeTriple → Prop)
    (table : List PlsqlDependencyRecord) : Prop :=
  ∀ edge ∈ table, edge.id = edge.triple.id client.project_id ∧ fetched edge.triple

/-- What the rows of a round are taken into. -/
structure AbsorbedRound (client : AnalysisClient) (db : AnalysisGraph)
    (direction : ImpactDirection) (fetched : EdgeTriple → Prop)
    (table : List PlsqlDependencyRecord) (rows : List Relationship)
    (table' : List PlsqlDependencyRecord)
    (adjacency : List (String × PlsqlDependencyRecord)) : Prop where
  table_of : TableOf client fetched table'
  grows : table ⊆ table'
  triples : adjacency.map (·.2.triple) = rows.filterMap (triple_of client db)
  entries : ∀ entry ∈ adjacency, entry.1 = direction.near entry.2.triple ∧ entry.2 ∈ table'

theorem find_of_table {table : List PlsqlDependencyRecord} {known : PlsqlDependencyRecord}
    (hids : IdsIdentify client fetched) (htable : TableOf client fetched table)
    (hid : edge.id = edge.triple.id client.project_id)
    (hedge : fetched edge.triple)
    (hknown : table.find? (·.id = edge.id) = some known) :
    known ∈ table ∧ known.triple = edge.triple := by
  have hmem := List.mem_of_find?_eq_some hknown
  have hsame : known.id = edge.id := by simpa using List.find?_some hknown
  obtain ⟨hid', hedge'⟩ := htable known hmem
  refine ⟨hmem, hids _ _ hedge' hedge ?_⟩
  rw [← hid', hsame, hid]

/-- A row with an edge: the table gets the edge unless it has one of its id. -/
theorem absorb_round_cons {table : List PlsqlDependencyRecord} {rows : List Relationship}
    (h : dependency_from_row client.project_id row (client.file_map db) = .ok (some edge)) :
    absorb_round direction client.project_id (client.file_map db) table (row :: rows) =
      (absorb_round direction client.project_id (client.file_map db)
        (if (table.find? (·.id = edge.id)).isSome then table else table ++ [edge]) rows).map
          fun found => (found.1,
            (direction.near_end edge, (table.find? (·.id = edge.id)).getD edge) :: found.2) := by
  simp only [absorb_round, h, Bind.bind, Except.bind]
  cases absorb_round direction client.project_id (client.file_map db)
      (if (table.find? (·.id = edge.id)).isSome then table else table ++ [edge]) rows with
  | error e => rfl
  | ok found => rfl

/-- The rows of a round enter the table, and the adjacency has the table's edges, unless a row
cannot be read. -/
theorem absorb_round_spec (hids : IdsIdentify client fetched)
    {table : List PlsqlDependencyRecord} (htable : TableOf client fetched table)
    {rows : List Relationship}
    (hrows : ∀ row ∈ rows, ∀ e, triple_of client db row = some e →
      fetched e) :
    (∃ error, absorb_round direction client.project_id (client.file_map db) table rows =
        .error error ∧ ∃ row ∈ rows, ∀ record,
          dependency_from_row client.project_id row (client.file_map db) ≠ .ok record) ∨
      ∃ table' adjacency,
        absorb_round direction client.project_id (client.file_map db) table rows =
          .ok (table', adjacency) ∧
        AbsorbedRound client db direction fetched table rows table' adjacency := by
  induction rows generalizing table with
  | nil =>
    exact Or.inr ⟨table, [], rfl, htable, fun _ h => h, rfl, fun _ h => absurd h List.not_mem_nil⟩
  | cons row rows ih =>
    have hrows' : ∀ row ∈ rows, ∀ e, triple_of client db row = some e →
        fetched e :=
      fun row hrow => hrows row (List.mem_cons_of_mem _ hrow)
    cases hrecord : dependency_from_row client.project_id row (client.file_map db) with
    | error error =>
      refine Or.inl ⟨error, ?_, row, List.mem_cons_self, fun record hok => ?_⟩
      · simp only [absorb_round, hrecord, Bind.bind, Except.bind]
      · rw [hrecord] at hok
        cases hok
    | ok record =>
      cases record with
      | none =>
        have hnone : triple_of client db row = none := by
          simp [triple_of, record_of, hrecord, Except.toOption]
        have habsorb : absorb_round direction client.project_id (client.file_map db) table
            (row :: rows) =
              absorb_round direction client.project_id (client.file_map db) table rows := by
          simp only [absorb_round, hrecord, Bind.bind, Except.bind]
        rw [habsorb]
        rcases ih htable hrows' with ⟨error, herror, other, hother, hunread⟩ |
          ⟨table', adjacency, hok, h⟩
        · exact Or.inl ⟨error, herror, other, List.mem_cons_of_mem _ hother, hunread⟩
        · refine Or.inr ⟨table', adjacency, hok, h.table_of, h.grows, ?_, h.entries⟩
          rw [List.filterMap_cons_none hnone]
          exact h.triples
      | some edge =>
        have hedge : record_of client db row = some edge := record_of_eq_some.mpr hrecord
        have htriple : triple_of client db row = some edge.triple := by rw [triple_of, hedge]; rfl
        have hid := record_of_id hedge
        have hoccurs := hrows row List.mem_cons_self _ htriple
        -- the edge that the table has for this id, once the row is in
        obtain ⟨known, base, hbase, hmem, hsame, hgrows, hstep⟩ : ∃ known base,
            TableOf client fetched base ∧ known ∈ base ∧ known.triple = edge.triple ∧
            table ⊆ base ∧
            absorb_round direction client.project_id (client.file_map db) table (row :: rows) =
              (absorb_round direction client.project_id (client.file_map db) base rows).map
                fun found => (found.1, (direction.near_end edge, known) :: found.2) := by
          cases hknown : table.find? (·.id = edge.id) with
          | some known =>
            obtain ⟨hmem, hsame⟩ := find_of_table hids htable hid hoccurs hknown
            refine ⟨known, table, htable, hmem, hsame, fun _ h => h, ?_⟩
            rw [absorb_round_cons hrecord, hknown]
            rfl
          | none =>
            refine ⟨edge, table ++ [edge], fun other hother => ?_,
              List.mem_append_right _ (List.mem_singleton_self edge), rfl,
              fun other hother => List.mem_append_left _ hother, ?_⟩
            · rcases List.mem_append.mp hother with hother | hother
              · exact htable other hother
              · rw [List.mem_singleton.mp hother]
                exact ⟨hid, hoccurs⟩
            · rw [absorb_round_cons hrecord, hknown]
              rfl
        rw [hstep]
        rcases ih hbase hrows' with ⟨error, herror, other, hother, hunread⟩ |
          ⟨table', adjacency, hok, h⟩
        · refine Or.inl ⟨error, ?_, other, List.mem_cons_of_mem _ hother, hunread⟩
          rw [herror]
          rfl
        · refine Or.inr ⟨table', (direction.near_end edge, known) :: adjacency, ?_, h.table_of,
            fun other hother => h.grows (hgrows hother), ?_, ?_⟩
          · rw [hok]
            rfl
          · rw [List.filterMap_cons_some htriple, List.map_cons, h.triples, hsame]
          · intro entry hentry
            rcases List.mem_cons.mp hentry with rfl | hentry
            · exact ⟨by rw [near_end_eq, hsame], h.grows hmem⟩
            · exact h.entries entry hentry

end lagraph.plsql
