import LaGraph.Foundation.Multigraph.FirstArrival
import LaGraph.Plsql.FindPaths

open foundation

namespace lagraph.plsql

/-- The stored relationships a path search may follow. -/
def PathRow (client : Neo4jPlsqlAnalysisClient) (db : GraphDb) (row : Relationship) : Prop :=
  row ∈ db.relationships ∧ row.source.projectId = some client.project_id ∧
    row.type ∈ PATH_RELATIONSHIPS.map (·.name)

/-- The typed multigraph of a project: qualified names joined by the triples its
path relationships stand for. -/
def path_graph (client : Neo4jPlsqlAnalysisClient) (db : GraphDb) :
    Multigraph String EdgeTriple where
  Edge e := ∃ row, PathRow client db row ∧ e.Of row
  source := EdgeTriple.source
  target := EdgeTriple.target

/-- Every row of the graph maps to a dependency. -/
def RowsMap (client : Neo4jPlsqlAnalysisClient) (db : GraphDb) : Prop :=
  ∀ row, PathRow client db row → ∃ edge,
    dependency_from_row client.project_id row (file_map db client.project_id) = .ok (some edge)

/-- Edges are identified by relationship, source and target. -/
def EdgesIdentified (client : Neo4jPlsqlAnalysisClient) (db : GraphDb) : Prop :=
  ∀ e f, (path_graph client db).Edge e → (path_graph client db).Edge f →
    e.id client.project_id = f.id client.project_id → e = f

theorem EdgeTriple.eq_of_row {e f : EdgeTriple} {row : Relationship} (he : e.Of row)
    (hf : f.Of row) : e = f := by
  obtain ⟨htype, hsource, htarget⟩ := he
  obtain ⟨htype', hsource', htarget'⟩ := hf
  have hrel : e.relationship = f.relationship :=
    PlsqlRelationship.name_injective (htype.symm.trans htype')
  cases e
  cases f
  simp_all

/-- The table after a round is the table before it and the round's edges, which
are mapped rows with new and distinct ids; every mapped row's id is in it. -/
structure Absorbed (project_id : String) (file_paths : List (String × String))
    (before : List PlsqlDependencyRecord) (rows : List Relationship)
    (after fresh : List PlsqlDependencyRecord) : Prop where
  table : after = before ++ fresh
  fresh_new : ∀ edge ∈ fresh, edge.id ∉ before.map (·.id)
  fresh_nodup : (fresh.map (·.id)).Nodup
  fresh_row : ∀ edge ∈ fresh, ∃ row ∈ rows,
    dependency_from_row project_id row file_paths = .ok (some edge)
  complete : ∀ row ∈ rows, ∀ edge,
    dependency_from_row project_id row file_paths = .ok (some edge) →
      edge.id ∈ after.map (·.id)

theorem absorb_spec {project_id : String} {file_paths : List (String × String)}
    {rows : List Relationship} (before : List PlsqlDependencyRecord)
    (hmap : ∀ row ∈ rows, ∃ edge,
      dependency_from_row project_id row file_paths = .ok (some edge)) :
    ∃ after fresh, absorb project_id file_paths before rows = .ok (after, fresh) ∧
      Absorbed project_id file_paths before rows after fresh := by
  induction rows generalizing before with
  | nil => exact ⟨before, [], rfl, by simp, by simp, by simp, by simp, by simp⟩
  | cons row rows ih =>
    obtain ⟨edge, hedge⟩ := hmap row (by simp)
    have hrest : ∀ row ∈ rows, ∃ edge,
        dependency_from_row project_id row file_paths = .ok (some edge) :=
      fun row hrow => hmap row (List.mem_cons_of_mem _ hrow)
    by_cases hseen : edge.id ∈ before.map (·.id)
    · obtain ⟨after, fresh, habsorb, h⟩ := ih before hrest
      refine ⟨after, fresh, ?_, h.table, h.fresh_new, h.fresh_nodup, ?_, ?_⟩
      · simp only [absorb, hedge, Bind.bind, Except.bind, if_pos hseen, habsorb]
      · intro other hother
        obtain ⟨row', hrow', hdep⟩ := h.fresh_row other hother
        exact ⟨row', List.mem_cons_of_mem _ hrow', hdep⟩
      · intro row' hrow' other hdep
        rcases List.mem_cons.mp hrow' with rfl | hrow'
        · obtain rfl : edge = other := by simpa [hedge] using hdep
          rw [h.table, List.map_append]
          exact List.mem_append_left _ hseen
        · exact h.complete row' hrow' other hdep
    · obtain ⟨after, fresh, habsorb, h⟩ := ih (before ++ [edge]) hrest
      refine ⟨after, edge :: fresh, ?_, by simp [h.table], ?_, ?_, ?_, ?_⟩
      · simp only [absorb, hedge, Bind.bind, Except.bind, if_neg hseen, habsorb]
      · intro other hother
        rcases List.mem_cons.mp hother with rfl | hother
        · exact hseen
        · intro hmem
          apply h.fresh_new other hother
          simp only [List.map_append, List.mem_append]
          exact Or.inl hmem
      · rw [List.map_cons, List.nodup_cons]
        refine ⟨?_, h.fresh_nodup⟩
        intro hmem
        obtain ⟨other, hother, hid⟩ := List.mem_map.mp hmem
        apply h.fresh_new other hother
        simp [hid]
      · intro other hother
        rcases List.mem_cons.mp hother with rfl | hother
        · exact ⟨row, by simp, hedge⟩
        · obtain ⟨row', hrow', hdep⟩ := h.fresh_row other hother
          exact ⟨row', List.mem_cons_of_mem _ hrow', hdep⟩
      · intro row' hrow' other hdep
        rcases List.mem_cons.mp hrow' with rfl | hrow'
        · obtain rfl : edge = other := by simpa [hedge] using hdep
          rw [h.table]
          simp
        · exact h.complete row' hrow' other hdep

/-- The rows of one round when they fit the limit: all path rows that leave one
of the sources. -/
theorem mem_EDGE_OUTGOING {client : Neo4jPlsqlAnalysisClient} {db : GraphDb}
    {sources : List String} {limit : Nat}
    (hfit : (EDGE_OUTGOING db client.project_id (PATH_RELATIONSHIPS.map (·.name)) sources
      limit).length < limit) (row : Relationship) :
    row ∈ EDGE_OUTGOING db client.project_id (PATH_RELATIONSHIPS.map (·.name)) sources limit ↔
      PathRow client db row ∧ ∃ s ∈ sources, row.source.qualifiedName = some s := by
  unfold EDGE_OUTGOING at *
  rw [List.length_take] at hfit
  rw [List.take_of_length_le (by omega), List.mem_insertionSort, List.mem_filter]
  simp only [PathRow, decide_eq_true_eq, and_assoc]

end lagraph.plsql
