import LaGraph.Plsql.Impact.Visits

open foundation

namespace lagraph.plsql

variable {client : AnalysisClient} {db : AnalysisGraph} {direction : ImpactDirection}
  {relationships : List PlsqlRelationship} {anchors keys : List String} {k hops : Nat}
  {fetched : EdgeTriple → Prop}
  {reached base : Reached} {search : ImpactSearch} {x : String} {e : EdgeTriple}
  {adjacency steps : List (String × PlsqlDependencyRecord)}

/-- The kept edges of an object. -/
def parents_of (parents : List (String × PlsqlDependencyRecord)) (x : String) : List EdgeTriple :=
  (parents.filter (·.1 = x)).map (·.2.triple)

/-- The edges that a search of so many rounds fetches. -/
def Fetched (client : AnalysisClient) (db : AnalysisGraph) (direction : ImpactDirection)
    (relationships : List PlsqlRelationship) (anchors : List String) (hops : Nat)
    (e : EdgeTriple) : Prop :=
  0 < occurrences client db relationships e ∧ ∃ k < hops,
    (impact_graph client db direction relationships).Front (· ∈ anchors) k (direction.near e)

/-- What a search has found after `k` rounds: the objects up to level `k`, each with the edges
that first reach it. -/
structure ReachedInv (client : AnalysisClient) (db : AnalysisGraph) (direction : ImpactDirection)
    (relationships : List PlsqlRelationship) (anchors : List String) (hops k : Nat)
    (reached : Reached) : Prop where
  table : TableOf client (Fetched client db direction relationships anchors hops)
    reached.edge_by_id
  parents_table : ∀ entry ∈ reached.parents, entry.2 ∈ reached.edge_by_id
  distance : ∀ x j, (x, j) ∈ reached.distance ↔
    j ≤ k ∧ (impact_graph client db direction relationships).Level (· ∈ anchors) j x
  distance_nodup : (reached.distance.map (·.1)).Nodup
  keeps : Multigraph.Keeps (impact_graph client db direction relationships) (· ∈ anchors)
    (parents_of reached.parents) (occurrences client db relationships) k

/-- And what it goes on from. -/
structure SearchInv (client : AnalysisClient) (db : AnalysisGraph) (direction : ImpactDirection)
    (relationships : List PlsqlRelationship) (anchors : List String) (hops k : Nat)
    (search : ImpactSearch) : Prop
    extends ReachedInv client db direction relationships anchors hops k search.reached where
  frontier_nodup : search.frontier.Nodup
  expanded : ∀ x, x ∈ search.expanded ↔ ∃ j < k,
    (impact_graph client db direction relationships).Front (· ∈ anchors) j x
  keys : ∀ x, x ∈ search.frontier ∧ x ∉ search.expanded ↔
    (impact_graph client db direction relationships).Front (· ∈ anchors) k x

theorem parents_of_append {l l' : List (String × PlsqlDependencyRecord)} :
    parents_of (l ++ l') x = parents_of l x ++ parents_of l' x := by
  simp [parents_of]

theorem leads_on_iff {step : String × PlsqlDependencyRecord}
    (h : step.1 = direction.near step.2.triple) : leads_on direction base step = true ↔
      step.2.triple.source ≠ step.2.triple.target ∧
        direction.far step.2.triple ∉ base.distance.map (·.1) := by
  rw [leads_on, Bool.and_eq_true, decide_eq_true_eq, decide_eq_true_eq, far_end_eq, h,
    ← @near_ne_far direction, ne_comm]

/-- The edges that a round keeps for an object are those of its steps that lead on to it. -/
theorem count_leading (hsteps : ∀ step ∈ steps, step.1 = direction.near step.2.triple) :
    (parents_of ((steps.filter (leads_on direction base)).map fun step =>
        (direction.far_end step.2, step.2)) x).count e =
      if direction.far e = x ∧ e.source ≠ e.target ∧ x ∉ base.distance.map (·.1) then
        (steps.map (·.2.triple)).count e else 0 := by
  rw [parents_of, List.count_eq_countP, List.countP_map, List.countP_filter, List.countP_map,
    List.countP_filter, List.count_eq_countP, List.countP_map]
  have hstep (step : String × PlsqlDependencyRecord) (hmem : step ∈ steps)
      (htriple : step.2.triple = e) : leads_on direction base step = true ↔
        e.source ≠ e.target ∧ direction.far e ∉ base.distance.map (·.1) := by
    rw [leads_on_iff (hsteps step hmem), htriple]
  split_ifs with hlead
  · obtain ⟨rfl, hloop, hnew⟩ := hlead
    refine List.countP_congr fun step hmem => ?_
    by_cases htriple : step.2.triple = e
    · have hleads := (hstep step hmem htriple).mpr ⟨hloop, hnew⟩
      simp [htriple, far_end_eq, hleads]
    · simp [htriple]
  · rw [List.countP_eq_zero]
    intro step hmem
    by_cases htriple : step.2.triple = e
    · have hleads := hstep step hmem htriple
      by_cases hfar : direction.far e = x
      · have hnot : leads_on direction base step = false := by
          rw [← Bool.not_eq_true, hleads, hfar]
          exact fun h => hlead ⟨hfar, h⟩
        simp [hnot]
      · simp [htriple, far_end_eq, hfar]
    · simp [htriple]

/-- The objects of the next round. -/
def keys_of (search : ImpactSearch) : List String :=
  search.frontier.filter (· ∉ search.expanded)

section Round

variable {rows : List Relationship} {table : List PlsqlDependencyRecord}

theorem near_mem_keys
    (hrows : (rows.filterMap (triple_of client db)).Perm
      ((rows_at client db direction relationships keys).filterMap (triple_of client db)))
    (habsorbed : AbsorbedRound client db direction fetched base.edge_by_id rows table adjacency) :
    ∀ entry ∈ adjacency, entry.1 ∈ keys := by
  intro entry hentry
  have hmem : entry.2.triple ∈ adjacency.map (·.2.triple) :=
    List.mem_map_of_mem (f := fun entry : String × PlsqlDependencyRecord => entry.2.triple) hentry
  rw [habsorbed.triples, hrows.mem_iff, ← List.count_pos_iff, count_rows_at] at hmem
  rw [(habsorbed.entries entry hentry).1]
  by_contra hnot
  rw [if_neg hnot] at hmem
  omega

/-- A round visits every edge of its objects, each as often as it occurs. -/
theorem count_walked (hkeys : keys.Nodup)
    (hrows : (rows.filterMap (triple_of client db)).Perm
      ((rows_at client db direction relationships keys).filterMap (triple_of client db)))
    (habsorbed : AbsorbedRound client db direction fetched base.edge_by_id rows table adjacency) :
    ((walked adjacency keys).map (·.2.triple)).count e =
        if direction.near e ∈ keys then occurrences client db relationships e else 0 := by
  have hperm := walked_perm hkeys (near_mem_keys hrows habsorbed)
  rw [(hperm.map _).count_eq, habsorbed.triples, hrows.count_eq, count_rows_at]

theorem near_of_walked (hkeys : keys.Nodup)
    (hrows : (rows.filterMap (triple_of client db)).Perm
      ((rows_at client db direction relationships keys).filterMap (triple_of client db)))
    (habsorbed : AbsorbedRound client db direction fetched base.edge_by_id rows table adjacency) :
    ∀ step ∈ walked adjacency keys,
        step.1 = direction.near step.2.triple ∧ step.2 ∈ table := by
  intro step hstep
  rw [(walked_perm hkeys (near_mem_keys hrows habsorbed)).mem_iff] at hstep
  exact habsorbed.entries step hstep

theorem SearchInv.mem_keys (h : SearchInv client db direction relationships anchors hops k search) :
    x ∈ keys_of search ↔
      (impact_graph client db direction relationships).Front (· ∈ anchors) k x := by
  rw [keys_of, List.mem_filter, decide_eq_true_eq]
  exact h.keys x

theorem ReachedInv.mem_distance
    (h : ReachedInv client db direction relationships anchors hops k reached) :
    x ∈ reached.distance.map (·.1) ↔ ∃ j ≤ k,
      (impact_graph client db direction relationships).Level (· ∈ anchors) j x := by
  constructor
  · intro hmem
    obtain ⟨entry, hentry, rfl⟩ := List.mem_map.mp hmem
    exact ⟨entry.2, (h.distance entry.1 entry.2).mp hentry⟩
  · rintro ⟨j, hj⟩
    exact List.mem_map.mpr ⟨(x, j), (h.distance x j).mpr hj, rfl⟩

/-- A step of the round leads on along an edge that first reaches its end. -/
theorem SearchInv.parent_iff
    (h : SearchInv client db direction relationships anchors hops k search) :
    (impact_graph client db direction relationships).Parent (· ∈ anchors) k e x ↔
      (0 < occurrences client db relationships e ∧ direction.near e ∈ keys_of search) ∧
        direction.far e = x ∧ e.source ≠ e.target ∧
          x ∉ search.reached.distance.map (·.1) := by
  rw [Multigraph.parent_iff, h.mem_keys, h.mem_distance]
  simp only [impact_graph, not_exists, not_and]
  constructor
  · rintro ⟨⟨hoccurs, hloop⟩, hfar, hfront, hnew⟩
    exact ⟨⟨hoccurs, hfront⟩, hfar, hloop, hnew⟩
  · rintro ⟨⟨hoccurs, hfront⟩, hfar, hloop, hnew⟩
    exact ⟨⟨hoccurs, hloop⟩, hfar, hfront, hnew⟩

/-- What the round keeps for an object besides what was kept. -/
theorem SearchInv.count_kept (h : SearchInv client db direction relationships anchors hops k search)
    (hrows : (rows.filterMap (triple_of client db)).Perm
      ((rows_at client db direction relationships (keys_of search)).filterMap
        (triple_of client db)))
    (habsorbed : AbsorbedRound client db direction
      (Fetched client db direction relationships anchors hops) search.reached.edge_by_id rows
      table adjacency) :
    ((impact_graph client db direction relationships).Parent (· ∈ anchors) k e x →
        (parents_of (((walked adjacency (keys_of search)).filter
          (leads_on direction { search.reached with edge_by_id := table })).map fun step =>
            (direction.far_end step.2, step.2)) x).count e =
          occurrences client db relationships e) ∧
      (¬ (impact_graph client db direction relationships).Parent (· ∈ anchors) k e x →
        (parents_of (((walked adjacency (keys_of search)).filter
          (leads_on direction { search.reached with edge_by_id := table })).map fun step =>
            (direction.far_end step.2, step.2)) x).count e = 0) := by
  have hkeys : (keys_of search).Nodup := h.frontier_nodup.filter _
  rw [count_leading fun step hstep => (near_of_walked hkeys hrows habsorbed step hstep).1,
    count_walked hkeys hrows habsorbed, h.parent_iff]
  constructor
  · rintro ⟨⟨-, hnear⟩, hlead⟩
    rw [if_pos hlead, if_pos hnear]
  · intro hnot
    split_ifs with hlead hnear
    · by_contra hpos
      exact hnot ⟨⟨Nat.pos_of_ne_zero hpos, hnear⟩, hlead⟩
    · rfl
    · rfl

/-- The objects that a round reaches are those of its level. -/
theorem SearchInv.mem_reached (h : SearchInv client db direction relationships anchors hops k search)
    (hrows : (rows.filterMap (triple_of client db)).Perm
      ((rows_at client db direction relationships (keys_of search)).filterMap
        (triple_of client db)))
    (habsorbed : AbsorbedRound client db direction
      (Fetched client db direction relationships anchors hops) search.reached.edge_by_id rows
      table adjacency) :
    (∃ step ∈ walked adjacency (keys_of search),
        leads_on direction { search.reached with edge_by_id := table } step = true ∧
          direction.far_end step.2 = x) ↔
      (impact_graph client db direction relationships).Level (· ∈ anchors) (k + 1) x := by
  have hkeys : (keys_of search).Nodup := h.frontier_nodup.filter _
  have hnear := near_of_walked hkeys hrows habsorbed
  have hparent : (impact_graph client db direction relationships).Level (· ∈ anchors) (k + 1) x ↔
      ∃ e, (impact_graph client db direction relationships).Parent (· ∈ anchors) k e x := by
    rw [Multigraph.level_succ]
    simp only [Multigraph.parent_iff]
    constructor
    · rintro ⟨⟨e, he, htarget, hfront⟩, hnew⟩
      exact ⟨e, he, htarget, hfront, hnew⟩
    · rintro ⟨e, he, htarget, hfront, hnew⟩
      exact ⟨⟨e, he, htarget, hfront⟩, hnew⟩
  rw [hparent]
  simp only [h.parent_iff]
  constructor
  · rintro ⟨step, hstep, hleads, rfl⟩
    obtain ⟨hfirst, hmem⟩ := hnear step hstep
    rw [leads_on_iff hfirst] at hleads
    refine ⟨step.2.triple, ⟨(habsorbed.table_of _ hmem).2.1, ?_⟩, far_end_eq.symm, hleads.1, ?_⟩
    · rw [← hfirst]
      exact near_mem_keys hrows habsorbed step
        ((walked_perm hkeys (near_mem_keys hrows habsorbed)).mem_iff.mp hstep)
    · rw [far_end_eq]
      exact hleads.2
  · rintro ⟨e, ⟨hoccurs, hmem⟩, rfl, hloop, hnew⟩
    have hpos : 0 < ((walked adjacency (keys_of search)).map (·.2.triple)).count e := by
      rw [count_walked hkeys hrows habsorbed, if_pos hmem]
      exact hoccurs
    obtain ⟨step, hstep, rfl⟩ := List.mem_map.mp (List.count_pos_iff.mp hpos)
    exact ⟨step, hstep, (leads_on_iff (hnear step hstep).1).mpr ⟨hloop, hnew⟩, far_end_eq⟩

/-- One round moves the search one level on. -/
theorem SearchInv.round (h : SearchInv client db direction relationships anchors hops k search)
    (hrows : (rows.filterMap (triple_of client db)).Perm
      ((rows_at client db direction relationships (keys_of search)).filterMap
        (triple_of client db)))
    (habsorbed : AbsorbedRound client db direction
      (Fetched client db direction relationships anchors hops) search.reached.edge_by_id rows
      table adjacency) {walk : Reached × List String}
    (hwalk : Visited direction (k + 1) { search.reached with edge_by_id := table }
      (walked adjacency (keys_of search)) walk) :
    SearchInv client db direction relationships anchors hops (k + 1)
      { reached := walk.1, expanded := search.expanded ++ keys_of search, frontier := walk.2 } := by
  have hkeys : (keys_of search).Nodup := h.frontier_nodup.filter _
  have hfresh : ∀ x, x ∈ walk.2 ↔
      (impact_graph client db direction relationships).Level (· ∈ anchors) (k + 1) x :=
    fun x => (hwalk.fresh x).trans (h.mem_reached hrows habsorbed)
  have hexpanded : ∀ x, x ∈ search.expanded ++ keys_of search ↔ ∃ j < k + 1,
      (impact_graph client db direction relationships).Front (· ∈ anchors) j x := by
    intro x
    rw [List.mem_append, h.expanded, h.mem_keys]
    constructor
    · rintro (⟨j, hj, hfront⟩ | hfront)
      · exact ⟨j, by omega, hfront⟩
      · exact ⟨k, by omega, hfront⟩
    · rintro ⟨j, hj, hfront⟩
      rcases Nat.lt_or_eq_of_le (Nat.le_of_lt_succ hj) with hlt | rfl
      · exact Or.inl ⟨j, hlt, hfront⟩
      · exact Or.inr hfront
  refine ⟨⟨?_, ?_, ?_, ?_, ?_⟩, hwalk.nodup, hexpanded, ?_⟩
  · rw [hwalk.table]
    exact habsorbed.table_of
  · intro entry hentry
    rw [hwalk.table]
    rw [hwalk.parents] at hentry
    rcases List.mem_append.mp hentry with hold | hnew
    · exact habsorbed.grows (h.parents_table entry hold)
    · obtain ⟨step, hstep, rfl⟩ := List.mem_map.mp hnew
      exact (near_of_walked hkeys hrows habsorbed step (List.mem_of_mem_filter hstep)).2
  · intro x j
    rw [hwalk.distance, List.mem_append, h.distance, List.mem_map]
    constructor
    · rintro (⟨hj, hlevel⟩ | ⟨y, hy, heq⟩)
      · exact ⟨by omega, hlevel⟩
      · cases heq
        exact ⟨Nat.le_refl _, (hfresh x).mp hy⟩
    · rintro ⟨hj, hlevel⟩
      rcases Nat.lt_or_eq_of_le hj with hlt | rfl
      · exact Or.inl ⟨by omega, hlevel⟩
      · exact Or.inr ⟨x, (hfresh x).mpr hlevel, rfl⟩
  · rw [hwalk.distance, List.map_append, List.map_map]
    have hnames : walk.2.map ((·.1) ∘ (·, k + 1)) = walk.2 := List.map_id _
    rw [hnames, List.nodup_append']
    refine ⟨h.distance_nodup, hwalk.nodup, fun x hold hnew => ?_⟩
    obtain ⟨j, hj, hlevel⟩ := h.mem_distance.mp hold
    have heq := hlevel.unique ((hfresh x).mp hnew)
    omega
  · intro x e
    rw [hwalk.parents, parents_of_append, List.count_append]
    obtain ⟨hold, hnone⟩ := h.keeps x e
    obtain ⟨hkept, hnot⟩ := h.count_kept (x := x) (e := e) hrows habsorbed
    by_cases hbefore : ∃ j < k, (impact_graph client db direction relationships).Parent
        (· ∈ anchors) j e x
    · have hnow : ¬ (impact_graph client db direction relationships).Parent (· ∈ anchors) k e x := by
        intro hparent
        obtain ⟨j, hj, hparent'⟩ := hbefore
        have heq := hparent.2.2.1.unique hparent'.2.2.1
        omega
      rw [hold hbefore, hnot hnow]
      refine ⟨fun _ => rfl, fun hall => absurd ?_ hall⟩
      obtain ⟨j, hj, hparent⟩ := hbefore
      exact ⟨j, by omega, hparent⟩
    · rw [hnone hbefore, Nat.zero_add]
      by_cases hnow : (impact_graph client db direction relationships).Parent (· ∈ anchors) k e x
      · exact ⟨fun _ => hkept hnow, fun hall => absurd ⟨k, by omega, hnow⟩ hall⟩
      · refine ⟨fun hsome => ?_, fun _ => hnot hnow⟩
        obtain ⟨j, hj, hparent⟩ := hsome
        rcases Nat.lt_or_eq_of_le (Nat.le_of_lt_succ hj) with hlt | rfl
        · exact absurd ⟨j, hlt, hparent⟩ hbefore
        · exact absurd hparent hnow
  · intro x
    rw [hfresh, hexpanded]
    constructor
    · rintro ⟨hlevel, hnew⟩
      refine Or.inr ⟨fun hanchor => hnew ⟨0, by omega, Or.inl ⟨rfl, hanchor⟩⟩, hlevel⟩
    · rintro (⟨hzero, -⟩ | ⟨hanchor, hlevel⟩)
      · omega
      · refine ⟨hlevel, ?_⟩
        rintro ⟨j, hj, ⟨-, hstart⟩ | ⟨-, hearlier⟩⟩
        · exact hanchor hstart
        · have heq := hearlier.unique hlevel
          omega

end Round

/-- Every relationship that a search of so many rounds fetches can be read. -/
def RowsReadable (client : AnalysisClient) (db : AnalysisGraph) (direction : ImpactDirection)
    (relationships : List PlsqlRelationship) (anchors : List String) (hops : Nat) : Prop :=
  ∀ row ∈ db.relationships, traversed_row client relationships row = true →
    (∃ x ∈ direction.near_name row, ∃ k < hops,
      (impact_graph client db direction relationships).Front (· ∈ anchors) k x) →
    ∃ record, dependency_from_row client.project_id row (client.file_map db) = .ok record

theorem triple_of_columns {row : Relationship} :
    triple_of client db (EDGE_COLUMNS row) = triple_of client db row := by
  rw [triple_of, triple_of, record_of_columns]

/-- Within its limit a template gives a round the edges of its objects. -/
theorem fetched_rows {n : Nat}
    (h : (fetch_edges client db direction relationships keys (n + 1)).length ≤ n) :
    ((fetch_edges client db direction relationships keys (n + 1)).filterMap
        (triple_of client db)).Perm
      ((rows_at client db direction relationships keys).filterMap (triple_of client db)) := by
  obtain ⟨rows, hrows, hperm⟩ := fetch_edges_perm h
  have hcolumns : triple_of client db ∘ EDGE_COLUMNS = triple_of client db :=
    funext fun row => triple_of_columns
  rw [hrows, List.filterMap_map, hcolumns]
  exact hperm.filterMap _

theorem SearchInv.absorbed {n : Nat}
    (h : SearchInv client db direction relationships anchors hops k search) (hk : k < hops)
    (hids : IdsIdentify client (Fetched client db direction relationships anchors hops))
    (hroom : (fetch_edges client db direction relationships (keys_of search)
      (n + 1)).length ≤ n) :
    (∃ error, absorb_round direction client.project_id (client.file_map db)
        search.reached.edge_by_id
        (fetch_edges client db direction relationships (keys_of search) (n + 1)) = .error error ∧
      ¬ RowsReadable client db direction relationships anchors hops) ∨
    ∃ table adjacency,
      absorb_round direction client.project_id (client.file_map db) search.reached.edge_by_id
          (fetch_edges client db direction relationships (keys_of search) (n + 1)) =
        .ok (table, adjacency) ∧
      AbsorbedRound client db direction (Fetched client db direction relationships anchors hops)
        search.reached.edge_by_id
        (fetch_edges client db direction relationships (keys_of search) (n + 1)) table
        adjacency := by
  refine (absorb_round_spec hids h.table fun row hrow e htriple => ?_).imp_left ?_
  · have hmem : e ∈ (rows_at client db direction relationships (keys_of search)).filterMap
        (triple_of client db) :=
      (fetched_rows hroom).mem_iff.mp (List.mem_filterMap.mpr ⟨row, hrow, htriple⟩)
    rw [← List.count_pos_iff, count_rows_at] at hmem
    split_ifs at hmem with hkey
    · exact ⟨hmem, k, hk, h.mem_keys.mp hkey⟩
    · omega
  · rintro ⟨error, herror, row, hrow, hunread⟩
    refine ⟨error, herror, fun hread => ?_⟩
    obtain ⟨rows, hrows, hperm⟩ := fetch_edges_perm hroom
    rw [hrows] at hrow
    obtain ⟨stored, hstored, rfl⟩ := List.mem_map.mp hrow
    obtain ⟨hmem, hat⟩ := List.mem_filter.mp (hperm.mem_iff.mp hstored)
    rw [Bool.and_eq_true] at hat
    rw [dependency_from_row_columns] at hunread
    cases hname : direction.near_name stored with
    | none => simp [hname] at hat
    | some x =>
      have hkey : x ∈ keys_of search := by simpa [hname] using hat.2
      obtain ⟨record, hrecord⟩ := hread stored hmem hat.1 ⟨x, hname, k, hk, h.mem_keys.mp hkey⟩
      exact hunread record hrecord

/-- When a round has no objects to expand, the later ones change nothing. -/
theorem ReachedInv.idle (h : ReachedInv client db direction relationships anchors hops k reached)
    (hidle : ∀ x, ¬ (impact_graph client db direction relationships).Front (· ∈ anchors) k x)
    (n : Nat) : ReachedInv client db direction relationships anchors hops (k + n) reached := by
  refine ⟨h.table, h.parents_table, fun x j => ?_, h.distance_nodup, fun x e => ?_⟩
  · rw [h.distance x j]
    refine ⟨fun ⟨hj, hlevel⟩ => ⟨by omega, hlevel⟩, fun ⟨_, hlevel⟩ => ⟨?_, hlevel⟩⟩
    by_contra hlater
    exact Multigraph.not_level_of_idle hidle (Nat.lt_of_not_le hlater) hlevel
  · have hsame : (∃ j < k + n, (impact_graph client db direction relationships).Parent
        (· ∈ anchors) j e x) ↔
          ∃ j < k, (impact_graph client db direction relationships).Parent (· ∈ anchors) j e x := by
      refine ⟨fun ⟨j, _, hparent⟩ => ⟨j, ?_, hparent⟩, fun ⟨j, hj, hparent⟩ =>
        ⟨j, by omega, hparent⟩⟩
      by_contra hlater
      exact Multigraph.not_level_of_idle hidle (by omega) hparent.2.2.2
    rw [hsame]
    exact h.keeps x e

/-- The rounds of a search find the objects of their levels, unless they exceed the bound or
fetch a row that cannot be read. -/
theorem SearchInv.rounds
    (hids : IdsIdentify client (Fetched client db direction relationships anchors hops))
    (rounds : Nat) :
    ∀ {k : Nat} {search : ImpactSearch}, k + rounds ≤ hops →
      SearchInv client db direction relationships anchors hops k search →
        (∃ error, impact_rounds direction client.project_id (client.file_map db)
            client.max_traversal_edges (fetch_edges client db direction relationships) rounds
            (k + 1) search = .error error ∧
          (RowsReadable client db direction relationships anchors hops →
            error = impact_bound_exceeded)) ∨
        ∃ reached, impact_rounds direction client.project_id (client.file_map db)
            client.max_traversal_edges (fetch_edges client db direction relationships) rounds
            (k + 1) search = .ok reached ∧
          ReachedInv client db direction relationships anchors hops (k + rounds) reached := by
  induction rounds with
  | zero => exact fun _ h => Or.inr ⟨_, rfl, h.toReachedInv⟩
  | succ rounds ih =>
    intro k search hk h
    unfold impact_rounds
    have hkeys : (search.frontier.filter fun x => x ∉ search.expanded) = keys_of search := rfl
    simp only [hkeys]
    by_cases hempty : keys_of search = []
    · rw [if_pos hempty]
      refine Or.inr ⟨_, rfl, h.toReachedInv.idle (fun x hfront => ?_) _⟩
      have hmem := h.mem_keys.mpr hfront
      rw [hempty] at hmem
      cases hmem
    · rw [if_neg hempty]
      split_ifs with hspent hover
      · exact Or.inl ⟨_, rfl, fun _ => rfl⟩
      · exact Or.inl ⟨_, rfl, fun _ => rfl⟩
      · obtain ⟨n, hn⟩ : ∃ n : Nat, (n : Int) =
            client.max_traversal_edges - search.reached.edge_by_id.length :=
          ⟨_, Int.toNat_of_nonneg (by omega)⟩
        have hlimit : ((n : Int) + 1).toNat = n + 1 := by omega
        rw [← hn, hlimit] at hover ⊢
        have hroom : (fetch_edges client db direction relationships (keys_of search)
            (n + 1)).length ≤ n := by omega
        rcases h.absorbed (by omega) hids hroom with ⟨error, herror, hunread⟩ |
          ⟨table, adjacency, habsorb, habsorbed⟩
        · refine Or.inl ⟨error, ?_, fun hread => absurd hread hunread⟩
          simp only [herror, Bind.bind, Except.bind]
        have hbase : ∀ entry ∈ ({ search.reached with edge_by_id := table } : Reached).distance,
            entry.2 ≠ k + 1 := by
          intro entry hentry
          have hle := ((h.distance entry.1 entry.2).mp hentry).1
          omega
        have hround := h.round (fetched_rows hroom) habsorbed (visited_round hbase)
        have harith : k + 1 + rounds = k + (rounds + 1) := by omega
        have hnext := ih (by omega) hround
        rw [harith] at hnext
        simp only [habsorb, Bind.bind, Except.bind]
        exact hnext

/-- A search from the anchors. -/
theorem impact_search_spec
    (hids : IdsIdentify client (Fetched client db direction relationships anchors hops)) :
    (∃ error, impact_search client db anchors hops direction relationships = .error error ∧
      (RowsReadable client db direction relationships anchors hops →
        error = impact_bound_exceeded)) ∨
      ∃ reached, impact_search client db anchors hops direction relationships = .ok reached ∧
        ReachedInv client db direction relationships anchors hops hops reached := by
  have hstart : SearchInv client db direction relationships anchors hops 0
      { reached := { edge_by_id := [], distance := [], parents := [] }, expanded := [],
        frontier := anchors.dedup.insertionSort (· ≤ ·) } := by
    refine ⟨⟨?_, ?_, fun x j => ?_, List.nodup_nil, fun x e => ?_⟩, ?_, fun x => ?_, fun x => ?_⟩
    · exact fun edge hedge => absurd hedge List.not_mem_nil
    · exact fun entry hentry => absurd hentry List.not_mem_nil
    · refine ⟨fun h => absurd h List.not_mem_nil, fun ⟨hj, hlevel⟩ => ?_⟩
      have hpos := hlevel.1
      omega
    · refine ⟨fun ⟨j, hj, _⟩ => by omega, fun _ => rfl⟩
    · exact (List.perm_insertionSort _ _).nodup_iff.mpr (List.nodup_dedup anchors)
    · refine ⟨fun h => absurd h List.not_mem_nil, fun ⟨j, hj, _⟩ => by omega⟩
    · simp only [List.mem_insertionSort, List.mem_dedup, List.not_mem_nil, not_false_iff, and_true]
      refine ⟨fun h => Or.inl ⟨rfl, h⟩, ?_⟩
      rintro (⟨-, h⟩ | ⟨-, h⟩)
      · exact h
      · exact absurd h.1 (Nat.lt_irrefl 0)
  have hsearch := hstart.rounds hids hops (by omega)
  have harith : 0 + hops = hops := Nat.zero_add hops
  rw [harith] at hsearch
  exact hsearch

end lagraph.plsql
