import LaGraph.Plsql.Caches.Impact
import LaGraph.Plsql.Impact.Routes

open foundation

namespace lagraph.plsql

variable {env : Environment} {client : AnalysisClient} {db : AnalysisGraph}
  {direction : ImpactDirection} {relationships : List PlsqlRelationship} {anchors : List String}
  {changed : PlsqlObjectRecord} {hops : Nat} {reached : Reached} {c : ObjectCache}
  {records : List (String × Option PlsqlObjectRecord)}

/-- The routes that an item shows. -/
def shown_walks (client : AnalysisClient) (db : AnalysisGraph) (direction : ImpactDirection)
    (relationships : List PlsqlRelationship) (anchors : List String) (hops : Nat)
    (reached : Reached) (x : String) : List (List EdgeTriple) :=
  (walks_to client db direction relationships anchors reached hops x).take
    MAX_IMPACT_ROUTES_PER_DEPENDENT

/-- What the item of an object shows. -/
structure Shows (client : AnalysisClient) (db : AnalysisGraph) (direction : ImpactDirection)
    (relationships : List PlsqlRelationship) (anchors : List String) (hops : Nat)
    (reached : Reached) (c : ObjectCache) (entry : String × PlsqlImpactItemRecord) : Prop where
  dependent : known_record client db c entry.1 = some entry.2.dependent
  distance : (entry.1, entry.2.distance) ∈ reached.distance
  paths : (entry.2.paths.map fun path => path.steps.map (·.triple)).Perm
    ((shown_walks client db direction relationships anchors hops reached entry.1).map
      direction.flow)
  hops : ∀ path ∈ entry.2.paths, path.hop_count = path.steps.length

/-- The entries kept by a partial map, with what it gives for them. -/
theorem map_fst_kept {α β γ : Type} {l : List (α × β)} {f : α × β → Option γ} :
    (l.filterMap fun entry => (f entry).map fun value => (entry.1, value)).map (·.1) =
      (l.filter fun entry => (f entry).isSome).map (·.1) := by
  induction l with
  | nil => rfl
  | cons entry l ih =>
    rw [List.filterMap_cons, List.filter_cons]
    cases f entry with
    | none => exact ih
    | some value => simp [ih]

section Items

variable (h : ReachedInv client db direction relationships anchors hops hops reached)
  (hids : IdsIdentify client (Fetched client db direction relationships anchors hops))
include h hids

/-- The dependent that an object becomes. -/
theorem ReachedInv.kept {entry : String × Nat} {value : Option PlsqlObjectRecord}
    (hvalue : records.lookup entry.1 = some value) :
    (dependent_of direction anchors hops reached records entry).toOption.join.isSome =
      value.isSome := by
  obtain ⟨routes, hdependent, -⟩ := h.dependent hids hvalue
  rw [hdependent]
  cases value with
  | none => rfl
  | some record => rfl

/-- What its item shows. -/
theorem ReachedInv.shows {entry : String × Nat} {dependent : Dependent}
    (hentry : entry ∈ reached.distance)
    (hvalue : records.lookup entry.1 = some (known_record client db c entry.1))
    (hdependent : (dependent_of direction anchors hops reached records entry).toOption.join =
      some dependent) :
    Shows client db direction relationships anchors hops reached c
      (entry.1, impact_item env client dependent) := by
  obtain ⟨routes, hok, htriples⟩ := h.dependent hids hvalue
  rw [hok] at hdependent
  cases hknown : known_record client db c entry.1 with
  | none =>
    rw [hknown] at hdependent
    cases hdependent
  | some record =>
    rw [hknown] at hdependent
    cases hdependent
    refine ⟨hknown, hentry, ?_, fun path hpath => ?_⟩
    · unfold impact_item
      rw [List.map_map, shown_walks, ← htriples]
      exact (List.perm_insertionSort _ routes).map _
    · obtain ⟨steps, -, rfl⟩ := List.mem_map.mp hpath
      rfl

/-- The items of a search are those of the reached objects with a record. -/
theorem ReachedInv.items
    (hrecords : ∀ name ∈ (others_of changed reached).map (·.1),
      records.lookup name = some (known_record client db c name)) :
    ∃ impact, impact_from env client direction anchors hops reached (others_of changed reached)
        records = .ok impact ∧
      ∃ entries : List (String × PlsqlImpactItemRecord), entries.map (·.2) = impact.items ∧
        (entries.map (·.1)).Nodup ∧
        (∀ x, x ∈ entries.map (·.1) ↔ x ≠ changed.qualified_name ∧
          (known_record client db c x).isSome = true ∧ x ∈ reached.distance.map (·.1)) ∧
        ∀ entry ∈ entries, Shows client db direction relationships anchors hops reached c entry := by
  have hlookup : ∀ entry ∈ others_of changed reached,
      records.lookup entry.1 = some (known_record client db c entry.1) :=
    fun entry hentry => hrecords _ (List.mem_map_of_mem hentry)
  obtain ⟨dependents, hdependents, -⟩ :=
    @results.mapM_ok _ _ Raised (dependent_of direction anchors hops reached records)
      (fun _ _ => True) (others_of changed reached) fun entry hentry => by
        obtain ⟨routes, hok, -⟩ := h.dependent hids (hlookup entry hentry)
        exact ⟨_, hok, trivial⟩
  let kept (entry : String × Nat) : Option PlsqlImpactItemRecord :=
    ((dependent_of direction anchors hops reached records entry).toOption.join).map
      (impact_item env client)
  let found := (others_of changed reached).filterMap fun entry =>
    (kept entry).map fun item => (entry.1, item)
  have hfound : found.map (·.1) =
      ((others_of changed reached).filter fun entry => (kept entry).isSome).map (·.1) :=
    map_fst_kept
  have hkept : ∀ entry ∈ others_of changed reached,
      (kept entry).isSome = (known_record client db c entry.1).isSome := by
    intro entry hentry
    rw [Option.isSome_map, h.kept hids (hlookup entry hentry)]
  have hperm := List.perm_insertionSort
    (fun a b : String × PlsqlImpactItemRecord => item_order env a.2 b.2) found
  refine ⟨impact_result env client (dependents.filterMap id), ?_,
    found.insertionSort fun a b => item_order env a.2 b.2, ?_, ?_, fun x => ?_,
    fun entry hentry => ?_⟩
  · rw [impact_from, hdependents]
    rfl
  · rw [List.map_insertionSort _ (item_order env) _ _ fun a _ b _ => Iff.rfl]
    unfold impact_result
    rw [results.filterMap_of_mapM hdependents, List.map_filterMap, List.map_filterMap]
    congr 1
    refine List.filterMap_congr fun entry _ => ?_
    rw [Option.map_map, Option.map_map]
    rfl
  · rw [(hperm.map _).nodup_iff, hfound]
    exact (h.distance_nodup.sublist (List.filter_sublist.map _)).sublist (List.filter_sublist.map _)
  · rw [(hperm.map _).mem_iff, hfound]
    constructor
    · intro hx
      obtain ⟨entry, hentry, rfl⟩ := List.mem_map.mp hx
      obtain ⟨hother, hsome⟩ := List.mem_filter.mp hentry
      rw [hkept entry hother] at hsome
      obtain ⟨hreached, hne⟩ := List.mem_filter.mp hother
      exact ⟨by simpa using hne, hsome, List.mem_map_of_mem hreached⟩
    · rintro ⟨hne, hsome, hx⟩
      obtain ⟨entry, hentry, rfl⟩ := List.mem_map.mp hx
      have hother : entry ∈ others_of changed reached :=
        List.mem_filter.mpr ⟨hentry, by simpa using hne⟩
      exact List.mem_map_of_mem (List.mem_filter.mpr ⟨hother, by rw [hkept entry hother, hsome]⟩)
  · obtain ⟨other, hother, hitem⟩ := List.mem_filterMap.mp (hperm.mem_iff.mp hentry)
    obtain ⟨item, hkeep, rfl⟩ := Option.map_eq_some_iff.mp hitem
    obtain ⟨dependent, hdependent, rfl⟩ := Option.map_eq_some_iff.mp hkeep
    exact h.shows hids (List.mem_of_mem_filter hother) (hlookup other hother) hdependent

end Items

end lagraph.plsql
