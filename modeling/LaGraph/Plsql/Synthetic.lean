import LaGraph.Plsql.Impact
import LaGraph.Foundation.SortedSets
import LaGraph.Plsql.Source

open foundation

namespace lagraph.plsql

/-- The client over a fixed corpus; its constructor raises the row bound to at least
one. -/
structure SyntheticPlsqlAnalysisClient where
  project_id : String
  max_rows : Nat
  corpus : List PlsqlObjectRecord
  edges : List PlsqlDependencyRecord
  max_rows_pos : 0 < max_rows

namespace SyntheticPlsqlAnalysisClient

variable (client : SyntheticPlsqlAnalysisClient)

/-- `_by_id`: of two records with one id the later one counts. -/
def by_id (id : String) : Option PlsqlObjectRecord :=
  client.corpus.reverse.find? (·.id = id)

/-- `edge_by_id`. -/
def edge_by_id (id : String) : Option PlsqlDependencyRecord :=
  client.edges.reverse.find? (·.id = id)

/-- `max(1, min(limit, self._max_rows))`. -/
def bounded_limit (limit : Int) : Nat :=
  (max 1 (min limit client.max_rows)).toNat

/-- `max(1, max_hops)`. -/
def bounded_hops (max_hops : Int) : Nat :=
  (max 1 max_hops).toNat

/-- The steps of a trail of edge ids. -/
def steps (trail : List String) : List PlsqlDependencyRecord :=
  trail.filterMap client.edge_by_id

def path_record (sha1 : String → String) (trail : List String) : PlsqlPathRecord where
  id := "path://" ++ client.project_id ++ "/" ++
    String.ofList ((sha1 (unit_separator.intercalate trail)).toList.take 16)
  steps := client.steps trail
  hop_count := (client.steps trail).length

/-- The edges of the relationships between objects of the corpus. -/
def traversed (relationships : List PlsqlRelationship) : List PlsqlDependencyRecord :=
  client.edges.filter fun edge =>
    edge.relationship ∈ relationships && (client.by_id edge.source_id).isSome &&
      (client.by_id edge.target_id).isSome

/-- `adjacency`: the traversed edges whose given end is `current`, by edge id. -/
def adjacency (near_end : PlsqlDependencyRecord → String)
    (relationships : List PlsqlRelationship) (current : String) : List PlsqlDependencyRecord :=
  ((client.traversed relationships).filter (near_end · = current)).insertionSort
    fun a b => a.id ≤ b.id

/-- `walk`: the trails to the target with at most `hops` more edges. -/
def walk (from_id to_id : String) : (hops : Nat) → String → List String → List (List String)
  | hops, current, trail =>
    if current = to_id then
      if trail = [] then [] else [trail]
    else
      match hops with
      | 0 => []
      | hops + 1 =>
        let visited := from_id :: (client.steps trail).map (·.target_id)
        ((client.adjacency (·.source_id) PATH_RELATIONSHIPS current).filter
          (·.target_id ∉ visited)).flatMap fun edge =>
            walk from_id to_id hops edge.target_id (trail ++ [edge.id])

/-- The order of the trails: hops, then the node ids, then the edge ids. -/
def trail_order (a b : List String) : Prop :=
  let nodes (trail : List String) := (client.steps trail).map (·.target_id)
  a.length < b.length ∨ a.length = b.length ∧ (nodes a < nodes b ∨ nodes a = nodes b ∧ a ≤ b)

instance : DecidableRel client.trail_order := by
  intro a b
  unfold trail_order
  infer_instance

/-- All paths in the order of the result. -/
def all_paths (sha1 : String → String) (from_id to_id : String) (max_hops : Int) :
    List PlsqlPathRecord :=
  (((client.walk from_id to_id (bounded_hops max_hops) from_id []).dedup).insertionSort
    client.trail_order).map (client.path_record sha1)

def find_paths (sha1 : String → String) (from_id to_id : String) (max_hops limit offset : Int) :
    PlsqlPathPage :=
  let ordered := client.all_paths sha1 from_id to_id max_hops
  let bounded_offset := (max 0 offset).toNat
  let page_end := bounded_offset + client.bounded_limit limit
  { items := (ordered.drop bounded_offset).take (client.bounded_limit limit),
    truncated := page_end < ordered.length, total := ordered.length }

/-- `_container_belongs`: the object itself or a member of its package. -/
def container_belongs (record : PlsqlObjectRecord) (object_id : String) : Bool :=
  record.id = object_id ||
    match record.owner, client.by_id object_id with
    | some owner, some package =>
      package.kind = .Package && owner = package.name && record.schema_name = package.schema_name
    | _, _ => false

/-- `_impact_anchors`: a package stands for its members. -/
def impact_anchors (object_id : String) : List String :=
  match client.by_id object_id with
  | none => []
  | some record =>
    if record.kind ≠ .Package then [object_id]
    else
      ((client.corpus.filter fun candidate =>
        candidate.id ≠ object_id && client.container_belongs candidate object_id).map
          (·.id)).insertionSort (· ≤ ·)

/-- The ends of an edge by their ids. -/
def near_id : ImpactDirection → PlsqlDependencyRecord → String
  | .upstream, edge => edge.target_id
  | .downstream, edge => edge.source_id

def far_id : ImpactDirection → PlsqlDependencyRecord → String
  | .upstream, edge => edge.source_id
  | .downstream, edge => edge.target_id

/-- The edge ids of a chain in flow order. -/
def flow : ImpactDirection → List PlsqlDependencyRecord → List String
  | .upstream, chain => (chain.map (·.id)).reverse
  | .downstream, chain => chain.map (·.id)

/-- `visit`: the dependents with their trails, by at most `hops` more edges. -/
def visit (direction : ImpactDirection) (relationships : List PlsqlRelationship) :
    (hops : Nat) → String → List String → List PlsqlDependencyRecord →
      List (String × List String)
  | 0, _, _, _ => []
  | hops + 1, current, seen, chain =>
    ((client.adjacency (near_id direction) relationships current).filter
      (far_id direction · ∉ seen)).flatMap fun edge =>
        let peer := far_id direction edge
        (peer, flow direction (chain ++ [edge])) ::
          visit direction relationships hops peer (peer :: seen) (chain ++ [edge])

/-- `_impact_trails`: each dependent with one of its trails. -/
def impact_trails (object_id : String) (max_hops : Int) (relationships : List PlsqlRelationship)
    (direction : ImpactDirection) : List (String × List String) :=
  (client.impact_anchors object_id).flatMap fun anchor =>
    client.visit direction relationships (bounded_hops max_hops) anchor [anchor] []

/-- The trails of a dependent. -/
def trails_of (trails : List (String × List String)) (dependent_id : String) :
    List (List String) :=
  ((trails.filter (·.1 = dependent_id)).map (·.2)).dedup

/-- The length of the shortest trail of a dependent. -/
def shortest (trails : List (String × List String)) (dependent_id : String) : Nat :=
  ((trails_of trails dependent_id).map List.length).foldl min
    ((trails_of trails dependent_id).headD []).length

/-- The order of the trails of one dependent: target ids, then edge ids. -/
def route_order (a b : List String) : Prop :=
  let targets (trail : List String) := (client.steps trail).map (·.target_id)
  targets a < targets b ∨ targets a = targets b ∧ a ≤ b

instance : DecidableRel client.route_order := by
  intro a b
  unfold route_order
  infer_instance

def impact_item (sha1 : String → String) (trails : List (String × List String))
    (dependent : PlsqlObjectRecord) (dependent_id : String) : PlsqlImpactItemRecord :=
  let distance := shortest trails dependent_id
  { id := "impact://" ++ client.project_id ++ "/" ++ dependent_id ++ "/d" ++ toString distance,
    dependent, distance,
    paths := (((trails_of trails dependent_id).filter (·.length = distance)).insertionSort
      client.route_order).map (client.path_record sha1) }

/-- `_impact_summary`: its dependents all have a record. -/
def impact_summary (trails : List (String × List String)) : PlsqlImpactSummaryRecord :=
  let dependents := (trails.map (·.1)).eraseDups
  let direct := (dependents.filter fun id => shortest trails id = 1).length
  { direct, indirect := dependents.length - direct,
    packages := (dependents.filterMap fun id => (client.by_id id).bind package_of).dedup.length,
    tables_modified :=
      ((trails.flatMap fun entry => tables_written (client.steps entry.2)).dedup).length }

/-- The items and the summary of the impact of an object. -/
def impact (env : Environment) (object_id : String) (max_hops : Int)
    (direction : ImpactDirection) (relationships : Option (List PlsqlRelationship)) : Impact :=
  let trails := client.impact_trails object_id max_hops (relationships.getD PATH_RELATIONSHIPS)
    direction
  let items := (trails.map (·.1)).eraseDups.filterMap fun dependent_id =>
    (client.by_id dependent_id).map fun dependent =>
      client.impact_item env.sha1 trails dependent dependent_id
  { items := items.insertionSort (item_order env), summary := client.impact_summary trails }

def impact_of (env : Environment) (object_id : String) (max_hops limit : Int)
    (direction : ImpactDirection) (relationships : Option (List PlsqlRelationship))
    (offset : Int) : PlsqlImpactPage :=
  let impact := client.impact env object_id max_hops direction relationships
  let bounded_offset := (max 0 offset).toNat
  let page_end := bounded_offset + client.bounded_limit limit
  { items := (impact.items.drop bounded_offset).take (client.bounded_limit limit),
    truncated := page_end < impact.items.length, total := impact.items.length,
    summary := impact.summary }

end SyntheticPlsqlAnalysisClient

/-- The client over the corpus with the settings of its source reads. -/
structure SyntheticSourceClient extends SyntheticPlsqlAnalysisClient where
  source_root : Option String
  max_source_bytes : Nat
  max_source_bytes_pos : 0 < max_source_bytes

namespace SyntheticSourceClient

variable (client : SyntheticSourceClient) (env : Environment)

/-- `source_files`: the file ids and paths of all evidence. -/
def source_files : List (String × String) :=
  (client.corpus.filterMap (·.evidence) ++ client.edges.filterMap (·.evidence)).map
    fun evidence => (evidence.source_file_id, evidence.path)

/-- `_file_by_id`: of two paths of one file id the greater one counts. -/
def file_by_id (file_id : String) : Option String :=
  let files := sorted.sortBy (fun a b => a.1 < b.1 ∨ a.1 = b.1 ∧ a.2 ≤ b.2) client.source_files.dedup
  (files.reverse.find? (·.1 = file_id)).map (·.2)

def object_source (object_id : String) : Except Raised (Option PlsqlSourceRecord) :=
  match client.by_id object_id with
  | none => .ok none
  | some record =>
    match record.evidence with
    | none => .ok none
    | some evidence =>
      some <$> load_source env.files env.decode client.source_root client.max_source_bytes
        evidence.source_file_id evidence.path evidence.start_line none

def file_source (file_id : String) (start_line end_line : Option Int) :
    Except Raised (Option PlsqlSourceRecord) :=
  match client.file_by_id file_id with
  | none => .ok none
  | some path =>
    some <$> load_source env.files env.decode client.source_root client.max_source_bytes
      file_id path start_line end_line

end SyntheticSourceClient

end lagraph.plsql
