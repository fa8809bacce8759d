import LaGraph.Plsql.Identifiers

open foundation

namespace lagraph.plsql

/-- The failures of the analysis gateway, with their messages. -/
inductive PlsqlError
  | PlsqlNotConfigured (message : String)
  | PlsqlObjectNotFound (message : String)
  | PlsqlLimitExceeded (message : String)
  deriving DecidableEq, Repr

/-- What an adapter call can raise: a gateway failure, or an exception of the
language that escapes it. -/
inductive Raised
  | gateway (error : PlsqlError)
  | index_error
  | key_error (key : String)
  | value_error
  | os_error
  | runtime_error
  deriving DecidableEq, Repr

structure PlsqlEvidence where
  source_file_id : String
  path : String
  start_line : Option Int
  start_column : Option Int
  start_offset : Option Int
  end_offset : Option Int
  deriving DecidableEq, Repr

structure PlsqlObjectRecord where
  id : String
  kind : ObjectKind
  name : String
  schema_name : String
  qualified_name : String
  project_id : String
  owner : Option String
  evidence : Option PlsqlEvidence
  deriving DecidableEq, Repr

structure PlsqlDependencyRecord where
  id : String
  relationship : PlsqlRelationship
  resolution : PlsqlResolution
  source_id : String
  source_kind : ObjectKind
  source_name : String
  source_qualified_name : String
  target_id : String
  target_kind : ObjectKind
  target_name : String
  target_qualified_name : String
  evidence : Option PlsqlEvidence
  evidence_kind : Option String
  derived : Option Bool
  events : Option String
  via_table_id : Option String
  via_table_kind : Option ObjectKind
  via_table_name : Option String
  via_table_qualified_name : Option String
  deriving DecidableEq, Repr

/-- Graph file ids, and the paths themselves, to project-relative paths; a later
row replaces an earlier one. -/
def file_map (db : GraphDb) (project_id : String) : List (String × String) :=
  (SOURCE_FILES db project_id).foldl
    (fun mapping row =>
      match row with
      | (some path, file_key) =>
        if path = "" ∨ file_key = "" then mapping
        else (path, path) :: (file_key, path) :: mapping
      | (none, _) => mapping) []

/-- A `file://` id without a path behind its project raises `IndexError`. -/
def resolve_path_sync (file_id : Option String) (file_paths : List (String × String)) :
    Except Raised (Option String) :=
  match file_id with
  | none => .ok none
  | some file_id =>
    if file_id = "" then .ok none
    else
      match file_paths.lookup file_id with
      | some path => .ok (some path)
      | none =>
        if text.startsWith file_id "file://" then
          match text.afterFirst '/' (text.dropPrefix file_id "file://").toList with
          | some path => .ok (some (String.ofList path))
          | none => .error .index_error
        else .ok none

/-- A coordinate is kept only with a file id and a path. -/
def evidence (file_id path : Option String) (coordinates : Coordinates) : Option PlsqlEvidence :=
  match file_id, path with
  | some file_id, some path =>
    if file_id = "" ∨ path = "" then none
    else some
      { source_file_id := file_id, path,
        start_line := int_or_none coordinates.startLine,
        start_column := int_or_none coordinates.startColumn,
        start_offset := int_or_none coordinates.startOffset,
        end_offset := int_or_none coordinates.endOffset }
  | _, _ => none

/-- `name or qualified.rsplit(".", 1)[-1]`. -/
def display_name (name : Option String) (qualified : String) : String :=
  match name with
  | some name => if name = "" then text.lastSegment '.' qualified else name
  | none => text.lastSegment '.' qualified

def object_from_node (project_id : String) (node : DatabaseObject)
    (file_paths : List (String × String)) : Except Raised (Option PlsqlObjectRecord) :=
  match kind_from_labels node.labels, node.qualifiedName with
  | some kind, some qualified =>
    if qualified = "" then .ok none
    else do
      let file_id := str_or_none node.coordinates.sourceFileId
      let path ← resolve_path_sync file_id file_paths
      .ok (some
        { id := object_id project_id qualified, kind, name := display_name node.name qualified,
          schema_name := schema_of qualified, qualified_name := qualified, project_id,
          owner := owner_of qualified, evidence := evidence file_id path node.coordinates })
  | _, _ => .ok none

/-- One catalog edge row as a dependency record; a row that is no trigger-aware
relationship between two named, kinded objects is dropped. -/
def dependency_from_row (project_id : String) (row : Relationship)
    (file_paths : List (String × String)) : Except Raised (Option PlsqlDependencyRecord) :=
  let resolution_name := match row.resolution with
    | some name => if name = "" then "EXACT" else name
    | none => "EXACT"
  match TRIGGER_AWARE_RELATIONSHIPS.find? (·.name = row.type),
      RESOLUTIONS.find? (·.name = resolution_name),
      row.source.qualifiedName, row.target.qualifiedName with
  | some relationship, some resolution, some source_qn, some target_qn =>
    if source_qn = "" ∨ target_qn = "" then .ok none
    else
      match kind_from_labels row.source.labels, kind_from_labels row.target.labels with
      | some source_kind, some target_kind => do
        let file_id := str_or_none row.coordinates.sourceFileId
        let path ← resolve_path_sync file_id file_paths
        let via_table := via_table_reference row.viaTable project_id
        .ok (some
          { id := edge_id project_id relationship.name source_qn target_qn,
            relationship, resolution,
            source_id := object_id project_id source_qn, source_kind,
            source_name := display_name row.source.name source_qn,
            source_qualified_name := source_qn,
            target_id := object_id project_id target_qn, target_kind,
            target_name := display_name row.target.name target_qn,
            target_qualified_name := target_qn,
            evidence := evidence file_id path row.coordinates,
            evidence_kind := str_or_none row.evidenceKind,
            derived := match row.derived with | .bool value => some value | _ => none,
            events := str_or_none row.events,
            via_table_id := via_table.map (·.1),
            via_table_kind := via_table.map (·.2.1),
            via_table_name := via_table.map (·.2.2.1),
            via_table_qualified_name := via_table.map (·.2.2.2) })
      | _, _ => .ok none
  | _, _, _, _ => .ok none

/-- What identifies an edge. -/
structure EdgeTriple where
  relationship : PlsqlRelationship
  source : String
  target : String
  deriving DecidableEq, Repr

def PlsqlDependencyRecord.triple (edge : PlsqlDependencyRecord) : EdgeTriple :=
  ⟨edge.relationship, edge.source_qualified_name, edge.target_qualified_name⟩

def EdgeTriple.id (project_id : String) (e : EdgeTriple) : String :=
  edge_id project_id e.relationship.name e.source e.target

/-- The stored relationship a triple stands for. -/
def EdgeTriple.Of (e : EdgeTriple) (row : Relationship) : Prop :=
  row.type = e.relationship.name ∧ row.source.qualifiedName = some e.source ∧
    row.target.qualifiedName = some e.target

/-- A mapped row keeps the relationship and both qualified names, and its id is
the id of that triple. -/
theorem dependency_from_row_triple {project_id : String} {row : Relationship}
    {file_paths : List (String × String)} {edge : PlsqlDependencyRecord}
    (h : dependency_from_row project_id row file_paths = .ok (some edge)) :
    edge.triple.Of row ∧ edge.id = edge.triple.id project_id := by
  unfold dependency_from_row at h
  simp only at h
  split at h
  · rename_i relationship resolution source_qn target_qn hrel hres hsource htarget
    split at h
    · cases h
    · split at h
      · cases hpath : resolve_path_sync (str_or_none row.coordinates.sourceFileId) file_paths with
        | error e => simp [hpath, Bind.bind, Except.bind] at h
        | ok path =>
          simp only [hpath, Bind.bind, Except.bind, Except.ok.injEq, Option.some.injEq] at h
          subst h
          have htype : relationship.name = row.type := by simpa using List.find?_some hrel
          exact ⟨⟨htype.symm, hsource, htarget⟩, rfl⟩
      · cases h
  · cases h

/-- And the ids of its ends are those of their names. -/
theorem dependency_from_row_ends {project_id : String} {row : Relationship}
    {file_paths : List (String × String)} {edge : PlsqlDependencyRecord}
    (h : dependency_from_row project_id row file_paths = .ok (some edge)) :
    edge.source_id = object_id project_id edge.source_qualified_name ∧
      edge.target_id = object_id project_id edge.target_qualified_name := by
  unfold dependency_from_row at h
  simp only at h
  split at h
  · split at h
    · cases h
    · split at h
      · cases hpath : resolve_path_sync (str_or_none row.coordinates.sourceFileId) file_paths with
        | error e => simp [hpath, Bind.bind, Except.bind] at h
        | ok path =>
          simp only [hpath, Bind.bind, Except.bind, Except.ok.injEq, Option.some.injEq] at h
          subst h
          exact ⟨rfl, rfl⟩
      · cases h
  · cases h

end lagraph.plsql
