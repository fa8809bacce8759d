import LaGraph.Foundation.Results
import LaGraph.Plsql.Client

open foundation

namespace lagraph.plsql

/-- The path that a file id itself holds behind its project. -/
def embedded_path (file_id : String) : Option String :=
  if text.startsWith file_id "file://" then
    (text.afterFirst '/' (text.dropPrefix file_id "file://").toList).map String.ofList
  else none

/-- A path whose file the client would serve. -/
def Readable (env : Environment) (client : AnalysisClient) (path : String) : Prop :=
  ∃ root resolved size raw, source_root client.source_root = .ok root ∧
    resolve_source_file env.files root path = .ok resolved ∧
    env.files.st_size resolved = some size ∧ size ≤ client.max_source_bytes ∧
    env.files.read_bytes resolved = some raw

/-- Content is served only under a file id that the records of the graph map to its path. -/
def ServesMapped (env : Environment) (client : AnalysisClient) (db : AnalysisGraph)
    (file_id : String) (start_line end_line : Option Int) : Prop :=
  ∀ record, file_source client db env file_id start_line end_line = .ok (some record) →
    (client.file_map db).lookup file_id = some record.file.path

variable {env : Environment} {client : AnalysisClient} {db : AnalysisGraph}
  {file_id path : String} {start_line end_line : Option Int}

/-- A file is loaded exactly when it can be read. -/
theorem load_source_ok_iff :
    (∃ record, load_source env.files env.decode client.source_root client.max_source_bytes file_id
        path start_line end_line = .ok record) ↔ Readable env client path := by
  constructor
  · rintro ⟨record, hload⟩
    obtain ⟨root, hroot, hload⟩ := results.bind_ok.mp hload
    obtain ⟨resolved, hresolved, hload⟩ := results.bind_ok.mp hload
    obtain ⟨lines, hlines, -⟩ := results.bind_ok.mp hload
    rw [read_source_lines] at hlines
    cases hsize : env.files.st_size resolved with
    | none => simp [hsize] at hlines
    | some size =>
      by_cases hlarge : size > client.max_source_bytes
      · simp [hsize, hlarge] at hlines
      · cases hraw : env.files.read_bytes resolved with
        | none => simp [hsize, hlarge, hraw] at hlines
        | some raw =>
          exact ⟨root, resolved, size, raw, hroot, hresolved, hsize, Nat.le_of_not_lt hlarge, hraw⟩
  · rintro ⟨root, resolved, size, raw, hroot, hresolved, hsize, hfits, hraw⟩
    have hlines : read_source_lines env.files env.decode resolved client.max_source_bytes =
        .ok (splitlines [] (env.decode raw).toList) := by
      rw [read_source_lines, hsize]
      simp only [gt_iff_lt, Nat.not_lt.mpr hfits, if_false, hraw]
    exact ⟨_, results.bind_ok.mpr ⟨root, hroot, results.bind_ok.mpr
      ⟨resolved, hresolved, results.bind_ok.mpr ⟨_, hlines, rfl⟩⟩⟩⟩

theorem load_source_path {record : PlsqlSourceRecord}
    (h : load_source env.files env.decode client.source_root client.max_source_bytes file_id path
      start_line end_line = .ok record) : record.file.path = path := by
  obtain ⟨root, -, h⟩ := results.bind_ok.mp h
  obtain ⟨resolved, -, h⟩ := results.bind_ok.mp h
  obtain ⟨lines, -, h⟩ := results.bind_ok.mp h
  cases h
  rfl

/-- A file id stands for the path it is mapped to, or else for the one it holds. -/
theorem resolve_path_sync_some {file_paths : List (String × String)} :
    resolve_path_sync (some file_id) file_paths = .ok (some path) ↔
      file_id ≠ "" ∧ (file_paths.lookup file_id = some path ∨
        file_paths.lookup file_id = none ∧ embedded_path file_id = some path) := by
  rw [resolve_path_sync, embedded_path]
  by_cases hempty : file_id = ""
  · simp [hempty]
  · cases hlookup : file_paths.lookup file_id with
    | some mapped => simp [hempty]
    | none =>
      by_cases hprefix : text.startsWith file_id "file://" = true
      · cases hrest : text.afterFirst '/' (text.dropPrefix file_id "file://").toList with
        | none => simp [hempty, hprefix]
        | some rest => simp [hempty, hprefix]
      · simp [hempty, hprefix]

theorem file_source_some {record : PlsqlSourceRecord} :
    file_source client db env file_id start_line end_line = .ok (some record) ↔
      ∃ path, resolve_path_sync (some file_id) (client.file_map db) = .ok (some path) ∧
        load_source env.files env.decode client.source_root client.max_source_bytes file_id path
          start_line end_line = .ok record := by
  rw [file_source, results.bind_ok]
  constructor
  · rintro ⟨path, hpath, hload⟩
    cases path with
    | none => cases hload
    | some path =>
      refine ⟨path, hpath, ?_⟩
      simp only at hload
      cases hrecord : load_source env.files env.decode client.source_root client.max_source_bytes
          file_id path start_line end_line with
      | error e => simp [hrecord, Functor.map, Except.map] at hload
      | ok found =>
        simp only [hrecord, Functor.map, Except.map, Except.ok.injEq, Option.some.injEq] at hload
        rw [hload]
  · rintro ⟨path, hpath, hload⟩
    refine ⟨some path, hpath, ?_⟩
    simp only [hload, Functor.map, Except.map]

theorem embedded_path_nonempty (h : embedded_path file_id = some path) : file_id ≠ "" := by
  rintro rfl
  have hnone : embedded_path "" = none := by decide
  cases hnone.symm.trans h

/-- Content is served under mapped file ids only, exactly when the file id is mapped or the
path it holds cannot be read. -/
theorem serves_mapped_iff : ServesMapped env client db file_id start_line end_line ↔
    ((client.file_map db).lookup file_id).isSome = true ∨
      ∀ path, embedded_path file_id = some path → ¬ Readable env client path := by
  constructor
  · intro h
    cases hlookup : (client.file_map db).lookup file_id with
    | some mapped => exact Or.inl rfl
    | none =>
      refine Or.inr fun path hembedded hreadable => ?_
      obtain ⟨record, hload⟩ :=
        (@load_source_ok_iff env client file_id path start_line end_line).mpr hreadable
      have hpath := resolve_path_sync_some.mpr
        ⟨embedded_path_nonempty hembedded, Or.inr ⟨hlookup, hembedded⟩⟩
      have hmapped := h record (file_source_some.mpr ⟨path, hpath, hload⟩)
      rw [hlookup] at hmapped
      cases hmapped
  · intro h record hserved
    obtain ⟨path, hpath, hload⟩ := file_source_some.mp hserved
    rw [load_source_path hload]
    rcases (resolve_path_sync_some.mp hpath).2 with hmapped | ⟨hnone, hembedded⟩
    · exact hmapped
    · rcases h with hsome | hunreadable
      · simp [hnone] at hsome
      · exact absurd (load_source_ok_iff.mp ⟨record, hload⟩) (hunreadable path hembedded)

section Failures

variable {α β : Type}

/-- What is raised, if anything is, is a failure of the gateway. -/
def Orderly (answer : Except Raised α) : Prop :=
  ∀ raised, answer = .error raised → ∃ error, raised = .gateway error

/-- The path that a file id stands for. -/
def StandsFor (client : AnalysisClient) (db : AnalysisGraph) (file_id path : String) : Prop :=
  file_id ≠ "" ∧ ((client.file_map db).lookup file_id = some path ∨
    (client.file_map db).lookup file_id = none ∧ embedded_path file_id = some path)

/-- Below the root, a relative path without a way up is resolved or is missing: there is no
null byte and no loop of links in it, and the root itself is resolved. -/
def Resolvable (files : FileSystem) (root : List String) (path : String) : Prop :=
  path ≠ "" → ¬(is_absolute (path_parts path) = true ∨ ".." ∈ path_parts path) →
    (∃ resolved_root, files.resolve root = .ok resolved_root) ∧
      ∀ failure, files.resolve_strict (root ++ path_parts path) = .error failure →
        failure = .os_error

theorem orderly_ok (a : α) : Orderly (.ok a) := by
  intro raised h
  cases h

theorem orderly_gateway (error : PlsqlError) : Orderly (.error (.gateway error) : Except _ α) := by
  intro raised h
  cases h
  exact ⟨error, rfl⟩

theorem orderly_bind {x : Except Raised α} {f : α → Except Raised β} :
    Orderly (x >>= f) ↔ Orderly x ∧ ∀ a, x = .ok a → Orderly (f a) := by
  cases x with
  | error raised =>
    refine ⟨fun h => ⟨fun raised' h' => ?_, fun a ha => ?_⟩, fun h raised' h' => ?_⟩
    · cases h'
      exact h raised rfl
    · cases ha
    · cases h'
      exact h.1 raised rfl
  | ok a =>
    refine ⟨fun h => ⟨orderly_ok a, fun b hb => ?_⟩, fun h => h.2 a rfl⟩
    cases hb
    exact h

theorem orderly_map {x : Except Raised α} {f : α → β} : Orderly (f <$> x) ↔ Orderly x := by
  rw [map_eq_pure_bind, orderly_bind]
  exact ⟨fun h => h.1, fun h => ⟨h, fun a _ => orderly_ok (f a)⟩⟩

theorem ResolveError.not_orderly (failure : ResolveError) :
    ¬ Orderly (.error failure.raised : Except _ α) := by
  intro h
  obtain ⟨error, hraised⟩ := h failure.raised rfl
  cases failure <;> cases hraised

theorem orderly_source_root {root : Option String} : Orderly (source_root root) := by
  cases root with
  | none => exact orderly_gateway _
  | some root =>
    by_cases hroot : root = ""
    · rw [hroot]
      exact orderly_gateway _
    · rw [source_root, if_neg hroot]
      exact orderly_ok _

theorem orderly_read_source_lines {resolved : List String} {max_bytes : Nat} :
    Orderly (read_source_lines env.files env.decode resolved max_bytes) := by
  rw [read_source_lines]
  cases env.files.st_size resolved with
  | none => exact orderly_gateway _
  | some size =>
    dsimp only
    split_ifs
    · exact orderly_gateway _
    · cases env.files.read_bytes resolved with
      | none => exact orderly_gateway _
      | some raw => exact orderly_ok _

theorem orderly_resolve_source_file {files : FileSystem} {root : List String} :
    Orderly (resolve_source_file files root path) ↔ Resolvable files root path := by
  rw [resolve_source_file, Resolvable]
  by_cases hempty : path = ""
  · rw [if_pos hempty]
    exact ⟨fun _ h => absurd hempty h, fun _ => orderly_gateway _⟩
  · rw [if_neg hempty]
    dsimp only
    by_cases hblocked : is_absolute (path_parts path) = true ∨ ".." ∈ path_parts path
    · rw [if_pos hblocked]
      exact ⟨fun _ _ h => absurd hblocked h, fun _ => orderly_gateway _⟩
    · rw [if_neg hblocked, orderly_bind]
      constructor
      · rintro ⟨hroot, hfile⟩ - -
        cases hresolve : files.resolve root with
        | error failure =>
          rw [hresolve] at hroot
          exact absurd hroot failure.not_orderly
        | ok resolved_root =>
          refine ⟨⟨resolved_root, rfl⟩, fun failure hstrict => ?_⟩
          have horderly := hfile resolved_root (by rw [hresolve]; rfl)
          rw [hstrict] at horderly
          cases failure with
          | os_error => rfl
          | value_error => exact absurd horderly ResolveError.value_error.not_orderly
          | runtime_error => exact absurd horderly ResolveError.runtime_error.not_orderly
      · intro h
        obtain ⟨⟨resolved_root, hresolve⟩, hstrict⟩ := h hempty hblocked
        rw [hresolve]
        refine ⟨orderly_ok _, fun root' _ => ?_⟩
        cases hfile : files.resolve_strict (root ++ path_parts path) with
        | error failure =>
          obtain rfl := hstrict failure hfile
          exact orderly_gateway _
        | ok resolved =>
          dsimp only
          split_ifs
          · exact orderly_ok _
          · exact orderly_gateway _

theorem orderly_load_source :
    Orderly (load_source env.files env.decode client.source_root client.max_source_bytes file_id
      path start_line end_line) ↔
      ∀ root, source_root client.source_root = .ok root → Resolvable env.files root path := by
  rw [load_source, orderly_bind]
  refine ⟨fun h root hroot => ?_, fun h => ⟨orderly_source_root, fun root hroot => ?_⟩⟩
  · exact orderly_resolve_source_file.mp (orderly_bind.mp (h.2 root hroot)).1
  · refine orderly_bind.mpr ⟨orderly_resolve_source_file.mpr (h root hroot), fun resolved _ => ?_⟩
    exact orderly_bind.mpr ⟨orderly_read_source_lines, fun lines _ => orderly_ok _⟩

/-- A file id that no record maps is not read where it is a `file://` id that names nothing
behind its project. -/
theorem orderly_resolve_path_sync {file_paths : List (String × String)} :
    Orderly (resolve_path_sync (some file_id) file_paths) ↔
      (file_paths.lookup file_id = none → text.startsWith file_id "file://" = true →
        (embedded_path file_id).isSome = true) := by
  rw [resolve_path_sync, embedded_path]
  by_cases hempty : file_id = ""
  · have hstart : text.startsWith "" "file://" = false := by decide
    rw [if_pos hempty, hempty, hstart]
    exact ⟨fun _ _ h => absurd h Bool.false_ne_true, fun _ => orderly_ok none⟩
  · rw [if_neg hempty]
    cases file_paths.lookup file_id with
    | some mapped => exact ⟨fun _ h => (Option.some_ne_none mapped h).elim, fun _ => orderly_ok _⟩
    | none =>
      dsimp only
      by_cases hstart : text.startsWith file_id "file://" = true
      · rw [if_pos hstart, if_pos hstart]
        cases text.afterFirst '/' (text.dropPrefix file_id "file://").toList with
        | none =>
          refine ⟨fun h => ?_, fun h => absurd (h rfl hstart) Bool.false_ne_true⟩
          obtain ⟨error, hraised⟩ := h .index_error rfl
          cases hraised
        | some rest => exact ⟨fun _ _ _ => rfl, fun _ => orderly_ok _⟩
      · rw [if_neg hstart]
        exact ⟨fun _ _ h => absurd h hstart, fun _ => orderly_ok none⟩

/-- Nothing but a failure of the gateway escapes a source request, exactly when its file id
is known or names a path, and that path can be resolved below the source root. -/
theorem file_source_orderly_iff (env : Environment) (client : AnalysisClient) (db : AnalysisGraph)
    (file_id : String) (start_line end_line : Option Int) :
    Orderly (file_source client db env file_id start_line end_line) ↔
      ((client.file_map db).lookup file_id = none → text.startsWith file_id "file://" = true →
        (embedded_path file_id).isSome = true) ∧
      ∀ root path, source_root client.source_root = .ok root →
        StandsFor client db file_id path → Resolvable env.files root path := by
  rw [file_source, orderly_bind, orderly_resolve_path_sync]
  refine and_congr_right fun _ => ⟨fun h root path hroot hpath => ?_, fun h found hfound => ?_⟩
  · have hload := h (some path) (resolve_path_sync_some.mpr hpath)
    exact orderly_load_source.mp (orderly_map.mp hload) root hroot
  · cases found with
    | none => exact orderly_ok none
    | some path =>
      refine orderly_map.mpr (orderly_load_source.mpr fun root hroot => ?_)
      exact h root path hroot (resolve_path_sync_some.mp hfound)

end Failures

/-- One file under the source root. -/
def one_file : FileSystem where
  resolve := .ok
  resolve_strict := fun path =>
    if path = ["/", "corpus", "secret.sql"] then .ok path else .error .os_error
  st_size := fun _ => some 1
  read_bytes := fun _ => some [65]

def one_file_environment : Environment where
  files := one_file
  decode := fun _ => "A"
  casefold := id
  strip := id
  sha1 := id

/-- A client with a source root, over a graph without files. -/
def corpus_client : AnalysisClient where
  toNeo4jPlsqlAnalysisClient := .init "p" 200 5 20000
  source_root := some "/corpus"
  max_source_bytes := 262144
  impact_cache_ttl := 0
  impact_cache_max := 16
  max_source_bytes_pos := default_source_bytes_pos
  impact_cache_max_pos := default_cache_entries_pos

def no_records : AnalysisGraph where
  objects := []
  files := []
  relationships := []
  declarations := []

/-- An unknown `file://` id without a path ends in an exception of the language. -/
theorem unknown_file_raises :
    ¬ ∀ env client db file_id start_line end_line,
      Orderly (file_source client db env file_id start_line end_line) := by
  intro h
  have hraised : file_source corpus_client no_records one_file_environment "file://x" none none =
      .error .index_error := by decide +kernel
  obtain ⟨error, hgateway⟩ := h one_file_environment corpus_client no_records "file://x" none none
    .index_error hraised
  cases hgateway

/-- A file id that no record knows is served with the path it holds. -/
theorem unknown_file_served :
    ¬ ∀ env client db file_id start_line end_line,
      ServesMapped env client db file_id start_line end_line := by
  intro h
  have hserved : ∃ record ∈ (file_source corpus_client no_records one_file_environment
      "file://p/secret.sql" none none).toOption, ∃ found ∈ record, found.lines = ["A"] := by
    decide +kernel
  obtain ⟨record, hrecord, found, hfound, -⟩ := hserved
  rw [Option.mem_def.mp hfound] at hrecord
  have hmapped := h one_file_environment corpus_client no_records "file://p/secret.sql" none none
    found (results.mem_toOption.mp hrecord)
  cases hmapped

end lagraph.plsql
