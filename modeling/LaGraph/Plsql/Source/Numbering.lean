import LaGraph.Foundation.Guarantees
import LaGraph.Plsql.FileSource
import LaGraph.Plsql.Source.Lines
import LaGraph.Plsql.Synthetic

open foundation foundation.Stateful

namespace lagraph.plsql

/-- A source read of one of the adapters. -/
inductive SourceRead
  | object (client : AnalysisClient) (db : AnalysisGraph) (state : ClientState) (object_id : String)
  | file (client : AnalysisClient) (db : AnalysisGraph) (file_id : String)
      (start_line end_line : Option Int)
  | synthetic_object (client : SyntheticSourceClient) (object_id : String)
  | synthetic_file (client : SyntheticSourceClient) (file_id : String)
      (start_line end_line : Option Int)

namespace SourceRead

def answer (env : Environment) : SourceRead → Except Raised (Option PlsqlSourceRecord)
  | object client db state object_id =>
    ((plsql.object_source client db env object_id).run.run state).1
  | file client db file_id start_line end_line =>
    plsql.file_source client db env file_id start_line end_line
  | synthetic_object client object_id => client.object_source env object_id
  | synthetic_file client file_id start_line end_line =>
    client.file_source env file_id start_line end_line

/-- The configured root of the adapter's source files. -/
def source_root : SourceRead → Option String
  | object client _ _ _ | file client _ _ _ _ => client.source_root
  | synthetic_object client _ | synthetic_file client _ _ _ => client.source_root

/-- The line of the declaration or of the evidence that the read is for. -/
def evidence_line : SourceRead → Option Int
  | object client db state object_id =>
    match ((Reads.require_object client db object_id).run.run state).1 with
    | .error _ => none
    | .ok record => (OBJECT_DECLARATION db client.project_id record.qualified_name).head?.bind
        fun row => int_or_none row.startLine
  | synthetic_object client object_id =>
    (client.by_id object_id).bind fun record => record.evidence.bind (·.start_line)
  | file _ _ _ start_line _ | synthetic_file _ _ start_line _ => start_line

end SourceRead

/-- The bytes of the file that a record is read from. -/
def ReadFrom (files : FileSystem) (root : Option String) (path : String) (raw : List UInt8) :
    Prop :=
  ∃ parts resolved, source_root root = .ok parts ∧
    resolve_source_file files parts path = .ok resolved ∧ files.read_bytes resolved = some raw

/-- The highlight starts at the line of the evidence, and every line of the file stands under
its number. -/
def ShowsEvidence (record : PlsqlSourceRecord) (line : Option Int) (raw : List UInt8) : Prop :=
  record.highlight.map (·.start_line) = line ∧
    ∀ (n : Nat) l, (newline_lines [] (iso_8859_1 raw).toList)[n]? = some l →
      record.lines[n]? = some l

variable {env : Environment} {record : PlsqlSourceRecord} {raw : List UInt8}

/-- What a loaded record is made of. -/
theorem load_source_record {files : FileSystem} {decode : List UInt8 → String}
    {root : Option String} {max_source_bytes : Nat} {file_id path : String}
    {start_line end_line : Option Int}
    (h : load_source files decode root max_source_bytes file_id path start_line end_line =
      .ok record) (hraw : ReadFrom files root record.file.path raw) :
    record.lines = splitlines [] (decode raw).toList ∧
      record.highlight.map (·.start_line) = start_line := by
  have hpath : record.file.path = path := by
    obtain ⟨parts, -, h⟩ := results.bind_ok.mp h
    obtain ⟨resolved, -, h⟩ := results.bind_ok.mp h
    obtain ⟨lines, -, h⟩ := results.bind_ok.mp h
    cases h
    rfl
  obtain ⟨parts, resolved, hparts, hresolved, hbytes⟩ := hraw
  rw [hpath] at hresolved
  simp only [load_source, hparts, results.bind_ok, Except.ok.injEq, exists_eq_left',
    hresolved] at h
  obtain ⟨lines, hlines, rfl⟩ := h
  constructor
  · rw [read_source_lines, hbytes] at hlines
    cases hsize : files.st_size resolved with
    | none => simp [hsize] at hlines
    | some size =>
      simp only [hsize] at hlines
      split_ifs at hlines
      cases hlines
      rfl
  · cases start_line with
    | none => rfl
    | some start => rfl

theorem map_some_ok {x : Except Raised PlsqlSourceRecord} (h : some <$> x = .ok (some record)) :
    x = .ok record := by
  cases x with
  | error e => cases h
  | ok found =>
    cases h
    rfl

theorem run_map_lift {σ : Type} (x : Except Raised PlsqlSourceRecord) (s : σ) :
    (some <$> (liftM x : ExceptT Raised (StateM σ) PlsqlSourceRecord)).run.run s =
      (some <$> x, s) := by
  cases x with
  | error e => rfl
  | ok record => rfl

/-- Every read loads its record for the line of its evidence. -/
theorem SourceRead.loads (read : SourceRead) (h : read.answer env = .ok (some record)) :
    ∃ max_source_bytes file_id path end_line,
      load_source env.files env.decode read.source_root max_source_bytes file_id path
        read.evidence_line end_line = .ok record := by
  cases read with
  | object client db state object_id =>
    rw [answer, plsql.object_source, run_bind] at h
    rw [evidence_line]
    cases hrequire : (Reads.require_object client db object_id).run.run state with
    | mk found state' =>
      rw [hrequire] at h
      cases found with
      | error e => cases h
      | ok found =>
        simp only at h
        cases hrows : OBJECT_DECLARATION db client.project_id found.qualified_name with
        | nil =>
          rw [hrows] at h
          cases h
        | cons row rows =>
          simp only [hrows] at h
          cases hpath : row.path with
          | none =>
            rw [hpath] at h
            cases h
          | some path =>
            simp only [hpath] at h
            by_cases hempty : path = ""
            · rw [if_pos hempty] at h
              cases h
            · rw [if_neg hempty, run_map_lift] at h
              simp only [hrows, List.head?_cons, Option.bind_some]
              exact ⟨_, _, path, _, map_some_ok h⟩
  | file client db file_id start_line end_line =>
    obtain ⟨path, -, hload⟩ := file_source_some.mp h
    exact ⟨_, _, path, _, hload⟩
  | synthetic_object client object_id =>
    rw [answer, SyntheticSourceClient.object_source] at h
    rw [evidence_line]
    cases hfound : client.by_id object_id with
    | none =>
      rw [hfound] at h
      cases h
    | some found =>
      simp only [hfound] at h
      cases hevidence : found.evidence with
      | none =>
        rw [hevidence] at h
        cases h
      | some evidence =>
        simp only [hevidence] at h
        simp only [Option.bind_some, hevidence]
        exact ⟨_, _, _, _, map_some_ok h⟩
  | synthetic_file client file_id start_line end_line =>
    rw [answer, SyntheticSourceClient.file_source] at h
    cases hpath : client.file_by_id file_id with
    | none =>
      rw [hpath] at h
      cases h
    | some path =>
      simp only [hpath] at h
      exact ⟨_, _, path, _, map_some_ok h⟩

/-- In the default encoding a source read shows the lines of its file under their numbers
exactly when the file holds no other line boundary than newlines. -/
theorem shows_evidence_iff (read : SourceRead)
    (hread : read.answer { env with decode := iso_8859_1 } = .ok (some record))
    (hraw : ReadFrom env.files read.source_root record.file.path raw) :
    ShowsEvidence record read.evidence_line raw ↔ ∀ b ∈ raw, b ∉ OTHER_BOUNDARY_BYTES := by
  obtain ⟨max_source_bytes, file_id, path, end_line, hload⟩ := read.loads hread
  obtain ⟨hlines, hhighlight⟩ := load_source_record hload hraw
  rw [ShowsEvidence, hlines, splitlines_numbered_iff, iso_8859_1_boundaries]
  exact and_iff_right hhighlight

section FormFeed

/-- A package file whose header is followed by a form feed. -/
def paged_source : List UInt8 :=
  [0x61, 0x0c, 0x62, 0x0a, 0x63]

def paged_environment : Environment :=
  { one_file_environment with
    files := { one_file with read_bytes := fun _ => some paged_source }, decode := iso_8859_1 }

/-- The request for the second line of the file. -/
def paged_read : SourceRead :=
  .file corpus_client no_records "file://p/secret.sql" (some 2) (some 2)

def paged_record : PlsqlSourceRecord where
  file := { file_id := "file://p/secret.sql", path := "secret.sql" }
  lines := ["a", "b", "c"]
  highlight := some { start_line := 2, end_line := 2 }

theorem paged_read_answer : paged_read.answer paged_environment = .ok (some paged_record) := by
  decide +kernel

theorem paged_read_from :
    ReadFrom paged_environment.files paged_read.source_root paged_record.file.path paged_source := by
  refine ⟨["/", "corpus"], ["/", "corpus", "secret.sql"], ?_, ?_, rfl⟩
  · decide +kernel
  · decide +kernel

theorem shows_evidence_iff_paged : ¬ShowsEvidence paged_record (some 2) paged_source := by
  intro h
  have hiff := @shows_evidence_iff paged_environment paged_record paged_source paged_read
    paged_read_answer paged_read_from
  exact hiff.mp h 0x0c (by decide) (by decide)

/-- The line after a form feed takes the number of the line after it. -/
theorem form_feed_shifts :
    ¬∀ (env : Environment) (record : PlsqlSourceRecord) (raw : List UInt8) (read : SourceRead),
      read.answer { env with decode := iso_8859_1 } = .ok (some record) →
        ReadFrom env.files read.source_root record.file.path raw →
          ShowsEvidence record read.evidence_line raw := by
  intro h
  have hshown := (h paged_environment paged_record paged_source paged_read paged_read_answer
    paged_read_from).2 1 "c" (by decide +kernel)
  exact absurd hshown (by decide)

end FormFeed

end lagraph.plsql
