import LaGraph.Foundation.Results
import LaGraph.Knowledge.Sources
import LaGraph.Projects.Storage

open foundation
open lagraph.sources

namespace lagraph.registry

variable {storage : ProjectStorage} {profile_of : String → String}
  {files : List (String × Bytes)}

/-- Files that the upload path accepts into one snapshot: each of a valid name, size and
content, no two of the same name, all of them within the limits. -/
structure Accepted (storage : ProjectStorage) (files : List (String × Bytes)) : Prop where
  names : (files.map (·.1)).Nodup
  valid : ∀ file ∈ files, validate_filename storage file.1 = .ok ()
  sizes : ∀ file ∈ files, 0 < file.2.length ∧ file.2.length ≤ storage.max_file_bytes
  converted : ∀ file ∈ files, ∃ document,
    convert_document storage.formats file.1 file.2 storage.max_extracted_bytes = .ok document
  count : files.length ≤ storage.max_files
  total : (files.map (·.2.length)).sum ≤ storage.max_total_bytes

/-- The document source of a build, with the limits of the uploads. -/
def build_source (storage : ProjectStorage) (profile_of : String → String) :
    FilesystemDocumentSource where
  max_documents := storage.max_files
  max_document_bytes := storage.max_file_bytes
  max_total_bytes := storage.max_total_bytes
  max_extracted_document_bytes := storage.max_extracted_bytes
  rules := storage.formats
  profile_of := profile_of
  sha256 := storage.sha256

/-- The files of a snapshot as the build lays them out. -/
def materialised (files : List (String × Bytes)) : List SourceFile :=
  files.map fun file => ⟨[file.1], file.2⟩

/-- Discovery raises nothing and finds one document for each file. -/
def Discovers (storage : ProjectStorage) (profile_of : String → String)
    (files : List (String × Bytes)) : Prop :=
  ∃ snapshot, discover (build_source storage profile_of) (materialised files) = .ok snapshot ∧
    (snapshot.documents.map (·.relative_path)).Perm (files.map (·.1))

/-- A name of letters, digits, dots, underscores and hyphens that does not start with a
dot. -/
def is_plain_name (name : String) : Bool :=
  name.toList.all is_safe_character && !text.startsWith name "."

theorem valid_name {storage : ProjectStorage} {name : String} (h : validate_filename storage name = .ok ()) :
    name ≠ "" ∧ name ∉ [".", ".."] ∧ '/' ∉ name.toList ∧
      (media_type storage.formats name).isSome = true := by
  rw [validate_filename] at h
  split at h
  · cases h
  · rename_i hvalid
    split at h
    · cases h
    · rename_i hformat
      rw [not_or, not_or, not_or, not_or] at hvalid
      obtain ⟨hne, hdots, -, hslash, -⟩ := hvalid
      exact ⟨hne, hdots, hslash, Option.isNone_eq_false_iff.mp (Bool.not_eq_true _ ▸ hformat)⟩

theorem relative_path_materialised (name : String) (raw : Bytes) :
    relative_path ⟨[name], raw⟩ = name := by
  rw [relative_path, String.intercalate_singleton]

/-- What discovery adds for a file. -/
theorem discover_file_ok {source : FilesystemDocumentSource} {file : SourceFile}
    {found after : List KnowledgeDocument × Nat} (h : discover_file source found file = .ok after) :
    is_safe_relative_path (relative_path file) = true ∧
      ∃ document, document.relative_path = relative_path file ∧
        after.1 = found.1 ++ [document] := by
  simp only [discover_file] at h
  obtain ⟨raw, -, h⟩ := results.bind_ok.mp h
  by_cases htotal : source.max_total_bytes < found.2 + raw.length
  · rw [if_pos htotal] at h
    cases h
  · rw [if_neg htotal] at h
    cases hconverted : convert_document source.rules (relative_path file) raw
        source.max_extracted_document_bytes with
    | error message =>
      rw [hconverted] at h
      cases h
    | ok converted =>
      rw [hconverted] at h
      obtain ⟨document, hdocument, h⟩ := results.bind_ok.mp h
      cases h
      simp only [knowledge_document] at hdocument
      by_cases hsafe : is_safe_relative_path (relative_path file) = false
      · rw [if_pos hsafe] at hdocument
        cases hdocument
      · rw [if_neg hsafe] at hdocument
        by_cases hbytes : raw.length = 0
        · rw [if_pos hbytes] at hdocument
          cases hdocument
        · rw [if_neg hbytes] at hdocument
          cases hdocument
          exact ⟨eq_true_of_ne_false hsafe, _, rfl, rfl⟩

theorem discover_files_ok {source : FilesystemDocumentSource} {ordered : List SourceFile}
    {found after : List KnowledgeDocument × Nat}
    (h : ordered.foldlM (discover_file source) found = .ok after) :
    (∀ file ∈ ordered, is_safe_relative_path (relative_path file) = true) ∧
      after.1.map (·.relative_path) =
        found.1.map (·.relative_path) ++ ordered.map relative_path := by
  induction ordered generalizing found with
  | nil =>
    cases h
    exact ⟨fun file hfile => absurd hfile List.not_mem_nil, (List.append_nil _).symm⟩
  | cons file ordered ih =>
    rw [List.foldlM_cons] at h
    obtain ⟨next, hnext, h⟩ := results.bind_ok.mp h
    obtain ⟨hsafe, document, hpath, hadded⟩ := discover_file_ok hnext
    obtain ⟨hrest, hpaths⟩ := ih h
    refine ⟨fun other hother => ?_, ?_⟩
    · cases List.mem_cons.mp hother with
      | inl hsame => exact hsame ▸ hsafe
      | inr hother => exact hrest other hother
    · rw [hpaths, hadded, List.map_append, List.map_singleton, hpath, List.append_assoc]
      rfl

/-- A file that discovery accepts. -/
structure Acceptable (source : FilesystemDocumentSource) (file : SourceFile) : Prop where
  nonempty : file.raw ≠ []
  size : file.raw.length ≤ source.max_document_bytes
  converted : ∃ document, convert_document source.rules (relative_path file) file.raw
    source.max_extracted_document_bytes = .ok document
  safe : is_safe_relative_path (relative_path file) = true

/-- Acceptable files within the total are all discovered. -/
theorem discover_files_of_acceptable {source : FilesystemDocumentSource}
    {ordered : List SourceFile} {found : List KnowledgeDocument × Nat}
    (h : ∀ file ∈ ordered, Acceptable source file)
    (htotal : found.2 + (ordered.map (·.raw.length)).sum ≤ source.max_total_bytes) :
    ∃ after, ordered.foldlM (discover_file source) found = .ok after := by
  induction ordered generalizing found with
  | nil => exact ⟨found, rfl⟩
  | cons file ordered ih =>
    obtain ⟨hnonempty, hsize, ⟨converted, hconverted⟩, hsafe⟩ := h file List.mem_cons_self
    rw [List.map_cons, List.sum_cons] at htotal
    have hbytes : ¬ file.raw.length = 0 := mt List.length_eq_zero_iff.mp hnonempty
    have hbelow : ¬ source.max_total_bytes < found.2 + file.raw.length := by omega
    have hfile : discover_file source found file =
        .ok (found.1 ++ [⟨relative_path file, converted.text, file.raw, source.sha256 file.raw,
          file.raw.length, converted.media_type, source.profile_of (relative_path file),
          converted.adapter⟩], found.2 + file.raw.length) := by
      simp only [discover_file, read_regular_file, if_neg hnonempty,
        if_neg (Nat.not_lt.mpr hsize), Bind.bind, Except.bind, if_neg hbelow, hconverted,
        knowledge_document, hsafe, Bool.true_eq_false, if_false, if_neg hbytes]
      rfl
    obtain ⟨after, hafter⟩ := @ih (found.1 ++ [⟨relative_path file, converted.text, file.raw,
      source.sha256 file.raw, file.raw.length, converted.media_type,
      source.profile_of (relative_path file), converted.adapter⟩], found.2 + file.raw.length)
      (fun other hother => h other (List.mem_cons_of_mem _ hother)) (by
        change found.2 + file.raw.length + _ ≤ _
        omega)
    exact ⟨after, by rw [List.foldlM_cons, hfile]; exact hafter⟩

theorem mem_walk {source : FilesystemDocumentSource} {file : SourceFile}
    {files : List (String × Bytes)} :
    file ∈ walk source (materialised files) ↔ ∃ item ∈ files, file = ⟨[item.1], item.2⟩ ∧
      ignored source.rules item.1 = false ∧ (media_type source.rules item.1).isSome = true := by
  rw [walk, List.mem_filter, materialised, List.mem_map]
  constructor
  · intro h
    obtain ⟨⟨item, hitem, rfl⟩, hkept⟩ := h
    simp only [List.all_cons, List.all_nil, Bool.and_true, Bool.and_eq_true,
      Bool.not_eq_true'] at hkept
    exact ⟨item, hitem, rfl, hkept⟩
  · intro h
    obtain ⟨item, hitem, rfl, hignored, hformat⟩ := h
    refine ⟨⟨item, hitem, rfl⟩, ?_⟩
    simp only [List.all_cons, List.all_nil, Bool.and_true, Bool.and_eq_true, Bool.not_eq_true']
    exact ⟨hignored, hformat⟩

/-- A file that is discovered has a plain name. -/
theorem plain_of_discovers (h : Discovers storage profile_of files) :
    ∀ file ∈ files, is_plain_name file.1 = true := by
  obtain ⟨snapshot, hdiscover, hperm⟩ := h
  simp only [discover] at hdiscover
  by_cases hcount : (build_source storage profile_of).max_documents <
      (walk (build_source storage profile_of) (materialised files)).length
  · rw [if_pos hcount] at hdiscover
    cases hdiscover
  · rw [if_neg hcount] at hdiscover
    obtain ⟨⟨documents, total⟩, hfold, hdiscover⟩ := results.bind_ok.mp hdiscover
    cases hdiscover
    obtain ⟨hsafe, hpaths⟩ := discover_files_ok hfold
    intro file hfile
    have hname : file.1 ∈ documents.map (·.relative_path) :=
      hperm.mem_iff.mpr (List.mem_map_of_mem hfile)
    rw [hpaths, List.map_nil, List.nil_append] at hname
    obtain ⟨found, hfound, hsame⟩ := List.mem_map.mp hname
    have hsafe := hsafe found hfound
    obtain ⟨item, -, rfl, hignored, -⟩ := mem_walk.mp (sorted.mem_sortBy.mp hfound)
    rw [relative_path_materialised] at hsafe hsame
    rw [hsame] at hsafe hignored
    simp only [ignored, Bool.or_eq_false_iff] at hignored
    simp only [is_safe_relative_path, Bool.and_eq_true] at hsafe
    rw [is_plain_name, hsafe.1.1.2, hignored.1.1.1]
    rfl

/-- A plain name that the upload accepts is a safe path and is not ignored. -/
theorem safe_of_plain {name : String} (hvalid : validate_filename storage name = .ok ())
    (hplain : is_plain_name name = true) :
    is_safe_relative_path name = true ∧ ignored storage.formats name = false ∧
      (media_type storage.formats name).isSome = true := by
  obtain ⟨hne, hdots, hslash, hformat⟩ := valid_name hvalid
  rw [is_plain_name, Bool.and_eq_true, Bool.not_eq_true'] at hplain
  obtain ⟨hsafe, hdot⟩ := hplain
  refine ⟨?_, not_ignored (List.all_eq_true.mp hsafe) hdot hformat, hformat⟩
  have hnonempty : name.toList.isEmpty = false := by
    rw [List.isEmpty_eq_false_iff, ne_eq, String.toList_eq_nil_iff]
    exact hne
  have hstart : text.startsWith name "/" = false := by
    rw [Bool.eq_false_iff]
    intro hstart
    obtain ⟨rest, hrest⟩ := List.isPrefixOf_iff_prefix.mp hstart
    exact hslash (hrest ▸ List.mem_cons_self)
  have hparent : ".." ∉ text.segments '/' name := by
    rw [text.segments, List.splitOn_eq_singleton hslash, List.map_singleton, String.ofList_toList,
      List.mem_singleton]
    intro hsame
    rw [← hsame] at hdots
    exact hdots (by decide)
  rw [is_safe_relative_path, hnonempty, hsafe, hstart, decide_eq_true hparent]
  rfl

theorem walk_of_plain (hvalid : ∀ file ∈ files, validate_filename storage file.1 = .ok ())
    (hplain : ∀ file ∈ files, is_plain_name file.1 = true) :
    walk (build_source storage profile_of) (materialised files) = materialised files := by
  rw [walk, List.filter_eq_self]
  intro file hfile
  obtain ⟨item, hitem, hsame⟩ := List.mem_map.mp hfile
  obtain ⟨-, hignored, hformat⟩ := safe_of_plain (hvalid item hitem) (hplain item hitem)
  have hmem := (@mem_walk (build_source storage profile_of) file files).mpr
    ⟨item, hitem, hsame.symm, hignored, hformat⟩
  exact (List.mem_filter.mp hmem).2

theorem acceptable_of_plain (h : Accepted storage files)
    (hplain : ∀ file ∈ files, is_plain_name file.1 = true) :
    ∀ file ∈ materialised files, Acceptable (build_source storage profile_of) file := by
  intro file hfile
  obtain ⟨item, hitem, rfl⟩ := List.mem_map.mp hfile
  obtain ⟨hsafe, -, -⟩ := safe_of_plain (h.valid item hitem) (hplain item hitem)
  obtain ⟨hpositive, hsize⟩ := h.sizes item hitem
  have hpath := relative_path_materialised item.1 item.2
  constructor
  · exact List.ne_nil_of_length_pos hpositive
  · exact hsize
  · rw [hpath]
    exact h.converted item hitem
  · rw [hpath]
    exact hsafe

/-- Discovery finds every accepted file, and nothing else, exactly when all names are
plain. -/
theorem discovers_iff (h : Accepted storage files) :
    Discovers storage profile_of files ↔ ∀ file ∈ files, is_plain_name file.1 = true := by
  constructor
  · exact plain_of_discovers
  · intro hplain
    have hall := @walk_of_plain _ profile_of _ h.valid hplain
    have hacceptable := @acceptable_of_plain _ profile_of _ h hplain
    have hperm := sorted.sortBy_perm
      (fun a b => decide (¬ relative_path b < relative_path a)) (materialised files)
    have htotal : ((sorted.sortBy (fun a b => decide (¬ relative_path b < relative_path a))
        (materialised files)).map (·.raw.length)).sum ≤ storage.max_total_bytes := by
      rw [(hperm.map (·.raw.length)).sum_nat, materialised, List.map_map]
      exact h.total
    rw [← Nat.zero_add (List.sum _)] at htotal
    obtain ⟨⟨documents, total⟩, hfold⟩ := @discover_files_of_acceptable
      (build_source storage profile_of) _ ([], 0)
      (fun file hfile => hacceptable file (hperm.mem_iff.mp hfile)) htotal
    have hcount : ¬ (build_source storage profile_of).max_documents <
        (materialised files).length := by
      rw [materialised, List.length_map]
      exact Nat.not_lt.mpr h.count
    refine ⟨⟨source_version (build_source storage profile_of) documents, documents, total⟩, ?_, ?_⟩
    · simp only [discover]
      rw [hall, if_neg hcount, hfold]
      rfl
    · have hpaths := (discover_files_ok hfold).2
      rw [List.map_nil, List.nil_append] at hpaths
      rw [hpaths]
      refine (hperm.map relative_path).trans (List.Perm.of_eq ?_)
      rw [materialised, List.map_map]
      exact List.map_congr_left fun item _ => relative_path_materialised item.1 item.2

/-- ASCII rules, and no format but plain text. -/
def text_formats : FormatRules where
  lower := (·.map Char.toLower)
  is_space := Char.isWhitespace
  html_signature := fun _ => false
  extract_html := fun _ _ => .error "HTML conversion failed"
  extract_pdf := fun _ => .error "PDF conversion failed"
  extract_docx := fun _ _ => .error "DOCX conversion failed"
  lower_ascii := fun _ _ => rfl

def text_storage : ProjectStorage where
  root := "/data"
  max_file_bytes := 100
  max_extracted_bytes := 100
  max_files := 2
  max_total_bytes := 150
  formats := text_formats
  names := ⟨id, fun c => c.toNat < 32⟩
  sha256 := fun raw => toString raw.length

/-- One file of two characters. -/
def single_file (name : String) : List (String × Bytes) :=
  [(name, [0x6f, 0x6b])]

theorem single_file_accepted {name : String}
    (hvalid : validate_filename text_storage name = .ok ())
    (hconverted : (convert_document text_formats name [0x6f, 0x6b] 100).toOption.isSome = true) :
    Accepted text_storage (single_file name) := by
  constructor
  case names => exact List.nodup_singleton name
  case valid =>
    intro file hfile
    rw [List.mem_singleton.mp hfile]
    exact hvalid
  case converted =>
    intro file hfile
    rw [List.mem_singleton.mp hfile]
    obtain ⟨document, hdocument⟩ := Option.isSome_iff_exists.mp hconverted
    exact ⟨document, results.mem_toOption.mp hdocument⟩
  case sizes =>
    intro file hfile
    rw [List.mem_singleton.mp hfile]
    have htwo : 0 < 2 ∧ 2 ≤ 100 := by omega
    exact htwo
  case count => exact Nat.le_succ 1
  case total =>
    change 2 + 0 ≤ 150
    omega

/-- A space in the name of a file makes its project unbuildable. -/
theorem spaced_name_not_discovered :
    ¬ ∀ storage profile_of files, Accepted storage files →
      Discovers storage profile_of files := by
  intro h
  have haccepted : Accepted text_storage (single_file "the law.md") := by
    apply single_file_accepted <;> decide +kernel
  have hplain := plain_of_discovers (h _ (fun _ => "generic") _ haccepted)
  revert hplain
  decide +kernel

theorem discovers_iff_single : Discovers text_storage (fun _ => "generic") (single_file "law.md") := by
  have haccepted : Accepted text_storage (single_file "law.md") := by
    apply single_file_accepted <;> decide +kernel
  apply (discovers_iff haccepted).mpr
  decide +kernel

end lagraph.registry
