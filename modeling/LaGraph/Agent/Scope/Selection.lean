import LaGraph.Agent.Evidence.Closed
import LaGraph.Retrieval.Haystack.Scope
import LaGraph.Agent.Answers

open foundation

namespace lagraph.agent

section

variable (rules : TextRules)

/-- `str` of a property; a float is kept as its text. -/
def PropertyValue.text : PropertyValue → String
  | .str s => s
  | .int i => toString i
  | .float text => text
  | .bool b => if b then "True" else "False"
  | .null => "None"

/-- The sources that evidence and its citations name, nodes first. -/
def evidence_sources (merged : MergedEvidence) : List String :=
  (merged.evidence.nodes.filterMap (·.source) ++ merged.citations.map (·.source)).filter (· ≠ "")

/-- The base names that a scope admits: those of Markdown files. -/
def is_scope_document (candidate : String) : Bool :=
  (rules.lower candidate).endsWith ".md" && (candidate ∉ [".", ".."])

def scope_documents (merged : MergedEvidence) : List String :=
  (((evidence_sources merged).map path_name).filter (is_scope_document rules)).eraseDups

def scope_articles (merged : MergedEvidence) (question : String) : List String :=
  let values := merged.evidence.nodes.flatMap fun node =>
    node.label :: node.properties.map (·.2.text)
  let articles := ((values.flatMap rules.article_numbers).map rules.upper).eraseDups
  let requested := (rules.article_numbers question).map rules.upper
  if requested = [] then articles else requested.filter (· ∈ articles)

/-- `_source_scope`; `none` is a failed label lookup. -/
def source_scope (result : GraphResult) (question : String) : Option retrieval.RetrievalScope := do
  let merged ← merge_evidence [result] .default
  pure
    { documents := scope_documents rules merged
      articles := scope_articles rules merged question }

end

/-- The index has passages of the document in the version. -/
def Indexed (index : retrieval.SourceIndex) (graph_version document : String) : Prop :=
  ∃ row ∈ index.source_passages, row.graph_version = graph_version ∧ row.document = document

def is_absolute (path : String) : Bool :=
  text.startsWith path "/"

/-- A source names the path of a document, relative or below the root of the corpus. -/
def Refers (root : List String) (source document : String) : Prop :=
  path_components document ≠ [] ∧
    (is_absolute source = is_absolute document ∧
        path_components source = path_components document ∨
      is_absolute source = true ∧ is_absolute document = false ∧
        path_components source = root ++ path_components document)

/-- The scope admits exactly the indexed documents that the evidence refers to. -/
def SelectsReferences (root : List String) (index : retrieval.SourceIndex)
    (graph_version : String) (merged : MergedEvidence) (scope : retrieval.RetrievalScope) : Prop :=
  ∀ document, Indexed index graph_version document →
    (document ∈ scope.documents ↔ ∃ source ∈ evidence_sources merged, Refers root source document)

/-- The documents that the evidence refers to are Markdown files without a folder, and
no other indexed file bears the name that a source ends in. -/
structure RootReferences (rules : TextRules) (root : List String)
    (index : retrieval.SourceIndex) (graph_version : String) (merged : MergedEvidence) : Prop where
  referred : ∀ document, Indexed index graph_version document →
    (∃ source ∈ evidence_sources merged, Refers root source document) →
    path_name document = document ∧ is_scope_document rules document = true
  named : ∀ document, Indexed index graph_version document →
    is_scope_document rules document = true →
    (∃ source ∈ evidence_sources merged, path_name source = document) →
    ∃ source ∈ evidence_sources merged, Refers root source document

variable {rules : TextRules} {root : List String}

theorem path_name_of_refers {source document : String} (h : Refers root source document) :
    path_name source = path_name document := by
  obtain ⟨hnamed, ⟨-, hsame⟩ | ⟨-, -, hbelow⟩⟩ := h
  · rw [path_name, path_name, hsame]
  · rw [path_name, path_name, hbelow, List.getLastD_eq_getLast?, List.getLastD_eq_getLast?,
      List.getLast?_append_of_ne_nil _ hnamed]

/-- A component of a path is its own name. -/
theorem path_name_of_component {path part : String} (h : part ∈ path_components path) :
    path_name part = part := by
  obtain ⟨hsegment, hkept⟩ := List.mem_filter.mp h
  rw [path_name, path_components, text.segments_of_mem hsegment]
  simp only [List.filter_cons, hkept, if_true, List.filter_nil]
  rfl

/-- The name of a path is a path without a folder. -/
theorem path_name_idem (path : String) : path_name (path_name path) = path_name path := by
  cases hlast : (path_components path).getLast? with
  | none =>
    have hname : path_name path = "" := by rw [path_name, List.getLastD_eq_getLast?, hlast]; rfl
    rw [hname]
    decide +kernel
  | some part =>
    have hname : path_name path = part := by rw [path_name, List.getLastD_eq_getLast?, hlast]; rfl
    rw [hname]
    exact path_name_of_component (List.mem_of_getLast? hlast)

theorem mem_scope_documents {merged : MergedEvidence} {document : String} :
    document ∈ scope_documents rules merged ↔
      (∃ source ∈ evidence_sources merged, path_name source = document) ∧
        is_scope_document rules document = true := by
  rw [scope_documents, List.mem_eraseDups, List.mem_filter, List.mem_map]

/-- The scope of a search result selects what its evidence refers to exactly when the
documents lie in the root folder as Markdown and share no name with another source. -/
theorem source_scope_selects_iff (rules : TextRules) (root : List String)
    (index : retrieval.SourceIndex) (graph_version : String) (result : GraphResult)
    (question : String) :
    ∃ merged scope, merge_evidence [result] .default = some merged ∧
      source_scope rules result question = some scope ∧
      (SelectsReferences root index graph_version merged scope ↔
        RootReferences rules root index graph_version merged) := by
  obtain ⟨_, merged, -, hmerged, -⟩ := merge_evidence_some [result] .default
  refine ⟨merged, ⟨scope_documents rules merged, scope_articles rules merged question⟩, hmerged,
    ?_, ?_⟩
  · rw [source_scope, hmerged]
    rfl
  · constructor
    · intro h
      constructor
      case referred =>
        intro document hindexed hrefers
        obtain ⟨⟨source, -, hname⟩, hdocument⟩ :=
          mem_scope_documents.mp ((h document hindexed).mpr hrefers)
        exact ⟨hname ▸ path_name_idem source, hdocument⟩
      case named =>
        intro document hindexed hdocument hname
        exact (h document hindexed).mp (mem_scope_documents.mpr ⟨hname, hdocument⟩)
    · intro h document hindexed
      constructor
      · intro hscope
        obtain ⟨hname, hdocument⟩ := mem_scope_documents.mp hscope
        exact h.named document hindexed hdocument hname
      · intro hrefers
        obtain ⟨hroot, hdocument⟩ := h.referred document hindexed hrefers
        obtain ⟨source, hsource, hrefers⟩ := hrefers
        have hname : path_name source = document := (path_name_of_refers hrefers).trans hroot
        exact mem_scope_documents.mpr ⟨⟨source, hsource, hname⟩, hdocument⟩

def nested_document : retrieval.IndexableDocument where
  relative_path := "decrees/law.md"
  content := "Pensions are paid monthly."
  sha256 := "c"
  media_type := "text/markdown"

def nested_index : Except retrieval.Failure retrieval.SourceIndex :=
  retrieval.rebuild_version retrieval.unbroken_patterns retrieval.character_encoding .empty "v1"
    [nested_document] ⟨("short", retrieval.short_profile), []⟩ ""

/-- A node whose source is the path of the document. -/
def nested_result : GraphResult where
  direct := ⟨some [{ plain_node "a" "Pension law" with source := some "decrees/law.md" }], some [],
    some []⟩
  nested := none
  citations := []
  graph_version := none
  warnings := []

/-- The document in the subfolder is referred to and not selected. -/
theorem nested_document_not_selected :
    ¬ ∀ rules root index graph_version result question merged scope, retrieval.Built index →
      merge_evidence [result] .default = some merged →
      source_scope rules result question = some scope →
      SelectsReferences root index graph_version merged scope := by
  intro h
  have hrun : ∃ index ∈ nested_index.toOption, ∃ row ∈ index.source_passages,
      row.graph_version = "v1" ∧ row.document = "decrees/law.md" := by decide +kernel
  obtain ⟨index, hindex, row, hrow, hversion, hdocument⟩ := hrun
  have hscope : ∃ merged ∈ merge_evidence [nested_result] .default,
      ∃ scope ∈ source_scope plain_rules nested_result "", "decrees/law.md" ∉ scope.documents ∧
        "decrees/law.md" ∈ evidence_sources merged := by decide +kernel
  obtain ⟨merged, hmerged, scope, hscope, hmissing, hsource⟩ := hscope
  have hbuilt : retrieval.Built index :=
    .rebuild _ _ _ _ _ _ .empty (results.mem_toOption.mp hindex)
  have hselects := h plain_rules [] index "v1" nested_result "" merged scope hbuilt hmerged hscope
  refine hmissing ((hselects "decrees/law.md" ⟨row, hrow, hversion, hdocument⟩).mpr
    ⟨"decrees/law.md", hsource, ?_, Or.inl ⟨rfl, rfl⟩⟩)
  decide +kernel

end lagraph.agent
