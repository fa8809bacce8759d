import LaGraph.Foundation.Results
import LaGraph.Retrieval.Index

open foundation

namespace lagraph.retrieval

variable {patterns : Patterns} {encoding : Encoding}

/-- Every chunk under a parent has it among the chunks, in the same article. -/
def HasParents (chunks : List Chunk) : Prop :=
  ∀ c ∈ chunks, ∀ id ∈ c.parent_id, ∃ parent ∈ chunks, parent.id = id ∧ parent.article = c.article

theorem HasParents.flatten {lists : List (List Chunk)} (h : ∀ chunks ∈ lists, HasParents chunks) :
    HasParents lists.flatten := by
  intro c hc id hid
  obtain ⟨chunks, hchunks, hc⟩ := List.mem_flatten.mp hc
  obtain ⟨parent, hparent, hsame⟩ := h chunks hchunks c hc id hid
  exact ⟨parent, List.mem_flatten.mpr ⟨chunks, hchunks, hparent⟩, hsame⟩

theorem HasParents.of_mapM {α : Type} {f : α → Except String (List Chunk)} {items : List α}
    {lists : List (List Chunk)} (hmap : items.mapM f = .ok lists)
    (h : ∀ item ∈ items, ∀ chunks, f item = .ok chunks → HasParents chunks) :
    HasParents lists.flatten := by
  apply HasParents.flatten
  intro chunks hchunks
  obtain ⟨item, hitem, hf⟩ := results.mem_of_mapM hmap chunks hchunks
  exact h item hitem chunks hf

/-- The leaves of a range come with their parent, and from one block. -/
theorem family_has_parents {value : List Char} {document checksum : String}
    {profile : DocumentProfile} {block : StructuralBlock} {range : Nat × Nat} {chunks : List Chunk}
    (h : family patterns encoding value document checksum profile block range = .ok chunks) :
    HasParents chunks := by
  obtain ⟨leaf_ranges, -, h⟩ := results.bind_ok.mp h
  cases h
  intro c hc id hid
  refine ⟨_, List.mem_cons_self, ?_⟩
  cases List.mem_cons.mp hc with
  | inl hparent =>
    rw [hparent] at hid
    cases hid
  | inr hleaf =>
    obtain ⟨leaf, -, rfl⟩ := List.mem_map.mp hleaf
    exact ⟨Option.some.inj hid, rfl⟩

theorem block_chunks_has_parents {value : List Char} {document checksum : String}
    {profile : DocumentProfile} {block : StructuralBlock} {chunks : List Chunk}
    (h : block_chunks patterns encoding value document checksum profile block = .ok chunks) :
    HasParents chunks := by
  simp only [block_chunks] at h
  by_cases hblank : is_blank patterns (slice value block.start block.stop) = true
  · rw [if_pos hblank] at h
    cases h
    intro c hc
    cases hc
  · rw [if_neg hblank] at h
    by_cases hshort : (encoding.encode (slice value block.start block.stop)).length ≤
        profile.leaf_tokens
    · rw [if_pos hshort] at h
      cases h
      intro c hc id hid
      rw [List.mem_singleton.mp hc] at hid
      cases hid
    · rw [if_neg hshort] at h
      obtain ⟨ranges, -, h⟩ := results.bind_ok.mp h
      obtain ⟨families, hfamilies, h⟩ := results.bind_ok.mp h
      cases h
      exact .of_mapM hfamilies fun _ _ _ => family_has_parents

theorem build_chunks_has_parents {content document checksum : String} {profile : DocumentProfile}
    {chunks : List Chunk}
    (h : build_chunks patterns encoding content document checksum profile = .ok chunks) :
    HasParents chunks := by
  obtain ⟨lists, hlists, h⟩ := results.bind_ok.mp h
  cases h
  exact .of_mapM hlists fun _ _ _ => block_chunks_has_parents

/-- Every row under a parent has it among the rows, in the same version, document and
article. -/
def Families (rows : List SourcePassage) : Prop :=
  ∀ leaf ∈ rows, ∀ id ∈ leaf.parent_id, ∃ parent ∈ rows, parent.id = id ∧
    parent.graph_version = leaf.graph_version ∧ parent.document = leaf.document ∧
    parent.article = leaf.article

theorem document_passages_ok {profiles : DocumentProfiles} {graph_version fingerprint : String}
    {document : IndexableDocument} {passages : List SourcePassage}
    (h : document_passages patterns encoding profiles graph_version fingerprint document =
      .ok passages) :
    Families passages ∧ ∀ item ∈ passages,
      item.graph_version = graph_version ∧ item.document = document.relative_path := by
  rw [document_passages] at h
  split at h
  case h_1 => cases h
  case h_2 chunks hchunks =>
    cases h
    constructor
    · intro leaf hleaf id hid
      obtain ⟨c, hc, rfl⟩ := List.mem_map.mp hleaf
      obtain ⟨parent, hparent, hsame, harticle⟩ := build_chunks_has_parents hchunks c hc id hid
      exact ⟨_, List.mem_map_of_mem hparent, hsame, rfl, rfl, harticle⟩
    · intro item hitem
      obtain ⟨c, -, rfl⟩ := List.mem_map.mp hitem
      exact ⟨rfl, rfl⟩

/-- Inserting passages that fit adds exactly them. -/
theorem insert_passages_ok {items : List SourcePassage} {rows after : Table SourcePassage}
    (h : items.foldlM insert_passage rows = .ok after) (x : SourcePassage) :
    x ∈ after ↔ x ∈ rows ∨ x ∈ items := by
  induction items generalizing rows with
  | nil =>
    cases h
    simp
  | cons item items ih =>
    rw [List.foldlM_cons] at h
    obtain ⟨inserted, hinserted, h⟩ := results.bind_ok.mp h
    rw [insert_passage] at hinserted
    split at hinserted
    case h_1 => cases hinserted
    case h_2 hfree =>
      cases hinserted
      rw [ih h, Table.mem_insert_of_fresh (Table.get_eq_none.mp hfree), List.mem_cons, or_assoc]

/-- A rebuilt version holds the passages of its documents; other versions are kept. -/
theorem rebuild_version_ok {index after : SourceIndex} {graph_version fingerprint : String}
    {documents : List IndexableDocument} {profiles : DocumentProfiles}
    (h : rebuild_version patterns encoding index graph_version documents profiles fingerprint =
      .ok after) :
    ∃ passages, Families passages ∧
      (∀ item ∈ passages, item.graph_version = graph_version ∧
        ∃ document ∈ documents, item.document = document.relative_path) ∧
      ∀ x, x ∈ after.source_passages ↔
        x ∈ index.source_passages ∧ x.graph_version ≠ graph_version ∨ x ∈ passages := by
  obtain ⟨lists, hlists, h⟩ := results.bind_ok.mp h
  obtain ⟨rows, hrows, h⟩ := results.bind_ok.mp h
  cases h
  have hdocument : ∀ passages ∈ lists, ∃ document ∈ documents, Families passages ∧
      ∀ item ∈ passages, item.graph_version = graph_version ∧
        item.document = document.relative_path := by
    intro passages hpassages
    obtain ⟨document, hdocument, hok⟩ := results.mem_of_mapM hlists passages hpassages
    exact ⟨document, hdocument, document_passages_ok hok⟩
  refine ⟨lists.flatten, ?_, ?_, ?_⟩
  · intro leaf hleaf id hid
    obtain ⟨passages, hpassages, hleaf⟩ := List.mem_flatten.mp hleaf
    obtain ⟨_, -, hfamilies, -⟩ := hdocument passages hpassages
    obtain ⟨parent, hparent, hsame⟩ := hfamilies leaf hleaf id hid
    exact ⟨parent, List.mem_flatten.mpr ⟨passages, hpassages, hparent⟩, hsame⟩
  · intro item hitem
    obtain ⟨passages, hpassages, hitem⟩ := List.mem_flatten.mp hitem
    obtain ⟨document, hmem, -, hitems⟩ := hdocument passages hpassages
    exact ⟨(hitems item hitem).1, document, hmem, (hitems item hitem).2⟩
  · intro x
    rw [insert_passages_ok hrows, Table.mem_delete, decide_eq_false_iff_not]

/-- The indexes that rebuilding leads to, whatever patterns and tokenizer it used. -/
inductive Built : SourceIndex → Prop
  | empty : Built .empty
  | rebuild {index after : SourceIndex} (patterns : Patterns) (encoding : Encoding)
      (graph_version : String) (documents : List IndexableDocument) (profiles : DocumentProfiles)
      (fingerprint : String) (hbuilt : Built index)
      (h : rebuild_version patterns encoding index graph_version documents profiles fingerprint =
        .ok after) : Built after

/-- Every leaf of a built index has its parent in it. -/
theorem Built.families {index : SourceIndex} (h : Built index) :
    Families index.source_passages.rows := by
  induction h with
  | empty =>
    intro leaf hleaf
    cases hleaf
  | rebuild _ _ _ _ _ _ _ h ih =>
    obtain ⟨passages, hfamilies, hversions, hrows⟩ := rebuild_version_ok h
    intro leaf hleaf id hid
    cases (hrows leaf).mp hleaf with
    | inl hkept =>
      obtain ⟨parent, hparent, hsame, hversion, hplace⟩ := ih leaf hkept.1 id hid
      refine ⟨parent, (hrows parent).mpr (Or.inl ⟨hparent, ?_⟩), hsame, hversion, hplace⟩
      rw [hversion]
      exact hkept.2
    | inr hnew =>
      obtain ⟨parent, hparent, hsame⟩ := hfamilies leaf hnew id hid
      exact ⟨parent, (hrows parent).mpr (Or.inr hparent), hsame⟩

end lagraph.retrieval
