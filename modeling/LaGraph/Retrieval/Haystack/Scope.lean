import LaGraph.Foundation.Duplicates
import LaGraph.Retrieval.Haystack
import LaGraph.Retrieval.Index.Families

open foundation

namespace lagraph.retrieval

variable {retriever : HaystackSourceRetriever} {scope : RetrievalScope}

/-- The passage is of the pinned version and lies in the documents and articles. -/
structure InScope (retriever : HaystackSourceRetriever) (scope : RetrievalScope)
    (item : SourcePassage) : Prop where
  version : item.graph_version = retriever.graph_version
  document : item.document ∈ scope.documents
  article : scope.articles ≠ [] → ∃ article ∈ item.article, article ∈ scope.articles

/-- A row of the index in scope, under some score. -/
def Stored (retriever : HaystackSourceRetriever) (scope : RetrievalScope)
    (item : SourcePassage) : Prop :=
  InScope retriever scope item ∧
    ∃ row ∈ retriever.index.source_passages, ∃ score, item = { row with score }

theorem in_scope_iff {graph_version : String} {documents articles : List String}
    {item : SourcePassage} :
    in_scope graph_version documents articles item = true ↔
      item.graph_version = graph_version ∧ item.document ∈ documents ∧ item.is_leaf = true ∧
        (articles ≠ [] → ∃ article ∈ item.article, article ∈ articles) := by
  cases articles with
  | nil => simp [in_scope]
  | cons first rest => cases harticle : item.article <;> simp [in_scope, harticle]

theorem stored_of_in_scope {row : SourcePassage} {score : Option Rat}
    (hrow : row ∈ retriever.index.source_passages)
    (h : in_scope retriever.graph_version scope.documents scope.articles { row with score } =
      true) :
    Stored retriever scope { row with score } := by
  obtain ⟨hversion, hdocument, -, harticle⟩ := in_scope_iff.mp h
  exact ⟨⟨hversion, hdocument, harticle⟩, row, hrow, score, rfl⟩

/-- The search yields rows of the scope only. -/
theorem search_stored {query : String} {limit : Nat} :
    ∀ item ∈ search retriever.full_text retriever.index query retriever.graph_version
      scope.documents scope.articles limit, Stored retriever scope item := by
  intro item hitem
  rw [search] at hitem
  by_cases htokens : retriever.full_text.tokens query = []
  · rw [if_pos htokens, scoped_passages] at hitem
    by_cases hdocuments : scope.documents = []
    · rw [if_pos hdocuments] at hitem
      cases hitem
    · rw [if_neg hdocuments] at hitem
      have hitem := sorted.mem_sortBy.mp (List.mem_of_mem_take hitem)
      obtain ⟨hrow, hscope⟩ := List.mem_filter.mp hitem
      exact @stored_of_in_scope _ _ item item.score hrow hscope
  · rw [if_neg htokens] at hitem
    by_cases hdocuments : scope.documents = []
    · rw [if_pos hdocuments] at hitem
      cases hitem
    · rw [if_neg hdocuments] at hitem
      obtain ⟨found, hfound, rfl⟩ := List.mem_map.mp (List.mem_of_mem_take hitem)
      obtain ⟨hfound, hscope⟩ := List.mem_filter.mp (sorted.mem_sortBy.mp hfound)
      obtain ⟨row, -, hmatched⟩ := List.mem_filterMap.mp hfound
      rw [matched] at hmatched
      split at hmatched
      case h_1 rank item _ hget =>
        cases hmatched
        exact stored_of_in_scope (Table.get_eq_some.mp hget).1 hscope
      case h_2 => cases hmatched

theorem mem_of_under {passages : List SourcePassage} {id : String} {item : SourcePassage}
    (h : under passages id = some item) : item ∈ passages ∧ item.id = id := by
  have hid := List.find?_some h
  exact ⟨List.mem_reverse.mp (List.mem_of_find?_eq_some h), of_decide_eq_true hid⟩

theorem Stored.with_score {item : SourcePassage} (h : Stored retriever scope item)
    (score : Option Rat) : Stored retriever scope { item with score } := by
  obtain ⟨⟨hversion, hdocument, harticle⟩, row, hrow, _, rfl⟩ := h
  exact ⟨⟨hversion, hdocument, harticle⟩, row, hrow, score, rfl⟩

theorem selected_stored {passages : List SourcePassage} {documents : List (String × Option Rat)}
    (h : ∀ item ∈ passages, Stored retriever scope item) :
    ∀ item ∈ selected passages documents, Stored retriever scope item := by
  intro item hitem
  obtain ⟨document, -, hitem⟩ := List.mem_filterMap.mp hitem
  obtain ⟨found, hfound, rfl⟩ := Option.map_eq_some_iff.mp hitem
  exact (h found (mem_of_under hfound).1).with_score document.2

/-- The parents of leaves in scope are in scope: they lie where their leaves do. -/
theorem parents_stored (hbuilt : Built retriever.index) {hierarchical : List SourcePassage}
    (h : ∀ item ∈ hierarchical, Stored retriever scope item) :
    ∀ parent ∈ parents retriever.index retriever.graph_version
      (sorted.ofList (hierarchical.filterMap fun item => item.parent_id.filter (· ≠ ""))),
      Stored retriever scope parent := by
  intro parent hparent
  obtain ⟨hrow, hselected⟩ := List.mem_filter.mp hparent
  rw [Bool.and_eq_true, Bool.and_eq_true, decide_eq_true_eq, decide_eq_true_eq,
    sorted.mem_ofList] at hselected
  obtain ⟨hversion, hid, -⟩ := hselected
  obtain ⟨leaf, hleaf, hid⟩ := List.mem_filterMap.mp hid
  have hchild : leaf.parent_id = some parent.id := (Option.filter_eq_some_iff.mp hid).1
  obtain ⟨hscope, row, hleafrow, score, rfl⟩ := h leaf hleaf
  obtain ⟨found, hfound, hsame, hfamily, hdocument, harticle⟩ :=
    hbuilt.families row hleafrow parent.id hchild
  have hkey : Keyed.key found = Keyed.key parent := by
    change (found.id, found.graph_version) = (parent.id, parent.graph_version)
    rw [hsame, hfamily, hversion]
    exact congrArg _ hscope.version
  have heq : found = parent := Table.eq_of_key hfound hrow hkey
  rw [heq] at hdocument harticle
  refine ⟨⟨hversion, ?_, ?_⟩, parent, hrow, parent.score, rfl⟩
  · rw [hdocument]
    exact hscope.document
  · rw [harticle]
    exact hscope.article

theorem merge_group_stored {parents hierarchical merged : List SourcePassage} {threshold : Rat}
    (hparents : ∀ item ∈ parents, Stored retriever scope item)
    (hleaves : ∀ item ∈ hierarchical, Stored retriever scope item)
    (h : merge_group retriever parents hierarchical threshold = .ok merged) :
    ∀ item ∈ merged, Stored retriever scope item := by
  obtain ⟨store, -, h⟩ := results.bind_ok.mp h
  cases h
  intro item hitem
  obtain ⟨document, -, hitem⟩ := List.mem_filterMap.mp hitem
  split at hitem
  case h_1 parent hparent =>
    cases hitem
    exact (hparents parent (mem_of_under hparent).1).with_score _
  case h_2 => exact hleaves item (mem_of_under hitem).1

theorem deduplicated_nodup (passages : List SourcePassage) :
    ((deduplicated passages).map (·.id)).Nodup := by
  have hsub := @duplicates.sublist_of_lookup _ _ _ (under passages) SourcePassage.id id
    (fun _ _ h => (mem_of_under h).2) (passages.map (·.id)).eraseDups
  rw [List.map_id] at hsub
  exact hsub.nodup (duplicates.nodup_eraseDups _)

theorem ranked_nodup (passages : List SourcePassage) (top_k : Nat) :
    (((sorted.sortBy ranks_before (deduplicated passages)).take top_k).map (·.id)).Nodup := by
  have hperm := (sorted.sortBy_perm ranks_before (deduplicated passages)).map (·.id)
  exact ((List.take_sublist _ _).map _).nodup (hperm.nodup_iff.mpr (deduplicated_nodup passages))

theorem mem_of_deduplicated {passages : List SourcePassage} {item : SourcePassage}
    (h : item ∈ deduplicated passages) : item ∈ passages := by
  obtain ⟨id, -, hitem⟩ := List.mem_filterMap.mp h
  exact (mem_of_under hitem).1

theorem selected_nodup {passages : List SourcePassage} {documents : List (String × Option Rat)}
    (h : (documents.map (·.1)).Nodup) : ((selected passages documents).map (·.id)).Nodup := by
  have hid : ∀ (document : String × Option Rat) item,
      ((under passages document.1).map fun item => { item with score := document.2 }) = some item →
        item.id = document.1 := by
    intro document item hitem
    obtain ⟨found, hfound, rfl⟩ := Option.map_eq_some_iff.mp hitem
    exact (mem_of_under hfound).2
  exact (duplicates.sublist_of_lookup hid documents).nodup h

theorem write_documents_ok {documents stored : List Document}
    (h : write_documents documents = .ok stored) :
    stored = documents ∧ (documents.map (·.id)).Nodup := by
  rw [write_documents] at h
  by_cases hnodup : (documents.map (·.id)).Nodup
  · rw [if_pos hnodup] at h
    cases h
    exact ⟨rfl, hnodup⟩
  · rw [if_neg hnodup] at h
    cases h

/-- Retrieval over a built index stays in its scope: every passage, merged parents
included, lies in its documents and articles and in the pinned version; no passage
comes twice, and at most as many as asked for. -/
theorem retrieve_in_scope {query : String} {top_k : Nat} {passages : List SourcePassage}
    (hbuilt : Built retriever.index)
    (hbm25 : ∀ documents query top_k,
      ((retriever.haystack.bm25 documents query top_k).map (·.1)).Subperm
        (documents.map (·.id)))
    (h : retrieve retriever query scope top_k = .ok passages) :
    (∀ item ∈ passages, InScope retriever scope item) ∧ (passages.map (·.id)).Nodup ∧
      passages.length ≤ top_k := by
  have hsearch := @search_stored retriever scope (retrieval_query retriever.rules query) 100
  simp only [retrieve] at h
  generalize search retriever.full_text retriever.index (retrieval_query retriever.rules query)
    retriever.graph_version scope.documents scope.articles 100 = found at h hsearch
  by_cases hnone : found = []
  · rw [if_pos hnone] at h
    cases h
    exact ⟨fun item hitem => absurd hitem List.not_mem_nil, List.nodup_nil, Nat.zero_le _⟩
  · rw [if_neg hnone] at h
    obtain ⟨store, hstore, h⟩ := results.bind_ok.mp h
    obtain ⟨rfl, hnodup⟩ := write_documents_ok hstore
    have hranked := duplicates.nodup_of_subperm
      (hbm25 (found.map (stored_leaf retriever)) (retrieval_query retriever.rules query) top_k) hnodup
    generalize retriever.haystack.bm25 (found.map (stored_leaf retriever))
      (retrieval_query retriever.rules query) top_k = ranked at h hranked
    have hselected := @selected_stored _ _ _ ranked hsearch
    have hdistinct := @selected_nodup found _ hranked
    generalize selected found ranked = chosen at h hselected hdistinct
    have hfilter : ∀ p : SourcePassage → Bool, ∀ item ∈ chosen.filter p,
        Stored retriever scope item :=
      fun p item hitem => hselected item (List.mem_filter.mp hitem).1
    have hleaves := hfilter fun item => !item.standalone && item.parent_id.isSome
    have hstandalone := hfilter (·.standalone)
    generalize chosen.filter (fun item => !item.standalone && item.parent_id.isSome) =
      hierarchical at h hleaves
    by_cases hflat : hierarchical = []
    · rw [if_pos hflat] at h
      cases h
      refine ⟨fun item hitem => (hstandalone item (List.mem_of_mem_take hitem)).1, ?_,
        List.length_take_le _ _⟩
      exact (((List.take_sublist _ _).trans List.filter_sublist).map _).nodup hdistinct
    · rw [if_neg hflat] at h
      obtain ⟨merged, hmerged, h⟩ := results.bind_ok.mp h
      cases h
      have hparents := parents_stored hbuilt hleaves
      have hcombined : ∀ item ∈ chosen.filter (·.standalone) ++ hierarchical.filter (fun item =>
          !item.parent_id.any fun id => (under (parents retriever.index retriever.graph_version
            (sorted.ofList (hierarchical.filterMap fun item => item.parent_id.filter (· ≠ ""))))
              id).isSome) ++ merged.flatten, Stored retriever scope item := by
        intro item hitem
        rw [List.mem_append, List.mem_append] at hitem
        obtain (hitem | hitem) | hitem := hitem
        · exact hstandalone item hitem
        · exact hleaves item (List.mem_filter.mp hitem).1
        · obtain ⟨group, hgroup, hitem⟩ := List.mem_flatten.mp hitem
          obtain ⟨threshold, -, hok⟩ := results.mem_of_mapM hmerged group hgroup
          exact merge_group_stored hparents hleaves hok item hitem
      refine ⟨fun item hitem => ?_, ranked_nodup _ _, List.length_take_le _ _⟩
      have hitem := sorted.mem_sortBy.mp (List.mem_of_mem_take hitem)
      exact (hcombined item (mem_of_deduplicated hitem)).1

/-- Texts in one block without any separator. -/
def unbroken_patterns : Patterns where
  is_space := Char.isWhitespace
  heading := fun _ => none
  article := fun _ => none
  marker := fun _ => none
  separator_ends := fun _ _ => []
  glob := fun _ _ => false

/-- Every character is a token, and a text is its own digest. -/
def character_encoding : Encoding where
  encode := (·.map Char.toNat)
  decode_with_offsets := fun tokens => (tokens.map Char.ofNat, List.range tokens.length)
  sha256 := id

def short_profile : DocumentProfile where
  hard_boundaries := [.page]
  leaf_tokens := 64
  parent_tokens := 96
  overlap_tokens := 16
  auto_merge_threshold := 1 / 2
  leaf_lt_parent := by decide
  overlap_lt_leaf := by decide

def long_document : IndexableDocument where
  relative_path := "law.md"
  content := String.ofList (List.replicate 70 'a')
  sha256 := "c"
  media_type := "text/markdown"

def long_index : Except Failure SourceIndex :=
  rebuild_version unbroken_patterns character_encoding .empty "v1" [long_document]
    ⟨("short", short_profile), []⟩ ""

/-- BM25 finds every document; a parent replaces leaves that are more than the
threshold of its children. -/
def plain_haystack : Haystack where
  bm25 := fun documents _ top_k => (documents.take top_k).map fun document => (document.id, some 1)
  auto_merge := fun store threshold leaves => store.flatMap fun parent =>
    let children := leaves.filter (·.parent_id = some parent.id)
    if threshold * parent.children_ids.length < children.length then [(parent.id, none)]
    else children.map fun leaf => (leaf.id, leaf.score)

def long_retriever (index : SourceIndex) : HaystackSourceRetriever where
  index := index
  graph_version := "v1"
  full_text := ⟨fun query => [query], fun _ _ _ => some 0⟩
  haystack := plain_haystack
  rules := ⟨id, id, fun query => [query], fun _ => false⟩

/-- Both leaves of the document are found and merged into their parent. -/
theorem retrieve_in_scope_merged : ∃ index passages, long_index = .ok index ∧
    retrieve (long_retriever index) "aa" ⟨["law.md"], []⟩ 8 = .ok passages ∧
    passages.map (·.children_ids.length) = [2] ∧
    (∀ item ∈ passages, InScope (long_retriever index) ⟨["law.md"], []⟩ item) ∧
    (passages.map (·.id)).Nodup ∧ passages.length ≤ 8 := by
  have hrun : ∃ index ∈ long_index.toOption, ∃ passages ∈
      (retrieve (long_retriever index) "aa" ⟨["law.md"], []⟩ 8).toOption,
        passages.map (·.children_ids.length) = [2] := by decide +kernel
  obtain ⟨index, hindex, passages, hpassages, hmerged⟩ := hrun
  rw [results.mem_toOption] at hindex hpassages
  have hbuilt : Built index :=
    .rebuild unbroken_patterns character_encoding "v1" [long_document] ⟨("short", short_profile), []⟩
      "" .empty hindex
  refine ⟨index, passages, hindex, hpassages, hmerged, retrieve_in_scope hbuilt ?_ hpassages⟩
  intro documents query top_k
  have hids : ((long_retriever index).haystack.bm25 documents query top_k).map (·.1) =
      (documents.take top_k).map (·.id) := List.map_map
  rw [hids]
  exact ((List.take_sublist top_k documents).map (·.id)).subperm

end lagraph.retrieval
