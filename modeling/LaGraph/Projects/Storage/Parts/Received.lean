import LaGraph.Projects.Storage.Parts

open foundation foundation.Tx
open lagraph.sources (Bytes)

namespace lagraph.registry

variable {storage : ProjectStorage} {project_id session_id : String} {disk disk' : Disk}
  {part : UploadPartRow} {parts : List UploadPartRow}

/-- The temporary files of the parts of a session, as `receive_part` makes them. -/
structure Received (storage : ProjectStorage) (project_id session_id : String)
    (parts : List UploadPartRow) : Prop where
  under : ∀ part ∈ parts, ∀ path ∈ part.temp_path, ∃ name,
    path = part_file storage project_id session_id name
  distinct : (parts.filterMap (·.temp_path)).Nodup

/-- What is received is not yet among the contents. -/
theorem part_file_ne_blob_file (name sha256 : String) :
    part_file storage project_id session_id name ≠ blob_file storage project_id sha256 := by
  intro hsame
  have hlists := congrArg String.toList hsame
  simp only [part_file, blob_file, String.toList_append, List.append_assoc,
    List.append_cancel_left_eq] at hlists
  -- after the project the one goes on with an u, the other with a b
  cases hlists

/-- Another part has another temporary file. -/
theorem Received.ne (h : Received storage project_id session_id (part :: parts))
    {path : String} (hpath : part.temp_path = some path) :
    ∀ other ∈ parts, ∀ path' ∈ other.temp_path, path' ≠ path := by
  intro other hother path' hpath' hsame
  have hdistinct := h.distinct
  rw [List.filterMap_cons_some hpath, List.nodup_cons] at hdistinct
  exact hdistinct.1 (List.mem_filterMap.mpr ⟨other, hother, hsame ▸ hpath'⟩)

theorem Received.tail (h : Received storage project_id session_id (part :: parts)) :
    Received storage project_id session_id parts where
  under other hother := h.under other (List.mem_cons_of_mem _ hother)
  distinct := ((List.sublist_cons_self part parts).filterMap _).nodup h.distinct

/-- Storing a part touches neither the temporary files of the others nor, but for its
own, a content. -/
theorem Received.store_part (h : Received storage project_id session_id (part :: parts))
    {file : StoredFile} (hcheck : check_part storage disk part = .ok file) :
    ∃ disk', store_part storage project_id disk part =
        (.ok (part.id, blob_file storage project_id part.expected_sha256), disk') ∧
      Moved file.path (blob_file storage project_id part.expected_sha256) disk disk' ∧
      (∀ other ∈ parts, ∀ path ∈ other.temp_path, disk'.get path = disk.get path) ∧
      ∀ sha256, (disk.get (blob_file storage project_id sha256)).isSome →
        (disk'.get (blob_file storage project_id sha256)).isSome := by
  have htemp := (temp_of_uploaded (check_part_ok hcheck).1).1
  obtain ⟨name, hname⟩ := h.under part List.mem_cons_self _ htemp
  have hne : ∀ sha256, file.path ≠ blob_file storage project_id sha256 := by
    rw [hname]
    exact part_file_ne_blob_file name
  obtain ⟨disk', hstored, hmoved⟩ := store_part_ok hcheck (hne part.expected_sha256)
  refine ⟨disk', hstored, hmoved, fun other hother path hpath => ?_, fun sha256 hsome => ?_⟩
  · obtain ⟨name', hname'⟩ := h.under other (List.mem_cons_of_mem _ hother) path hpath
    refine hmoved.other path (h.ne htemp other hother path hpath) ?_
    rw [hname']
    exact part_file_ne_blob_file name' _
  · by_cases hsame : blob_file storage project_id sha256 =
        blob_file storage project_id part.expected_sha256
    · rw [hsame]
      exact hmoved.there
    · rwa [hmoved.other _ (hne sha256).symm hsame]

/-- When every part passes its checks, every part is stored. -/
theorem store_parts_ok (h : Received storage project_id session_id parts)
    (hchecks : ∀ part ∈ parts, ∃ file, check_part storage disk part = .ok file) :
    ∃ disk', store_parts storage project_id parts disk =
        (.ok (parts.map fun part =>
          (part.id, blob_file storage project_id part.expected_sha256)), disk') ∧
      (∀ part ∈ parts, (disk'.get (blob_file storage project_id part.expected_sha256)).isSome) ∧
      ∀ sha256, (disk.get (blob_file storage project_id sha256)).isSome →
        (disk'.get (blob_file storage project_id sha256)).isSome := by
  induction parts generalizing disk with
  | nil => exact ⟨disk, rfl, fun _ hpart => absurd hpart List.not_mem_nil, fun _ hsome => hsome⟩
  | cons part parts ih =>
    obtain ⟨file, hcheck⟩ := hchecks part List.mem_cons_self
    obtain ⟨disk₁, hstored, hmoved, htemps, hblobs⟩ := h.store_part hcheck
    have hrest : ∀ other ∈ parts, ∃ file, check_part storage disk₁ other = .ok file := by
      intro other hother
      rw [check_part_congr (htemps other hother)]
      exact hchecks other (List.mem_cons_of_mem _ hother)
    obtain ⟨disk₂, hstored₂, hthere, hkept⟩ := ih h.tail hrest
    refine ⟨disk₂, ?_, fun other hother => ?_, fun sha256 hsome => hkept _ (hblobs _ hsome)⟩
    · rw [store_parts, hstored]
      simp only [hstored₂, List.map_cons]
    · cases List.mem_cons.mp hother with
      | inl hsame =>
        rw [hsame]
        exact hkept _ hmoved.there
      | inr hother => exact hthere other hother

theorem store_part_gone {path : String}
    (hblob : ∀ sha256, path ≠ blob_file storage project_id sha256) (h : disk.get path = none) :
    (store_part storage project_id disk part).2.get path = none := by
  have hunlinked : ∀ (source : String) {disk : Disk}, disk.get path = none →
      (disk.unlink source).get path = none := by
    intro source disk h
    rw [get_unlink, h, ite_self]
  unfold store_part
  split
  · exact h
  · rename_i file _
    dsimp only
    split
    · exact hunlinked _ h
    · rw [Disk.replace, Table.get_insert_of_ne (hblob _).symm]
      exact hunlinked _ (hunlinked _ h)

/-- A temporary file that is gone does not come back. -/
theorem store_parts_gone {path : String}
    (hblob : ∀ sha256, path ≠ blob_file storage project_id sha256) (h : disk.get path = none) :
    (store_parts storage project_id parts disk).2.get path = none := by
  induction parts generalizing disk with
  | nil => exact h
  | cons part parts ih =>
    have hpart := @store_part_gone storage project_id disk part path hblob h
    rw [store_parts]
    cases hstored : store_part storage project_id disk part with
    | mk result disk₁ =>
      rw [hstored] at hpart
      cases result with
      | error e => exact hpart
      | ok blob =>
        have hrest := ih hpart
        dsimp only
        cases hothers : store_parts storage project_id parts disk₁ with
        | mk result disk₂ =>
          rw [hothers] at hrest
          cases result with
          | error e => exact hrest
          | ok blobs => exact hrest

/-- Once the first part passes its checks, its temporary file is gone, whatever
becomes of the others. -/
theorem store_parts_moved (h : Received storage project_id session_id (part :: parts))
    {file : StoredFile} (hcheck : check_part storage disk part = .ok file) :
    (store_parts storage project_id (part :: parts) disk).2.get file.path = none := by
  obtain ⟨disk₁, hstored, hmoved, -, -⟩ := h.store_part hcheck
  obtain ⟨name, hname⟩ := h.under part List.mem_cons_self _
    (temp_of_uploaded (check_part_ok hcheck).1).1
  have hblob : ∀ sha256, file.path ≠ blob_file storage project_id sha256 := by
    rw [hname]
    exact part_file_ne_blob_file name
  have hgone := @store_parts_gone storage project_id disk₁ parts file.path hblob hmoved.gone
  rw [store_parts, hstored]
  dsimp only
  cases hothers : store_parts storage project_id parts disk₁ with
  | mk result disk₂ =>
    rw [hothers] at hgone
    cases result with
    | error e => exact hgone
    | ok blobs => exact hgone

/-- A part that is refused leaves everything where it is. -/
theorem store_parts_refused {e : StorageError} (h : check_part storage disk part = .error e) :
    store_parts storage project_id (part :: parts) disk = (.error e, disk) := by
  rw [store_parts, store_part, h]

theorem received_other {id path : String} {size : Nat} (h : part.id ≠ id) :
    part.received id path size = part := by
  rw [UploadPartRow.received, if_neg fun hboth => h hboth.1]

/-- Marking one of the parts as received under a new name keeps them apart. -/
theorem Received.mark {id name : String} {size : Nat} (hids : (parts.map (·.id)).Nodup)
    (hnew : ∀ other ∈ parts, part_file storage project_id session_id name ∉ other.temp_path)
    (h : Received storage project_id session_id parts) :
    Received storage project_id session_id
      (parts.map (·.received id (part_file storage project_id session_id name) size)) := by
  induction parts with
  | nil => exact h
  | cons part parts ih =>
    rw [List.map_cons, List.nodup_cons] at hids
    have hrest := ih hids.2 (fun other hother => hnew other (List.mem_cons_of_mem _ hother)) h.tail
    rw [List.map_cons]
    by_cases hmarked : part.id = id ∧ part.state = .pending
    case neg =>
      have hsame : part.received id (part_file storage project_id session_id name) size = part := by
        rw [UploadPartRow.received, if_neg hmarked]
      rw [hsame]
      constructor
      case under =>
        intro other hother path hpath
        cases List.mem_cons.mp hother with
        | inl hpart => exact h.under part List.mem_cons_self path (hpart ▸ hpath)
        | inr hother => exact hrest.under other hother path hpath
      case distinct =>
        cases htemp : part.temp_path with
        | none =>
          rw [List.filterMap_cons_none htemp]
          exact hrest.distinct
        | some path =>
          rw [List.filterMap_cons_some htemp, List.nodup_cons]
          refine ⟨fun hmem => ?_, hrest.distinct⟩
          obtain ⟨marked, hmarked, hpath⟩ := List.mem_filterMap.mp hmem
          obtain ⟨other, hother, rfl⟩ := List.mem_map.mp hmarked
          rw [UploadPartRow.received] at hpath
          split at hpath
          · cases hpath
            exact hnew part List.mem_cons_self htemp
          · exact h.ne htemp other hother path hpath rfl
    case pos =>
      -- the others have other identifiers
      have hothers : parts.map
          (·.received id (part_file storage project_id session_id name) size) = parts := by
        refine (List.map_congr_left fun other hother => ?_).trans (List.map_id parts)
        refine received_other fun hid => hids.1 ?_
        rw [hmarked.1, ← hid]
        exact List.mem_map_of_mem hother
      rw [hothers, UploadPartRow.received, if_pos hmarked]
      constructor
      case under =>
        intro other hother path hpath
        cases List.mem_cons.mp hother with
        | inl hpart =>
          rw [hpart] at hpath
          cases hpath
          exact ⟨name, rfl⟩
        | inr hother => exact h.under other (List.mem_cons_of_mem _ hother) path hpath
      case distinct =>
        change (part_file storage project_id session_id name ::
          parts.filterMap (·.temp_path)).Nodup
        rw [List.nodup_cons]
        refine ⟨fun hmem => ?_, h.tail.distinct⟩
        obtain ⟨other, hother, hpath⟩ := List.mem_filterMap.mp hmem
        exact hnew other (List.mem_cons_of_mem _ hother) hpath

theorem mark_part_uploaded_ok {id path : String} {size : Nat} {row : UploadSessionRow}
    {db db' : Database} (h : (mark_part_uploaded id path size).run db = .ok ((), db'))
    (hrow : row ∈ db.uploads) :
    { row with parts := row.parts.map (·.received id path size) } ∈ db'.uploads := by
  rw [mark_part_uploaded, run_select_bind, run_raiseIf_ok, update_uploads, run_execute,
    Table.update_matching] at h
  cases h.2
  exact List.mem_map.mpr ⟨row, hrow, if_pos rfl⟩

/-- Receiving a part under a new name keeps the temporary files of a session apart. -/
theorem receive_part_received {upload row : UploadSessionRow} {body : Bytes} {name : String}
    {now : Moment} {db db' : Database} {result : Except StorageError Unit}
    (hids : (row.parts.map (·.id)).Nodup)
    (hnew : ∀ other ∈ row.parts,
      part_file storage project_id session_id name ∉ other.temp_path)
    (h : Received storage project_id session_id row.parts) (hrow : row ∈ db.uploads)
    (hreceive : receive_part storage upload part body
      (part_file storage project_id session_id name) now db disk = (result, db', disk')) :
    ∃ row' ∈ db'.uploads, row'.id = row.id ∧
      Received storage project_id session_id row'.parts := by
  unfold receive_part at hreceive
  split_ifs at hreceive
  case neg =>
    cases hmark : (mark_part_uploaded part.id (part_file storage project_id session_id name)
        body.length).run db with
    | error e =>
      rw [transact_error hmark] at hreceive
      cases hreceive
      exact ⟨row, hrow, rfl, h⟩
    | ok marked =>
      obtain ⟨_, written⟩ := marked
      rw [transact_ok hmark] at hreceive
      cases hreceive
      exact ⟨_, mark_part_uploaded_ok hmark hrow, rfl, h.mark hids hnew⟩
  all_goals
    cases hreceive
    exact ⟨row, hrow, rfl, h⟩

end lagraph.registry
