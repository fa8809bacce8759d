import LaGraph.Foundation.Duplicates
import Mathlib.Algebra.Order.BigOperators.Group.List
import LaGraph.Projects.Storage

open foundation foundation.Tx

namespace lagraph.registry

variable {before after : List SnapshotFileRow} {parts : List UploadPartRow}

/-- The files of some parts take the places of the files of their names. -/
structure Replaced (parts : List UploadPartRow) (before after : List SnapshotFileRow) : Prop where
  names : (before.map (·.logical_filename)).Nodup → (after.map (·.logical_filename)).Nodup
  origin : ∀ file ∈ after, file ∈ kept_files before parts ∨
    ∃ part ∈ parts, part.logical_filename = file.logical_filename ∧ part.expected_size = file.size

theorem kept_files_nil : kept_files before [] = before := by
  simp [kept_files]

theorem mem_kept_files {file : SnapshotFileRow} :
    file ∈ kept_files before parts ↔
      file ∈ before ∧ ∀ part ∈ parts, part.logical_filename ≠ file.logical_filename := by
  simp [kept_files]

theorem Replaced.refl : Replaced [] before before where
  names := id
  origin := fun _ hfile => Or.inl (kept_files_nil ▸ hfile)

/-- One part more. -/
theorem Replaced.step {mid : List SnapshotFileRow} {part : UploadPartRow}
    (h : Replaced parts before mid)
    (hafter : ∀ file ∈ after, file ∈ mid ∧ file.logical_filename ≠ part.logical_filename ∨
      file.logical_filename = part.logical_filename ∧ file.size = part.expected_size)
    (hnames : (mid.map (·.logical_filename)).Nodup → (after.map (·.logical_filename)).Nodup) :
    Replaced (parts ++ [part]) before after where
  names := fun hbefore => hnames (h.names hbefore)
  origin := by
    intro file hfile
    obtain ⟨hmid, hother⟩ | ⟨hname, hsize⟩ := hafter file hfile
    · cases h.origin file hmid with
      | inl hkept =>
        obtain ⟨hbefore, hparts⟩ := mem_kept_files.mp hkept
        left
        refine mem_kept_files.mpr ⟨hbefore, fun other hmem => ?_⟩
        cases List.mem_append.mp hmem with
        | inl hmem => exact hparts other hmem
        | inr hmem =>
          rw [List.mem_singleton.mp hmem]
          exact Ne.symm hother
      | inr hnew =>
        obtain ⟨other, hmem, hsame⟩ := hnew
        exact Or.inr ⟨other, List.mem_append_left _ hmem, hsame⟩
    · exact Or.inr ⟨part, List.mem_append_right _ (List.mem_singleton.mpr rfl), hname.symm,
        hsize.symm⟩

/-- Files of different names that come from parts are no larger than the parts. -/
theorem sizes_le_parts {files : List SnapshotFileRow}
    (hnames : (files.map (·.logical_filename)).Nodup)
    (horigin : ∀ file ∈ files, ∃ part ∈ parts,
      part.logical_filename = file.logical_filename ∧ part.expected_size = file.size) :
    (files.map (·.size)).sum ≤ (parts.map (·.expected_size)).sum := by
  induction files generalizing parts with
  | nil => exact Nat.zero_le _
  | cons file files ih =>
    rw [List.map_cons, List.nodup_cons] at hnames
    obtain ⟨part, hpart, hname, hsize⟩ := horigin file List.mem_cons_self
    have hperm := (List.perm_cons_erase hpart).map (·.expected_size)
    -- the other files have other names, so that they come from the other parts
    have hrest := @ih (parts.erase part) hnames.2 fun other hother => by
      obtain ⟨source, hsource, hsame⟩ := horigin other (List.mem_cons_of_mem _ hother)
      refine ⟨source, (List.mem_erase_of_ne fun heq => hnames.1 ?_).mpr hsource, hsame⟩
      rw [← hname, ← heq, hsame.1]
      exact List.mem_map_of_mem hother
    rw [hperm.sum_nat, List.map_cons, List.map_cons, List.sum_cons, List.sum_cons, hsize]
    exact Nat.add_le_add_left hrest _

/-- Without duplicates a list is no longer than one with all its elements. -/
theorem length_le_of_subset {names names' : List String} (hnodup : names.Nodup)
    (hsubset : names ⊆ names') : names.length ≤ names'.eraseDups.length := by
  have hsub : names ⊆ names'.eraseDups := fun name hname =>
    List.mem_eraseDups.mpr (hsubset hname)
  exact (hnodup.subperm hsub).length_le

/-- No more files than the check counts. -/
theorem Replaced.count_le (h : Replaced parts before after)
    (hbefore : (before.map (·.logical_filename)).Nodup) :
    after.length ≤ final_count before parts := by
  rw [← List.length_map (f := (·.logical_filename))]
  refine length_le_of_subset (h.names hbefore) fun name hname => ?_
  obtain ⟨file, hfile, rfl⟩ := List.mem_map.mp hname
  cases h.origin file hfile with
  | inl hkept => exact List.mem_append_left _ (List.mem_map_of_mem hkept)
  | inr hnew =>
    obtain ⟨part, hpart, hsame, -⟩ := hnew
    exact List.mem_append_right _ (List.mem_map.mpr ⟨part, hpart, hsame⟩)

/-- No more bytes than the check adds up. -/
theorem Replaced.total_le (h : Replaced parts before after)
    (hbefore : (before.map (·.logical_filename)).Nodup) :
    (after.map (·.size)).sum ≤ final_total before parts := by
  have hafter := h.names hbefore
  have hsplit := (List.filter_append_perm (· ∈ kept_files before parts) after).map (·.size)
  rw [← hsplit.sum_nat, List.map_append, List.sum_append]
  refine Nat.add_le_add ?_ ?_
  · have hnodup := (hafter.of_map _).filter (· ∈ kept_files before parts)
    have hsub : after.filter (· ∈ kept_files before parts) ⊆ kept_files before parts :=
      fun file hfile => of_decide_eq_true (List.mem_filter.mp hfile).2
    obtain ⟨part, hperm, hpart⟩ := hnodup.subperm hsub
    rw [← (hperm.map (·.size)).sum_nat]
    exact (hpart.map _).sum_le_sum fun _ _ => Nat.zero_le _
  · refine sizes_le_parts ((List.filter_sublist.map _).nodup hafter) fun file hfile => ?_
    obtain ⟨hfile, hnot⟩ := List.mem_filter.mp hfile
    refine (h.origin file hfile).resolve_left fun hkept => ?_
    simp [hkept] at hnot

end lagraph.registry
