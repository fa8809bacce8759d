import LaGraph.Projects.Storage.Discovery
import LaGraph.Projects.Uploads.Finalization.Commit

open foundation foundation.Tx

namespace lagraph.registry

/-- The finalizations of a run with what is committed. -/
abbrev Finalizations := System Database RowLock ProjectError Unit FinalizeRequest

variable {storage : ProjectStorage} {project_id snapshot_id : String} {s s' : Finalizations}
  {e : Event FinalizeRequest}

/-- The limits of the files of a snapshot. -/
structure Limited (storage : ProjectStorage) (snapshot_id : String) (db : Database) : Prop where
  count : (files_of db snapshot_id).length ≤ storage.max_files
  total : ((files_of db snapshot_id).map (·.size)).sum ≤ storage.max_total_bytes

/-- A draft that sessions of its project write. -/
structure IsDraft (project_id snapshot_id : String) (db : Database) : Prop where
  sessions : SessionsOf project_id snapshot_id db
  names : ((files_of db snapshot_id).map (·.logical_filename)).Nodup

/-- A finalization that is about to commit under a new key finds that its parts
still fit. -/
def fits (storage : ProjectStorage) (s : Finalizations) : Event FinalizeRequest → Bool
  | .advance i => s.sessions[i]?.all fun x =>
      !x.ready || (s.committed.idempotency.get x.call.record_key).isSome ||
        s.committed.uploads.rows.all fun upload =>
          upload.id ≠ x.call.session_id ||
            within_limits storage (files_of s.committed upload.snapshot_id) upload.parts
  | .start _ | .abort _ => true

theorem within_of_fits {i : Nat} {x : Session Database RowLock ProjectError Unit FinalizeRequest}
    (h : fits storage s (.advance i) = true) (hx : s.sessions[i]? = some x)
    (hprogram : x.program = .ret ())
    (hunused : s.committed.idempotency.get x.call.record_key = none) :
    ∀ upload ∈ s.committed.uploads, upload.id = x.call.session_id →
      within_limits storage (files_of s.committed upload.snapshot_id) upload.parts = true := by
  intro upload hupload hid
  have hready : x.ready = true := by
    rw [Session.ready, hprogram]
  rw [fits, hx, Option.all_some, hready, hunused] at h
  have hall := List.all_eq_true.mp h upload hupload
  simpa [hid] using hall

structure DraftInv (storage : ProjectStorage) (project_id snapshot_id : String)
    (s : Finalizations) : Prop where
  exclusive : s.Exclusive
  safe : s.Safe (fun _ => OthersFinalize project_id snapshot_id)
    (fun request _ => Finalizes project_id snapshot_id request)
  draft : IsDraft project_id snapshot_id s.committed
  limited : Limited storage snapshot_id s.committed

/-- The commit of one finalization is what every other one relies on. -/
theorem Finalizes.others {x y : Session Database RowLock ProjectError Unit FinalizeRequest}
    {d : Database} (h : Finalizes project_id snapshot_id x.call x.held x.pending d)
    (hapart : x.Apart y) : OthersFinalize project_id snapshot_id y.held d (x.pending d) := by
  cases h with
  | prior hsame =>
    rw [hsame]
    exact others_finalize_rely.refl _ _
  | new upload hupload hid hlock hsessions hidentifiers hkey hunused hrecords hother hown =>
    refine ⟨fun hheld => hother fun hsnapshot => ?_, hsessions, fun id hheld hnone => ?_,
      fun actor operation key hheld hnone => ?_⟩
    · exact hapart _ (hlock hsnapshot) hheld
    · by_contra hsome
      exact hapart _ (hidentifiers id hnone hsome) hheld
    · have hne : Keyed.key x.call.record ≠ (actor, operation, key) := by
        intro hsame
        cases hsame
        exact hapart _ hkey hheld
      rw [hrecords, Table.get_insert_of_ne hne]
      exact hnone

theorem Limited.of_files {d d' : Database} (h : Limited storage snapshot_id d)
    (hsame : files_of d' snapshot_id = files_of d snapshot_id) :
    Limited storage snapshot_id d' := by
  constructor
  · rw [hsame]
    exact h.count
  · rw [hsame]
    exact h.total

/-- A finalization whose parts fit keeps the draft within its limits. -/
theorem Finalizes.limited {request : FinalizeRequest} {held : List RowLock}
    {pending : Database → Database} {d : Database}
    (h : Finalizes project_id snapshot_id request held pending d)
    (hdraft : IsDraft project_id snapshot_id d) (hlimited : Limited storage snapshot_id d)
    (hfits : d.idempotency.get request.record_key = none → ∀ upload ∈ d.uploads,
      upload.id = request.session_id →
      within_limits storage (files_of d upload.snapshot_id) upload.parts = true) :
    IsDraft project_id snapshot_id (pending d) ∧ Limited storage snapshot_id (pending d) := by
  cases h with
  | prior hsame =>
    rw [hsame]
    exact ⟨hdraft, hlimited⟩
  | new upload hupload hid hlock hsessions hidentifiers hkey hunused hrecords hother hown =>
    have hproject := hdraft.sessions.of_declared hsessions
    by_cases hsnapshot : upload.snapshot_id = snapshot_id
    case neg =>
      have hsame := hother hsnapshot
      refine ⟨⟨hproject, ?_⟩, hlimited.of_files hsame⟩
      rw [hsame]
      exact hdraft.names
    case pos =>
      have hreplaced := hown hsnapshot
      have hwithin := hfits hunused upload hupload hid
      rw [within_limits, Bool.and_eq_true, decide_eq_true_eq, decide_eq_true_eq,
        hsnapshot] at hwithin
      refine ⟨⟨hproject, hreplaced.names hdraft.names⟩, ⟨?_, ?_⟩⟩
      · exact (hreplaced.count_le hdraft.names).trans hwithin.1
      · exact (hreplaced.total_le hdraft.names).trans hwithin.2

theorem draft_inv_step (h : System.Step (FinalizeRequest.perform storage) s e s')
    (hfits : fits storage s e = true) (hs : DraftInv storage project_id snapshot_id s) :
    DraftInv storage project_id snapshot_id s' := by
  have hrely : ∀ request : FinalizeRequest,
      Rely ((fun _ => OthersFinalize project_id snapshot_id) request) :=
    fun _ => others_finalize_rely
  have hsafe : s'.Safe (fun _ => OthersFinalize project_id snapshot_id)
      (fun request _ => Finalizes project_id snapshot_id request) := by
    refine h.safe hrely hs.safe (fun request _ => perform_safe request hs.draft.sessions) ?_
    intro i before x after a hat hprogram y hy
    have heffect := hs.safe.at_commit hrely hat hprogram
    exact heffect.others ((hat.exclusive_iff.mp hs.exclusive).1 y hy)
  have hexclusive := h.exclusive hs.exclusive
  cases h with
  | start request => exact ⟨hexclusive, hsafe, hs.draft, hs.limited⟩
  | @commit i before after x a hat hprogram =>
    have hwithin := within_of_fits hfits hat.getElem? hprogram
    obtain ⟨hdraft, hlimited⟩ :=
      (hs.safe.at_commit hrely hat hprogram).limited hs.draft hs.limited hwithin
    exact ⟨hexclusive, hsafe, hdraft, hlimited⟩
  | roll_back _ _ => exact ⟨hexclusive, hsafe, hs.draft, hs.limited⟩
  | lock _ _ _ => exact ⟨hexclusive, hsafe, hs.draft, hs.limited⟩
  | execute _ _ => exact ⟨hexclusive, hsafe, hs.draft, hs.limited⟩

/-- Room for one file. -/
def one_file_storage : ProjectStorage :=
  { text_storage with max_files := 1 }

/-- A project with two open sessions, each with its one part uploaded. -/
def two_sessions : Database :=
  let setup : Transaction Unit := do
    let _ ← create_project ⟨"pl", "ml", "draft"⟩ "lea" "Lea" "west" "kl" 0
    create_upload_session "first" "pl" [⟨"part1", "one.txt", "text/plain", 2, "2"⟩] "lea" "k1" 100 1
    create_upload_session "second" "pl" [⟨"part2", "two.txt", "text/plain", 3, "3"⟩] "lea" "k2" 100 2
    mark_part_uploaded "part1" "/data/pl/uploads/first/part1" 2
    mark_part_uploaded "part2" "/data/pl/uploads/second/part2" 3
  (setup.transact Database.empty).2

/-- The finalization of a session with one part. -/
def finalize_session (session_id : String) : FinalizeRequest where
  project_id := "pl"
  session_id := session_id
  subject := "lea"
  key := session_id
  checked_at := 3
  now := 4
  new_ids := fun _ => session_id
  stored := fun parts => .ok (parts.map fun part => (part.id, part.expected_sha256))

/-- Both sessions are checked before either commits. -/
def both_checked_first : List (Event FinalizeRequest) :=
  [.start (finalize_session "first"), .start (finalize_session "second")] ++
    List.replicate 3 (.advance 0) ++ List.replicate 3 (.advance 1) ++
    List.replicate 32 (.advance 0)

theorem two_sessions_draft : IsDraft "pl" "draft" two_sessions ∧
    Limited one_file_storage "draft" two_sessions := by
  have hsessions : ∀ upload ∈ two_sessions.uploads, upload.snapshot_id = "draft" →
      upload.project_id = "pl" := by decide +kernel
  have hnone : files_of two_sessions "draft" = [] := by decide +kernel
  refine ⟨⟨hsessions, ?_⟩, ⟨?_, ?_⟩⟩
  · rw [hnone]
    exact List.nodup_nil
  · rw [hnone]
    exact Nat.zero_le _
  · rw [hnone]
    exact Nat.zero_le _

end lagraph.registry
