import LaGraph.Projects.Storage.Discovery
import LaGraph.Projects.Storage.Reception

open foundation
open lagraph.sources (Bytes)

namespace lagraph.registry

/-- At most one request marks the part, the recorded file holds the declared bytes, and a request
that raised has neither marked the part nor left a file. -/
structure PutSound (storage : ProjectStorage) (s : PutState) : Prop where
  one_mark : s.marks.length ≤ 1
  content : s.row.state = .uploaded → ∃ file ∈ s.disk, s.row.temp_path = some file.path ∧
    s.row.received_size = some s.row.expected_size ∧
    file.content.length = s.row.expected_size ∧
    ∀ declared, storage.sha256 declared = s.row.expected_sha256 → file.content = declared
  raised : ∀ request error, s.requests request = .raised error →
    request ∉ s.marks ∧ ∀ file ∈ s.disk, file.creator ≠ some request

/-- A step that does not end a request with its temporary file in place: a mark finds the part
pending and its transaction returns, and a removal is run. -/
def CleanStep (s : PutState) : PutEvent → Prop
  | .mark _ fate => fate = .returns ∧ s.row.state = .pending
  | .unlink _ ran => ran = true
  | _ => True

/-- The step of a run of requests for one part. -/
def PutStep (storage : ProjectStorage) (upload : UploadSessionRow) (s : PutState) (event : PutEvent)
    (s' : PutState) : Prop :=
  put_step storage upload s event = some s'

def HasNoFile (disk : Table PartFile) (request : Nat) : Prop :=
  ∀ file ∈ disk, file.creator ≠ some request

/-- A request has one file. -/
structure Owns (disk : Table PartFile) (request : Nat) (path : String) (content : Bytes) :
    Prop where
  there : ⟨path, content, some request⟩ ∈ disk
  only : ∀ file ∈ disk, file.creator = some request → file.path = path

/-- Two records declare the same. -/
structure SameDeclared (part row : UploadPartRow) : Prop where
  id : part.id = row.id
  size : part.expected_size = row.expected_size
  sha256 : part.expected_sha256 = row.expected_sha256

/-- What a request has on the disk and in the row at each phase. -/
def PhaseInv (storage : ProjectStorage) (s : PutState) (request : Nat) : Phase → Prop
  | .waiting => request ∉ s.marks ∧ HasNoFile s.disk request
  | .loaded part => SameDeclared part s.row ∧ request ∉ s.marks ∧ HasNoFile s.disk request
  | .streaming part temporary received =>
    SameDeclared part s.row ∧ request ∉ s.marks ∧ Owns s.disk request temporary received
  | .verified part temporary received =>
    SameDeclared part s.row ∧ request ∉ s.marks ∧ Owns s.disk request temporary received ∧
      received.length = s.row.expected_size ∧
      storage.sha256 received = s.row.expected_sha256
  | .removing temporary _ =>
    request ∉ s.marks ∧ ∃ content, Owns s.disk request temporary content
  | .returned | .raised _ => True

/-- The row is pending and unmarked, or it records the verified file of the request that
marked it. -/
structure RowInv (storage : ProjectStorage) (s : PutState) : Prop where
  one_mark : s.marks.length ≤ 1
  pending : s.row.state = .pending → s.marks = []
  uploaded : s.row.state = .uploaded → ∃ request ∈ s.marks, ∃ path content,
    s.row.temp_path = some path ∧ s.row.received_size = some content.length ∧
      ⟨path, content, some request⟩ ∈ s.disk ∧ content.length = s.row.expected_size ∧
      storage.sha256 content = s.row.expected_sha256

structure PutInv (storage : ProjectStorage) (s : PutState) : Prop where
  row : RowInv storage s
  phases : ∀ request, PhaseInv storage s request (s.requests request)

/-- The requests that raised have left nothing. -/
def RaisedClean (s : PutState) : Prop :=
  ∀ request error, s.requests request = .raised error →
    request ∉ s.marks ∧ HasNoFile s.disk request

/-- A step of one request leaves the others, their files and what is declared alone. -/
structure Frames (request : Nat) (s s' : PutState) : Prop where
  row : SameDeclared s.row s'.row
  marks : ∀ other, other ≠ request → (other ∈ s'.marks ↔ other ∈ s.marks)
  disk : ∀ file, file.creator ≠ some request → (file ∈ s'.disk ↔ file ∈ s.disk)
  requests : ∀ other, other ≠ request → s'.requests other = s.requests other

variable {storage : ProjectStorage} {upload : UploadSessionRow} {s s' : PutState}
  {event : PutEvent} {request other : Nat} {reached : Phase} {path : String} {content data : Bytes}
  {disk disk' : Table PartFile}

theorem SameDeclared.trans {a b c : UploadPartRow} (h : SameDeclared a b)
    (h' : SameDeclared b c) : SameDeclared a c :=
  ⟨h.id.trans h'.id, h.size.trans h'.size, h.sha256.trans h'.sha256⟩

theorem SameDeclared.refl (a : UploadPartRow) : SameDeclared a a := ⟨rfl, rfl, rfl⟩

section Frames

theorem Frames.hasNoFile (h : Frames request s s') (hne : other ≠ request)
    (hnone : HasNoFile s.disk other) : HasNoFile s'.disk other := by
  intro file hfile hcreator
  have hmem := (h.disk file (by rw [hcreator]; simpa using hne)).mp hfile
  exact hnone file hmem hcreator

theorem Frames.owns (h : Frames request s s') (hne : other ≠ request)
    (howns : Owns s.disk other path content) : Owns s'.disk other path content := by
  have hcreator : some other ≠ some request := by simpa using hne
  constructor
  · exact (h.disk _ hcreator).mpr howns.there
  · intro file hfile hfile_creator
    have hmem := (h.disk file (by rwa [hfile_creator])).mp hfile
    exact howns.only file hmem hfile_creator

/-- The other requests keep what they have. -/
theorem Frames.phaseInv (h : Frames request s s') (hne : other ≠ request)
    (hphase : PhaseInv storage s other reached) : PhaseInv storage s' other reached := by
  have hmarks := not_congr (h.marks other hne)
  cases reached with
  | waiting => exact ⟨hmarks.mpr hphase.1, h.hasNoFile hne hphase.2⟩
  | loaded part =>
    obtain ⟨hsame, hnot, hnone⟩ := hphase
    exact ⟨hsame.trans h.row, hmarks.mpr hnot, h.hasNoFile hne hnone⟩
  | streaming part temporary received =>
    obtain ⟨hsame, hnot, howns⟩ := hphase
    exact ⟨hsame.trans h.row, hmarks.mpr hnot, h.owns hne howns⟩
  | verified part temporary received =>
    obtain ⟨hsame, hnot, howns, hlength, hsha⟩ := hphase
    exact ⟨hsame.trans h.row, hmarks.mpr hnot, h.owns hne howns, hlength.trans h.row.size,
      hsha.trans h.row.sha256⟩
  | removing temporary error =>
    obtain ⟨hnot, content, howns⟩ := hphase
    exact ⟨hmarks.mpr hnot, content, h.owns hne howns⟩
  | returned => trivial
  | raised error => trivial

theorem Frames.phases (h : Frames request s s')
    (hphases : ∀ other, PhaseInv storage s other (s.requests other))
    (hphase : PhaseInv storage s' request (s'.requests request)) :
    ∀ other, PhaseInv storage s' other (s'.requests other) := by
  intro other
  by_cases hne : other = request
  · rw [hne]
    exact hphase
  · rw [h.requests other hne]
    exact h.phaseInv hne (hphases other)

/-- Whether the requests that raised have left nothing is up to the one that took the step. -/
theorem Frames.raisedClean (h : Frames request s s') (hclean : RaisedClean s) :
    RaisedClean s' ↔ ∀ error, s'.requests request = .raised error →
      request ∉ s'.marks ∧ HasNoFile s'.disk request := by
  constructor
  · intro hclean' error
    exact hclean' request error
  · intro hrequest other error hraised
    by_cases hne : other = request
    · rw [hne] at hraised ⊢
      exact hrequest error hraised
    · rw [h.requests other hne] at hraised
      obtain ⟨hnot, hnone⟩ := hclean other error hraised
      exact ⟨(not_congr (h.marks other hne)).mpr hnot, h.hasNoFile hne hnone⟩

/-- The recorded file is that of a request that has marked the part. -/
theorem RowInv.frame (h : RowInv storage s) (hframes : Frames request s s')
    (hrow : s'.row = s.row) (hmarks : s'.marks = s.marks) (hnot : request ∉ s.marks) :
    RowInv storage s' := by
  refine ⟨by rw [hmarks]; exact h.one_mark, by rw [hrow, hmarks]; exact h.pending, ?_⟩
  rw [hrow, hmarks]
  intro huploaded
  obtain ⟨marker, hmarker, path, content, hpath, hsize, hmem, hcontent⟩ := h.uploaded huploaded
  have hne : some marker ≠ some request := by
    intro hsame
    rw [Option.some_inj.mp hsame] at hmarker
    exact hnot hmarker
  exact ⟨marker, hmarker, path, content, hpath, hsize, (hframes.disk _ hne).mpr hmem, hcontent⟩

end Frames

section Disk

/-- The file at the path that a request owns is its own. -/
theorem Owns.eq_of_path (h : Owns disk request path content) {file : PartFile}
    (hfile : file ∈ disk) (hpath : file.path = path) : file = ⟨path, content, some request⟩ :=
  Table.eq_of_key hfile h.there hpath

theorem mem_write_all_iff (h : Owns disk request path content) {file : PartFile}
    (hcreator : file.creator ≠ some request) :
    file ∈ write_all disk path data ↔ file ∈ disk := by
  rw [write_all, Table.mem_update]
  constructor
  · rintro ⟨found, hfound, rfl⟩
    split at hcreator
    · rename_i hpath
      rw [h.eq_of_path hfound (of_decide_eq_true hpath)] at hcreator
      exact absurd rfl hcreator
    · rename_i hpath
      rwa [if_neg hpath]
  · intro hfile
    refine ⟨file, hfile, if_neg ?_⟩
    intro hpath
    rw [h.eq_of_path hfile (of_decide_eq_true hpath)] at hcreator
    exact hcreator rfl

/-- What is written comes behind what is there. -/
theorem Owns.write_all (h : Owns disk request path content) :
    Owns (write_all disk path data) request path (content ++ data) := by
  constructor
  · exact Table.mem_update_of h.there (decide_eq_true rfl)
  · intro file hfile hcreator
    obtain ⟨found, hfound, rfl⟩ := Table.mem_update.mp hfile
    split
    · rename_i hpath
      exact of_decide_eq_true hpath
    · rename_i hpath
      rw [if_neg hpath] at hcreator
      exact h.only found hfound hcreator

theorem mem_delete_iff (h : Owns disk request path content) {file : PartFile}
    (hcreator : file.creator ≠ some request) :
    file ∈ disk.delete (·.path = path) ↔ file ∈ disk := by
  rw [Table.mem_delete]
  refine ⟨fun hfile => hfile.1, fun hfile => ⟨hfile, ?_⟩⟩
  rw [decide_eq_false_iff_not]
  intro hpath
  rw [h.eq_of_path hfile hpath] at hcreator
  exact hcreator rfl

theorem Owns.delete (h : Owns disk request path content) :
    HasNoFile (disk.delete (·.path = path)) request := by
  intro file hfile hcreator
  obtain ⟨hmem, hpath⟩ := Table.mem_delete.mp hfile
  exact of_decide_eq_false hpath (h.only file hmem hcreator)

theorem fresh_path (hfree : ¬(disk.get path).isSome = true) (content : Bytes) :
    ∀ file ∈ disk, Keyed.key file ≠ Keyed.key (⟨path, content, some request⟩ : PartFile) := by
  rw [Bool.not_eq_true, Option.isSome_eq_false_iff, Option.isNone_iff_eq_none] at hfree
  exact Table.get_eq_none.mp hfree

/-- A new file is owned by the request that makes it. -/
theorem HasNoFile.insert (h : HasNoFile disk request) (hfree : ¬(disk.get path).isSome = true) :
    Owns (disk.insert ⟨path, [], some request⟩) request path [] := by
  have hmem {file : PartFile} := @Table.mem_insert_of_fresh _ _ _ _ disk
    ⟨path, [], some request⟩ file (fresh_path hfree [])
  constructor
  · exact hmem.mpr (Or.inr rfl)
  · intro file hfile hcreator
    cases hmem.mp hfile with
    | inl hold => exact absurd hcreator (h file hold)
    | inr hnew => rw [hnew]

theorem mem_insert_iff (hfree : ¬(disk.get path).isSome = true) {file : PartFile}
    (hcreator : file.creator ≠ some request) :
    file ∈ disk.insert ⟨path, [], some request⟩ ↔ file ∈ disk := by
  rw [Table.mem_insert_of_fresh (fresh_path hfree [])]
  refine ⟨fun hfile => hfile.resolve_right ?_, Or.inl⟩
  rintro rfl
  exact hcreator rfl

end Disk

section Steps

theorem frames_disk
    (hdisk : ∀ file : PartFile, file.creator ≠ some request → (file ∈ disk' ↔ file ∈ s.disk)) :
    Frames request s { s.go request reached with disk := disk' } where
  row := .refl _
  marks _ _ := Iff.rfl
  disk := hdisk
  requests _ hne := Function.update_of_ne hne _ _

/-- A step that changes files of one request that has not marked the part. -/
theorem PutInv.move (h : PutInv storage s) (hnot : request ∉ s.marks)
    (hdisk : ∀ file : PartFile, file.creator ≠ some request → (file ∈ disk' ↔ file ∈ s.disk))
    (hphase : PhaseInv storage { s.go request reached with disk := disk' } request reached) :
    PutInv storage { s.go request reached with disk := disk' } := by
  have hframes : Frames request s { s.go request reached with disk := disk' } := frames_disk hdisk
  refine ⟨h.row.frame hframes rfl rfl hnot, hframes.phases h.phases ?_⟩
  have hreached : ({ s.go request reached with disk := disk' } : PutState).requests request =
      reached := Function.update_self _ _ _
  rw [hreached]
  exact hphase

/-- The requests that raised have left nothing after a step, if the one that took it has not. -/
theorem RaisedClean.move (h : RaisedClean s) (hnot : request ∉ s.marks)
    (hdisk : ∀ file : PartFile, file.creator ≠ some request → (file ∈ disk' ↔ file ∈ s.disk)) :
    RaisedClean { s.go request reached with disk := disk' } ↔
      ∀ error, reached = .raised error → HasNoFile disk' request := by
  have hframes : Frames request s { s.go request reached with disk := disk' } := frames_disk hdisk
  have hreached : ({ s.go request reached with disk := disk' } : PutState).requests request =
      reached := Function.update_self _ _ _
  rw [hframes.raisedClean h, hreached]
  exact forall_congr' fun error => imp_congr_right fun _ => and_iff_right hnot

/-- What a step keeps, and when it leaves nothing behind. -/
def Steps (storage : ProjectStorage) (s s' : PutState) (clean : Prop) : Prop :=
  PutInv storage s' ∧ (RaisedClean s → (RaisedClean s' ↔ clean))

theorem Steps.of_move (h : PutInv storage s) (hnot : request ∉ s.marks)
    (hdisk : ∀ file : PartFile, file.creator ≠ some request → (file ∈ disk' ↔ file ∈ s.disk))
    (hphase : PhaseInv storage { s.go request reached with disk := disk' } request reached)
    {clean : Prop} (hclean : (∀ error, reached = .raised error → HasNoFile disk' request) ↔ clean) :
    Steps storage s { s.go request reached with disk := disk' } clean :=
  ⟨h.move hnot hdisk hphase, fun hraised => (hraised.move hnot hdisk).trans hclean⟩

/-- A step that only moves its request on. -/
theorem Steps.of_go (h : PutInv storage s) (hnot : request ∉ s.marks)
    (hphase : PhaseInv storage s request reached) {clean : Prop}
    (hclean : (∀ error, reached = .raised error → HasNoFile s.disk request) ↔ clean) :
    Steps storage s (s.go request reached) clean := by
  have hphase' : PhaseInv storage { s.go request reached with disk := s.disk } request reached := by
    cases reached <;> exact hphase
  exact Steps.of_move h hnot (fun _ _ => Iff.rfl) hphase' hclean

theorem not_raised_iff {P : Prop} (h : ∀ error, reached ≠ .raised error) :
    (∀ error, reached = .raised error → P) ↔ True :=
  ⟨fun _ => trivial, fun _ error hraised => absurd hraised (h error)⟩

/-- The steps before the part is marked. -/
theorem load_step (hinv : PutInv storage s)
    (h : PutStep storage upload s (.load request) s') : Steps storage s s' True := by
  have hphase := hinv.phases request
  simp only [PutStep, put_step] at h
  cases hreached : s.requests request with
  | waiting =>
    rw [hreached] at h hphase
    obtain rfl := Option.some_inj.mp h
    refine Steps.of_go hinv hphase.1 ?_ (not_raised_iff ?_)
    · exact ⟨.refl _, hphase⟩
    · intro error hraised
      cases hraised
  | _ =>
    rw [hreached] at h
    cases h

theorem accept_step {now : Moment} {name : String} (hinv : PutInv storage s)
    (h : PutStep storage upload s (.accept request now name) s') : Steps storage s s' True := by
  have hphase := hinv.phases request
  simp only [PutStep, put_step] at h
  cases hreached : s.requests request with
  | loaded part =>
    rw [hreached] at h hphase
    obtain ⟨hsame, hnot, hnone⟩ := hphase
    dsimp only at h
    cases hrefusal : refusal storage upload part now with
    | some error =>
      rw [hrefusal] at h
      obtain rfl := Option.some_inj.mp h
      refine Steps.of_go hinv hnot ?_ ?_
      · trivial
      · exact ⟨fun _ => trivial, fun _ _ _ => hnone⟩
    | none =>
      rw [hrefusal] at h
      dsimp only at h
      split_ifs at h with hfree
      obtain rfl := Option.some_inj.mp h
      refine Steps.of_move hinv hnot (fun file => mem_insert_iff hfree) ?_ (not_raised_iff ?_)
      · exact ⟨hsame, hnot, hnone.insert hfree⟩
      · intro error hraised
        cases hraised
  | _ =>
    rw [hreached] at h
    cases h

theorem chunk_step (hinv : PutInv storage s)
    (h : PutStep storage upload s (.chunk request data) s') : Steps storage s s' True := by
  have hphase := hinv.phases request
  simp only [PutStep, put_step] at h
  cases hreached : s.requests request with
  | streaming part temporary received =>
    rw [hreached] at h hphase
    obtain ⟨hsame, hnot, howns⟩ := hphase
    dsimp only at h
    split_ifs at h with hempty hlong
    · obtain rfl := Option.some_inj.mp h
      exact ⟨hinv, fun hclean => iff_of_true hclean trivial⟩
    · obtain rfl := Option.some_inj.mp h
      refine Steps.of_go hinv hnot ?_ (not_raised_iff ?_)
      · exact ⟨hnot, received, howns⟩
      · intro error hraised
        cases hraised
    · obtain rfl := Option.some_inj.mp h
      refine Steps.of_move hinv hnot (fun file => mem_write_all_iff howns) ?_ (not_raised_iff ?_)
      · exact ⟨hsame, hnot, howns.write_all⟩
      · intro error hraised
        cases hraised
  | _ =>
    rw [hreached] at h
    cases h

theorem close_step (hinv : PutInv storage s)
    (h : PutStep storage upload s (.close request) s') : Steps storage s s' True := by
  have hphase := hinv.phases request
  simp only [PutStep, put_step] at h
  cases hreached : s.requests request with
  | streaming part temporary received =>
    rw [hreached] at h hphase
    obtain ⟨hsame, hnot, howns⟩ := hphase
    dsimp only at h
    split_ifs at h with hwrong
    · obtain rfl := Option.some_inj.mp h
      refine Steps.of_go hinv hnot ?_ (not_raised_iff ?_)
      · exact ⟨hnot, received, howns⟩
      · intro error hraised
        cases hraised
    · obtain rfl := Option.some_inj.mp h
      rw [not_or, not_not, not_not] at hwrong
      refine Steps.of_go hinv hnot ?_ (not_raised_iff ?_)
      · exact ⟨hsame, hnot, howns, hwrong.1.trans hsame.size, hwrong.2.trans hsame.sha256⟩
      · intro error hraised
        cases hraised
  | _ =>
    rw [hreached] at h
    cases h

theorem fail_step (hinv : PutInv storage s)
    (h : PutStep storage upload s (.fail request) s') : Steps storage s s' True := by
  have hphase := hinv.phases request
  simp only [PutStep, put_step] at h
  cases hreached : s.requests request with
  | waiting =>
    rw [hreached] at h hphase
    obtain rfl := Option.some_inj.mp h
    refine Steps.of_go hinv hphase.1 ?_ ?_
    · trivial
    · exact ⟨fun _ => trivial, fun _ _ _ => hphase.2⟩
  | loaded part =>
    rw [hreached] at h hphase
    obtain rfl := Option.some_inj.mp h
    refine Steps.of_go hinv hphase.2.1 ?_ ?_
    · trivial
    · exact ⟨fun _ => trivial, fun _ _ _ => hphase.2.2⟩
  | streaming part temporary received =>
    rw [hreached] at h hphase
    obtain rfl := Option.some_inj.mp h
    refine Steps.of_go hinv hphase.2.1 ?_ (not_raised_iff ?_)
    · exact ⟨hphase.2.1, received, hphase.2.2⟩
    · intro error hraised
      cases hraised
  | _ =>
    rw [hreached] at h
    cases h

/-- A removal that is not run leaves the file of a request that raises. -/
theorem unlink_step {ran : Bool} (hinv : PutInv storage s)
    (h : PutStep storage upload s (.unlink request ran) s') :
    Steps storage s s' (ran = true) := by
  have hphase := hinv.phases request
  simp only [PutStep, put_step] at h
  cases hreached : s.requests request with
  | removing temporary error =>
    rw [hreached] at h hphase
    obtain ⟨hnot, content, howns⟩ := hphase
    obtain rfl := Option.some_inj.mp h
    cases ran with
    | true =>
      refine Steps.of_move hinv hnot (fun file => mem_delete_iff howns) ?_ ?_
      · trivial
      · exact ⟨fun _ => rfl, fun _ _ _ => howns.delete⟩
    | false =>
      refine Steps.of_go hinv hnot ?_ ⟨?_, nofun⟩
      · trivial
      · intro hnone
        exact absurd rfl (hnone error rfl _ howns.there)
  | _ =>
    rw [hreached] at h
    cases h

theorem row_received {row part : UploadPartRow} {size : Nat} (hid : row.id = part.id)
    (hpending : row.state = .pending) : row.received part.id path size =
      { row with state := .uploaded, temp_path := some path, received_size := some size } :=
  if_pos ⟨hid, hpending⟩

theorem frames_marked {part : UploadPartRow} (hid : s.row.id = part.id)
    (hpending : s.row.state = .pending) :
    Frames request s ((s.marked request part path content).go request reached) where
  row := by
    have hrow : s.row.received part.id path content.length = _ := row_received hid hpending
    change SameDeclared s.row (s.row.received part.id path content.length)
    rw [hrow]
    exact ⟨rfl, rfl, rfl⟩
  marks other hne := by
    change other ∈ request :: s.marks ↔ other ∈ s.marks
    rw [List.mem_cons, or_iff_right hne]
  disk _ _ := Iff.rfl
  requests _ hne := Function.update_of_ne hne _ _

/-- The first request that marks the part records its verified file. -/
theorem PutInv.marked {part : UploadPartRow} (h : PutInv storage s) (hid : s.row.id = part.id)
    (hpending : s.row.state = .pending) (howns : Owns s.disk request path content)
    (hlength : content.length = s.row.expected_size)
    (hsha : storage.sha256 content = s.row.expected_sha256)
    (hreached : PhaseInv storage ((s.marked request part path content).go request reached) request
      reached) :
    PutInv storage ((s.marked request part path content).go request reached) := by
  have hframes : Frames request s ((s.marked request part path content).go request reached) :=
    frames_marked hid hpending
  have hrow : ((s.marked request part path content).go request reached).row = _ :=
    row_received hid hpending
  have hmarks : ((s.marked request part path content).go request reached).marks = [request] := by
    change request :: s.marks = _
    rw [h.row.pending hpending]
  refine ⟨⟨?_, ?_, ?_⟩, hframes.phases h.phases ?_⟩
  · rw [hmarks, List.length_singleton]
  · rw [hrow]
    exact nofun
  · rw [hrow, hmarks]
    intro _
    exact ⟨request, List.mem_singleton_self _, path, content, rfl, rfl, howns.there, hlength, hsha⟩
  · rw [PutState.go_requests_self]
    exact hreached

/-- A mark that does not find the part pending, or raises, leaves the file of a request that
raises; only the first request that marks the part finds it pending. -/
theorem mark_step {fate : MarkEnd} (hinv : PutInv storage s)
    (h : PutStep storage upload s (.mark request fate) s') :
    Steps storage s s' (fate = .returns ∧ s.row.state = .pending) := by
  have hphase := hinv.phases request
  simp only [PutStep, put_step] at h
  cases hreached : s.requests request with
  | verified part temporary received =>
    rw [hreached] at h hphase
    obtain ⟨hsame, hnot, howns, hlength, hsha⟩ := hphase
    have hleft {error : ReceiveError} {clean : Prop} (hclean : ¬clean) :
        Steps storage s (s.go request (.raised error)) clean := by
      refine Steps.of_go hinv hnot ?_ ⟨?_, fun h => absurd h hclean⟩
      · trivial
      · intro hnone
        exact absurd rfl (hnone error rfl _ howns.there)
    dsimp only at h
    split_ifs at h with hfails hmatched hreturns
    · obtain rfl := Option.some_inj.mp h
      exact hleft fun hclean => by rw [hfails] at hclean; cases hclean.1
    · obtain rfl := Option.some_inj.mp h
      refine ⟨hinv.marked hmatched.1 hmatched.2 howns hlength hsha trivial, fun hclean => ?_⟩
      rw [(frames_marked hmatched.1 hmatched.2).raisedClean hclean]
      refine iff_of_true (fun error hraised => ?_) ⟨hreturns, hmatched.2⟩
      rw [PutState.go_requests_self] at hraised
      cases hraised
    · obtain rfl := Option.some_inj.mp h
      refine ⟨hinv.marked hmatched.1 hmatched.2 howns hlength hsha trivial, fun hclean => ?_⟩
      rw [(frames_marked hmatched.1 hmatched.2).raisedClean hclean]
      refine iff_of_false (fun hnone => ?_) fun hboth => hreturns hboth.1
      exact (hnone .outside (PutState.go_requests_self _ _ _)).1 List.mem_cons_self
    · obtain rfl := Option.some_inj.mp h
      exact hleft fun hclean => hmatched ⟨hsame.id.symm, hclean.2⟩
  | _ =>
    rw [hreached] at h
    cases h

theorem put_step_spec (hinv : PutInv storage s) (h : PutStep storage upload s event s') :
    Steps storage s s' (CleanStep s event) := by
  cases event with
  | load request => exact load_step hinv h
  | accept request now name => exact accept_step hinv h
  | chunk request data => exact chunk_step hinv h
  | close request => exact close_step hinv h
  | fail request => exact fail_step hinv h
  | unlink request ran => exact unlink_step hinv h
  | mark request fate => exact mark_step hinv h

end Steps

/-- The invariants make a state sound whose raised requests have left nothing. -/
theorem PutInv.sound_iff (hinjective : Function.Injective storage.sha256)
    (h : PutInv storage s) : PutSound storage s ↔ RaisedClean s := by
  constructor
  · exact fun hsound => hsound.raised
  · intro hclean
    refine ⟨h.row.one_mark, fun huploaded => ?_, hclean⟩
    obtain ⟨request, -, path, content, hpath, hsize, hmem, hlength, hsha⟩ :=
      h.row.uploaded huploaded
    refine ⟨_, hmem, hpath, by rw [hsize, hlength], hlength, ?_⟩
    intro declared hdeclared
    exact hinjective (hsha.trans hdeclared.symm)

theorem Fresh.inv (h : Fresh s) : PutInv storage s := by
  refine ⟨⟨by rw [h.marks]; exact Nat.zero_le _, fun _ => h.marks, ?_⟩, ?_⟩
  · rw [h.pending]
    exact nofun
  · intro request
    rw [h.requests request]
    refine ⟨by rw [h.marks]; exact List.not_mem_nil, fun file hfile => ?_⟩
    rw [h.disk file hfile]
    exact nofun

/-- Every state of a run of requests for a fresh part is sound if and only if each mark finds the
part pending and returns, and each removal is run. -/
theorem requests_sound_iff (hinjective : Function.Injective storage.sha256) (hfresh : Fresh s)
    {trace : List (Transition PutState PutEvent)} (h : Run (PutStep storage upload) s trace s') :
    (∀ transition ∈ trace, PutSound storage transition.after) ↔
      ∀ transition ∈ trace, CleanStep transition.before transition.label := by
  have hgood : ∀ a event b, PutStep storage upload a event b →
      PutInv storage a ∧ RaisedClean a →
      (PutInv storage b ∧ RaisedClean b ↔ CleanStep a event) := by
    rintro a event b hstep ⟨hinv, hclean⟩
    obtain ⟨hinv', hiff⟩ := put_step_spec hinv hstep
    rw [and_iff_right hinv']
    exact hiff hclean
  have hstart : PutInv storage s ∧ RaisedClean s := by
    refine ⟨hfresh.inv, fun request error hraised => ?_⟩
    rw [hfresh.requests request] at hraised
    cases hraised
  have hinv : ∀ transition ∈ trace, PutInv storage transition.after := by
    obtain ⟨-, hall⟩ := @Run.invariant _ _ _ _ _ _ (PutInv storage) (fun _ => True) h hfresh.inv
      (fun _ _ => trivial) fun a event b hstep _ ha => (put_step_spec ha hstep).1
    intro transition htransition
    obtain ⟨hbefore, hstep⟩ := hall transition htransition
    exact (put_step_spec hbefore hstep).1
  rw [← h.forall_iff hstart hgood]
  apply forall₂_congr
  intro transition htransition
  rw [(hinv transition htransition).sound_iff hinjective, and_iff_right (hinv transition htransition)]

section Racing

/-- A text with a character for each byte, in place of a digest. -/
def spelled (raw : Bytes) : String :=
  String.ofList (raw.map fun byte => Char.ofNat byte.toNat)

theorem spelled_byte (byte : UInt8) : (Char.ofNat byte.toNat).toNat = byte.toNat := by
  have hbyte := byte.toNat_lt
  rw [Char.ofNat, dif_pos (Or.inl (by omega))]
  rfl

theorem spelled_injective : Function.Injective spelled := by
  intro a b hsame
  have hmap := String.ofList_injective hsame
  apply List.map_injective_iff.mpr _ hmap
  intro x y hxy
  have hvalue := congrArg Char.toNat hxy
  rw [spelled_byte, spelled_byte] at hvalue
  exact UInt8.toNat_inj.mp hvalue

def racing_storage : ProjectStorage :=
  { text_storage with sha256 := spelled }

def racing_upload : UploadSessionRow where
  id := "upload"
  project_id := "project"
  snapshot_id := "draft"
  created_by := "lea"
  state := .opened
  expires_at := 100
  parts := []

/-- A part of two bytes, before the first request for it. -/
def racing_start : PutState where
  row := ⟨"part", "law.txt", "text/plain", 2, spelled [0x6f, 0x6b], none, none, .pending⟩
  disk := .empty
  requests := fun _ => .waiting
  marks := []

theorem racing_fresh : Fresh racing_start where
  pending := rfl
  marks := rfl
  requests _ := rfl
  disk _ hfile := absurd hfile Table.not_mem_empty

/-- Two requests receive the part side by side, and the first one marks it. -/
def racing_events : List PutEvent :=
  [.load 0, .load 1, .accept 0 1 ".part.a", .accept 1 1 ".part.b", .chunk 0 [0x6f, 0x6b],
    .chunk 1 [0x6f], .chunk 1 [0x6b], .close 0, .close 1, .mark 0 .returns]

def racing_run : Option (List (Transition PutState PutEvent) × PutState) :=
  Run.follow (put_step racing_storage racing_upload) racing_start racing_events

/-- A request that raised has a file on the disk. -/
def PutState.has_leftover (s : PutState) (request : Nat) : Bool :=
  match s.requests request with
  | .raised _ => s.disk.rows.any (·.creator = some request)
  | _ => false

/-- The second mark is refused, and its file stays. -/
theorem racing_leftover : ∃ run ∈ racing_run,
    ∃ s ∈ put_step racing_storage racing_upload run.2 (.mark 1 .returns),
      s.has_leftover 1 = true := by
  have hrun : (racing_run.bind fun run => (put_step racing_storage racing_upload run.2
      (.mark 1 .returns)).map (·.has_leftover 1)) = some true := by decide +kernel
  obtain ⟨run, hfollow, hmark⟩ := Option.bind_eq_some_iff.mp hrun
  obtain ⟨s, hs, hleft⟩ := Option.map_eq_some_iff.mp hmark
  exact ⟨run, hfollow, s, hs, hleft⟩

theorem not_sound_of_leftover (h : s.has_leftover request = true) : ¬PutSound storage s := by
  intro hsound
  unfold PutState.has_leftover at h
  split at h
  · rename_i error hraised
    obtain ⟨file, hfile, hcreator⟩ := List.any_eq_true.mp h
    exact (hsound.raised request error hraised).2 file hfile (of_decide_eq_true hcreator)
  · cases h

theorem racing_requests_sound_iff : ∃ trace s,
    Run (PutStep racing_storage racing_upload) racing_start trace s ∧
      ((∀ transition ∈ trace, PutSound racing_storage transition.after) ↔
        ∀ transition ∈ trace, CleanStep transition.before transition.label) := by
  obtain ⟨run, hfollow, s, hmark, -⟩ := racing_leftover
  have hrun := (Run.of_follow hfollow).snoc hmark
  exact ⟨_, s, hrun, requests_sound_iff spelled_injective racing_fresh hrun⟩

/-- The request that loses the race leaves its temporary file. -/
theorem losing_request_leaves_file : ¬∀ (storage : ProjectStorage) (upload : UploadSessionRow)
    (s s' : PutState) (trace : List (Transition PutState PutEvent)),
    Function.Injective storage.sha256 → Fresh s → Run (PutStep storage upload) s trace s' →
    ∀ transition ∈ trace, PutSound storage transition.after := by
  intro h
  obtain ⟨run, hfollow, s, hmark, hleft⟩ := racing_leftover
  have hrun := (Run.of_follow hfollow).snoc hmark
  have hsound := h racing_storage racing_upload racing_start s _ spelled_injective racing_fresh hrun
    _ (List.mem_append_right _ (List.mem_singleton_self _))
  exact not_sound_of_leftover hleft hsound

end Racing

end lagraph.registry
