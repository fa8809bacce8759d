import LaGraph.Foundation.Results
import LaGraph.Foundation.Unicode
import LaGraph.Projects.Storage

open foundation

namespace lagraph.registry

/-- The limits of an upload, as the settings and the runtime configuration have them. -/
structure UploadLimits where
  maxFileBytes : Nat
  maxFiles : Nat
  maxTotalBytes : Nat
  deriving DecidableEq, Repr

/-- What a request that is not accepted ends with. -/
inductive RequestError
  /-- The body does not pass its model. -/
  | invalid_body
  | raised (error : ProjectError)
  deriving DecidableEq, Repr

def hex_characters : List Char := "0123456789abcdef".toList

/-- `UploadFileDeclaration`: what the fields of a file ask for. -/
def UploadFileDeclaration.is_valid (declaration : UploadFileDeclaration) : Bool :=
  1 ≤ declaration.filename.length ∧ declaration.filename.length ≤ 255 ∧
    1 ≤ declaration.media_type.length ∧ declaration.media_type.length ≤ 255 ∧
    0 < declaration.size ∧
    declaration.sha256.length = 64 ∧ declaration.sha256.toList.all (· ∈ hex_characters)

/-- `CreateUploadSessionRequest`. -/
def is_valid_upload_request (declarations : List UploadFileDeclaration) : Bool :=
  1 ≤ declarations.length ∧ declarations.length ≤ 100 ∧
    declarations.all UploadFileDeclaration.is_valid

variable (storage : ProjectStorage)

/-- The checks of the route `create_upload_session`, of an authorized principal. -/
def check_upload_request (limits : UploadLimits) (declarations : List UploadFileDeclaration) :
    Except RequestError Unit :=
  if is_valid_upload_request declarations = false then .error .invalid_body
  else
    match declarations.mapM fun declaration => validate_filename storage declaration.filename with
    | .error error => .error (.raised error)
    | .ok _ =>
      if ¬(declarations.map (·.filename)).Nodup then
        .error (.raised (.InvalidRequest "Filenames in an upload session must be unique"))
      else if limits.maxFiles < declarations.length then
        .error (.raised (.InvalidRequest "The upload exceeds the configured file-count limit"))
      else if declarations.any (limits.maxFileBytes < ·.size) then
        .error (.raised (.InvalidRequest "A file exceeds the configured size limit"))
      else if limits.maxTotalBytes < (declarations.map (·.size)).sum then
        .error (.raised
          (.InvalidRequest "The upload exceeds the configured aggregate-size limit"))
      else .ok ()

variable {storage} {limits : UploadLimits} {declarations : List UploadFileDeclaration}

/-- A request is accepted if and only if it passes every check. -/
theorem check_upload_request_ok : check_upload_request storage limits declarations = .ok () ↔
    is_valid_upload_request declarations = true ∧
      (∀ declaration ∈ declarations, validate_filename storage declaration.filename = .ok ()) ∧
      (declarations.map (·.filename)).Nodup ∧ declarations.length ≤ limits.maxFiles ∧
      (∀ declaration ∈ declarations, declaration.size ≤ limits.maxFileBytes) ∧
      (declarations.map (·.size)).sum ≤ limits.maxTotalBytes := by
  have hsizes : declarations.any (limits.maxFileBytes < ·.size) = true ↔
      ¬∀ declaration ∈ declarations, declaration.size ≤ limits.maxFileBytes := by
    simp only [List.any_eq_true, decide_eq_true_eq, not_forall, Nat.not_le, exists_prop]
  rw [check_upload_request]
  constructor
  · intro h
    by_cases hinvalid : is_valid_upload_request declarations = false
    · rw [if_pos hinvalid] at h
      cases h
    · rw [if_neg hinvalid] at h
      rw [Bool.not_eq_false] at hinvalid
      cases hnames : declarations.mapM fun declaration =>
          validate_filename storage declaration.filename with
      | error error =>
        rw [hnames] at h
        cases h
      | ok units =>
        rw [hnames] at h
        dsimp only at h
        split_ifs at h with hunique hcount hlarge htotal
        rw [hsizes, not_not] at hlarge
        refine ⟨hinvalid, ?_, hunique, by omega, hlarge, by omega⟩
        intro declaration hdeclaration
        obtain ⟨_, hvalid⟩ := results.ok_of_mapM hnames declaration hdeclaration
        exact hvalid
  · rintro ⟨hvalid, hnames, hunique, hcount, hsmall, htotal⟩
    obtain ⟨units, hunits, -⟩ := results.mapM_ok (R := fun _ _ => True)
      fun declaration hdeclaration => ⟨(), hnames declaration hdeclaration, trivial⟩
    rw [if_neg (by rw [hvalid]; decide), hunits]
    dsimp only
    have hlarge := mt hsizes.mp (not_not.mpr hsmall)
    rw [if_neg (not_not.mpr hunique), if_neg (by omega), if_neg hlarge, if_neg (by omega)]

end lagraph.registry
