import LaGraph.Projects.Requests
import Mathlib.Data.Bool.AllAny

open foundation
open lagraph.registry (UploadLimits UploadFileDeclaration ProjectStorage is_stripped
  validate_filename check_upload_request)
open lagraph.sources (suffix)

namespace lagraph.web

section

/-- A file that the browser offers; its name has no lone surrogates. -/
structure File where
  name : String
  size : Nat
  type : String
  /-- The SHA-256 digest of its content. -/
  digest : Vector UInt8 32

/-- `name === name.trim()`. -/
def is_trimmed (name : String) : Bool :=
  !(name.toList.head?.any unicode.javascript_space) &&
    !(name.toList.getLast?.any unicode.javascript_space)

def uploadExtensions : List String := [".md", ".txt", ".html", ".htm", ".pdf", ".docx"]

/-- `supportedUploadExtension`: one of the extensions, in any case, ends the name. -/
def supportedUploadExtension (name : String) : Bool :=
  uploadExtensions.any fun extension =>
    (name.toList.drop (name.length - extension.length)).map Char.toLower = extension.toList

variable (database : unicode.Database)

/-- `unsafeFilenameCharacter`. -/
def unsafeFilenameCharacter (name : String) : Bool :=
  name.toList.any fun c => c = '\\' ∨ c = '/' ∨ database.category c ∈ [.Cc, .Cf, .Cs]

/-- The loop over the files, with the names before. -/
def checkFiles (limits : UploadLimits) (names : List String) : List File → Option String
  | [] => none
  | file :: files =>
    let name := file.name
    if name = "" ∨ name = "." ∨ name = ".." ∨ is_trimmed name = false ∨
        database.nfc name ≠ name ∨ 255 < name.utf8ByteSize ∨
        unsafeFilenameCharacter database name then
      let shown := if name = "" then "Unnamed file" else name
      some s!"“{shown}” has an invalid filename."
    else if supportedUploadExtension name = false then
      some s!"“{name}” is not a supported document format."
    else if name ∈ names then
      some s!"Only one file named “{name}” can be uploaded at a time."
    else if file.size = 0 then some s!"“{name}” is empty."
    else if limits.maxFileBytes < file.size then
      some s!"“{name}” exceeds the per-file size limit."
    else checkFiles limits (name :: names) files

/-- `validateUploadSelection`: what is wrong with the files, if something is. -/
def validateUploadSelection (limits : UploadLimits) (files : List File) : Option String :=
  if files = [] then some "Choose at least one file."
  else
    let count := limits.maxFiles
    if count < files.length then some s!"Select no more than {count} files."
    else
      match checkFiles database limits [] files with
      | some message => some message
      | none =>
        if limits.maxTotalBytes < (files.map (·.size)).sum then
          some "The selected files exceed the total upload size limit."
        else none

/-- `value.toString(16).padStart(2, "0")`. -/
def byte_hex (value : UInt8) : List Char :=
  [Nat.digitChar (value.toNat / 16), Nat.digitChar (value.toNat % 16)]

/-- What `uploadProjectFiles` declares of a file; the server draws the identifier of its part. -/
def File.declaration (file : File) : UploadFileDeclaration where
  part_id := ""
  filename := file.name
  media_type := if file.type = "" then "application/octet-stream" else file.type
  size := file.size
  sha256 := String.ofList (file.digest.toList.flatMap byte_hex)

end

/-- A name that both sides take for one: not blank at its ends, in normal form, short, without
separators and control, format or surrogate characters, and with an extension at its end. -/
structure WellNamed (database : unicode.Database) (name : String) : Prop where
  trimmed : is_trimmed name = true
  nfc : database.nfc name = name
  short : name.utf8ByteSize ≤ 255
  safe : unsafeFilenameCharacter database name = false
  supported : supportedUploadExtension name = true

/-- A selection that meets the rules that both sides have. -/
structure Admissible (database : unicode.Database) (limits : UploadLimits) (files : List File) :
    Prop where
  nonempty : files ≠ []
  count : files.length ≤ limits.maxFiles
  names : ∀ file ∈ files, WellNamed database file.name
  unique : (files.map (·.name)).Nodup
  sizes : ∀ file ∈ files, 0 < file.size ∧ file.size ≤ limits.maxFileBytes
  total : (files.map (·.size)).sum ≤ limits.maxTotalBytes

/-- A selection that meets what only the server asks for: at most a hundred files, none with a
media type of more than 255 characters, with an unassigned or private use character in its name,
or with nothing but an extension as its name. -/
structure Ordinary (database : unicode.Database) (files : List File) : Prop where
  count : files.length ≤ 100
  types : ∀ file ∈ files, file.type.length ≤ 255
  assigned : ∀ file ∈ files, ∀ c ∈ file.name.toList, database.category c ∉ [.Co, .Cn]
  stems : ∀ file ∈ files, file.name.toList.map Char.toLower ∉ uploadExtensions.map String.toList

variable {database : unicode.Database} {storage : ProjectStorage} {limits : UploadLimits}
  {files : List File} {file : File} {name : String} {names : List String}

/-- The rules of the server's storage: the whitespace of `str.strip`, the categories and the
normal form of the database, and a lower case of which only the ASCII letters are those of
the extensions. -/
structure ReadsNames (storage : ProjectStorage) (database : unicode.Database) : Prop where
  space : storage.formats.is_space = unicode.python_space
  nfc : storage.names.nfc = database.nfc
  control : storage.names.is_control = fun c => (database.category c).is_other
  lower : ∀ value, storage.formats.lower value ∈ sources.MEDIA_TYPES.map (·.1) →
    ∀ c ∈ value.toList, c.toNat < 128

section Web

theorem supported_ne_empty (h : supportedUploadExtension name = true) :
    name ≠ "" ∧ name ≠ "." ∧ name ≠ ".." := by
  refine ⟨?_, ?_, ?_⟩ <;> rintro rfl <;> exact absurd h (by decide)

/-- The first two checks of the loop let the well named files pass. -/
theorem wellNamed_iff : WellNamed database name ↔
    ¬(name = "" ∨ name = "." ∨ name = ".." ∨ is_trimmed name = false ∨
        database.nfc name ≠ name ∨ 255 < name.utf8ByteSize ∨
        unsafeFilenameCharacter database name = true) ∧
      ¬supportedUploadExtension name = false := by
  constructor
  · rintro ⟨htrimmed, hnfc, hshort, hsafe, hsupported⟩
    obtain ⟨hne, hdot, hdots⟩ := supported_ne_empty hsupported
    simp [hne, hdot, hdots, htrimmed, hnfc, hsafe, hsupported, Nat.not_lt.mpr hshort]
  · rintro ⟨hchecks, hsupported⟩
    simp only [not_or, Bool.not_eq_false, Bool.not_eq_true, not_not, Nat.not_lt] at hchecks hsupported
    obtain ⟨-, -, -, htrimmed, hnfc, hshort, hsafe⟩ := hchecks
    exact ⟨htrimmed, hnfc, hshort, hsafe, hsupported⟩

/-- The loop finds nothing wrong with well named files of other names and fitting sizes. -/
theorem checkFiles_eq_none : checkFiles database limits names files = none ↔
    (∀ file ∈ files, WellNamed database file.name ∧ file.name ∉ names ∧ 0 < file.size ∧
      file.size ≤ limits.maxFileBytes) ∧ (files.map (·.name)).Nodup := by
  induction files generalizing names with
  | nil => simp [checkFiles]
  | cons file files ih =>
    rw [checkFiles, List.forall_mem_cons, List.map_cons, List.nodup_cons, wellNamed_iff]
    dsimp only
    split_ifs with hname hsupported hseen hempty hlarge
    · exact ⟨nofun, fun h => absurd hname h.1.1.1.1⟩
    · exact ⟨nofun, fun h => absurd hsupported h.1.1.1.2⟩
    · exact ⟨nofun, fun h => absurd hseen h.1.1.2.1⟩
    · exact ⟨nofun, fun h => absurd h.1.1.2.2.1 (by omega)⟩
    · exact ⟨nofun, fun h => absurd h.1.1.2.2.2 (by omega)⟩
    · rw [ih]
      constructor
      · rintro ⟨hfiles, hnodup⟩
        refine ⟨⟨⟨⟨hname, hsupported⟩, hseen, by omega, by omega⟩, ?_⟩, ?_, hnodup⟩
        · intro other hother
          obtain ⟨hother_name, hother_seen, hsizes⟩ := hfiles other hother
          exact ⟨hother_name, fun hmem => hother_seen (List.mem_cons_of_mem _ hmem), hsizes⟩
        · intro hmem
          obtain ⟨other, hother, hsame⟩ := List.mem_map.mp hmem
          apply (hfiles other hother).2.1
          rw [hsame]
          exact List.mem_cons_self
      · rintro ⟨⟨-, hfiles⟩, hnot, hnodup⟩
        refine ⟨fun other hother => ?_, hnodup⟩
        obtain ⟨hother_name, hother_seen, hsizes⟩ := hfiles other hother
        refine ⟨hother_name, ?_, hsizes⟩
        rw [List.mem_cons, not_or]
        exact ⟨fun hsame => hnot (List.mem_map.mpr ⟨other, hother, hsame⟩), hother_seen⟩

/-- The client accepts the admissible selections. -/
theorem validate_eq_none : validateUploadSelection database limits files = none ↔
    Admissible database limits files := by
  rw [validateUploadSelection]
  by_cases hempty : files = []
  · rw [if_pos hempty]
    exact ⟨nofun, fun h => absurd hempty h.nonempty⟩
  · rw [if_neg hempty]
    by_cases hcount : limits.maxFiles < files.length
    · dsimp only
      rw [if_pos hcount]
      exact ⟨nofun, fun h => absurd h.count (by omega)⟩
    · dsimp only
      rw [if_neg hcount]
      have hchecked := @checkFiles_eq_none database limits files []
      cases hfound : checkFiles database limits [] files with
      | some message =>
        refine ⟨nofun, fun h => ?_⟩
        have hnone := hchecked.mpr
          ⟨fun file hfile => ⟨h.names file hfile, List.not_mem_nil, h.sizes file hfile⟩, h.unique⟩
        rw [hnone] at hfound
        cases hfound
      | none =>
        obtain ⟨hfiles, hnodup⟩ := hchecked.mp hfound
        dsimp only
        split_ifs with htotal
        · exact ⟨nofun, fun h => absurd h.total (by omega)⟩
        · refine ⟨fun _ => ?_, fun _ => rfl⟩
          exact ⟨hempty, by omega, fun file hfile => (hfiles file hfile).1, hnodup,
            fun file hfile => (hfiles file hfile).2.2, by omega⟩

end Web

section Server

theorem extension_shape : ∀ extension ∈ uploadExtensions, extension.toList.head? = some '.' ∧
    extension.toList.tail ≠ [] ∧ '.' ∉ extension.toList.tail ∧
    ∀ c ∈ extension.toList, c.toNat < 128 := by
  simp only [← List.all_iff_forall_prop (l := String.toList _)]
  decide

/-- What is an extension in lower case starts with its only dot. -/
theorem shape_of_lower {l : List Char}
    (h : l.map Char.toLower ∈ uploadExtensions.map String.toList) :
    ∃ c rest, l = '.' :: c :: rest ∧ '.' ∉ c :: rest ∧ ∀ d ∈ l, d.toNat < 128 := by
  obtain ⟨extension, hextension, hlower⟩ := List.mem_map.mp h
  obtain ⟨hhead, htail, hdots, hascii⟩ := extension_shape extension hextension
  rw [hlower] at hhead htail hdots hascii
  match l, hhead, htail with
  | dot :: c :: rest, hhead, _ =>
    rw [List.map_cons, List.head?_cons, Option.some_inj] at hhead
    refine ⟨c, rest, by rw [unicode.toLower_eq_dot hhead], ?_, ?_⟩
    · intro hmem
      exact hdots (List.mem_map.mpr ⟨'.', hmem, by decide⟩)
    · intro d hd
      exact unicode.ascii_of_toLower (hascii _ (List.mem_map_of_mem hd))

/-- The suffix of a name whose last dot is there. -/
theorem suffix_eq {pre rest : List Char} {c : Char} (hname : name.toList = pre ++ '.' :: c :: rest)
    (hdots : '.' ∉ c :: rest) :
    suffix name = if pre = [] then "" else String.ofList ('.' :: c :: rest) := by
  have hlast : text.afterLast ['.'] ('.' :: c :: rest) = some (c :: rest) := by
    rw [text.afterLast, text.afterLast_eq_none (List.mem_singleton_self _) hdots]
    simp
  have hlength : name.length = pre.length + (rest.length + 2) := by
    rw [← String.length_toList, hname, List.length_append, List.length_cons, List.length_cons]
  have hempty : name.length = rest.length + 2 ↔ pre = [] := by
    rw [hlength, ← List.length_eq_zero_iff]
    omega
  rw [suffix, hname, text.afterLast_append pre hlast]
  simp only [hempty]

theorem supported_mem : supportedUploadExtension name = true ↔
    ∃ extension ∈ uploadExtensions,
      (name.toList.drop (name.length - extension.length)).map Char.toLower = extension.toList := by
  rw [supportedUploadExtension, List.any_eq_true]
  simp only [decide_eq_true_eq]

/-- The suffix is an extension of a name that ends with one and is more than that. -/
theorem media_type_isSome_iff (hreads : ReadsNames storage database) :
    (sources.media_type storage.formats name).isSome = true ↔
      supportedUploadExtension name = true ∧
        name.toList.map Char.toLower ∉ uploadExtensions.map String.toList := by
  have hkeys (key : String) :
      (sources.MEDIA_TYPES.lookup key).isSome = true ↔ key ∈ uploadExtensions := by
    have hmap : uploadExtensions = sources.MEDIA_TYPES.map (·.1) := rfl
    rw [List.lookup_isSome_iff, hmap, List.mem_map]
    apply exists_congr
    intro entry
    rw [beq_iff_eq, eq_comm]
  have hlower {value : String} (hascii : ∀ c ∈ value.toList, c.toNat < 128) :
      (storage.formats.lower value).toList = value.toList.map Char.toLower := by
    rw [storage.formats.lower_ascii value hascii, String.toList_map]
  rw [sources.media_type, hkeys, supported_mem]
  constructor
  · intro hmem
    have hlowered := hlower (hreads.lower (suffix name) hmem)
    have hcase : (suffix name).toList.map Char.toLower ∈ uploadExtensions.map String.toList :=
      List.mem_map.mpr ⟨_, hmem, hlowered⟩
    obtain ⟨c, rest, hshape, hdots, -⟩ := shape_of_lower hcase
    have hne : suffix name ≠ "" := by
      intro hempty
      rw [hempty] at hshape
      cases hshape
    obtain ⟨pre, hname⟩ := sources.suffix_spec hne
    have hsuffix := suffix_eq (hname.trans (by rw [hshape])) hdots
    have hpre : pre ≠ [] := fun hnil => hne (hsuffix.trans (if_pos hnil))
    constructor
    · refine ⟨_, hmem, ?_⟩
      have hdrop : name.length - (storage.formats.lower (suffix name)).length = pre.length := by
        rw [← String.length_toList, ← String.length_toList, hlowered, hname, List.length_map,
          List.length_append, Nat.add_sub_cancel]
      rw [hdrop, hname, List.drop_left, hlowered]
    · intro hbare
      obtain ⟨c', rest', hwhole, hwhole_dots, -⟩ := shape_of_lower hbare
      rw [hname, hshape] at hwhole
      cases pre with
      | nil => exact hpre rfl
      | cons head pre =>
        apply hwhole_dots
        rw [← (List.cons.inj hwhole).2]
        exact List.mem_append_right _ List.mem_cons_self
  · rintro ⟨⟨extension, hextension, hends⟩, hbare⟩
    have hcase : (name.toList.drop (name.length - extension.length)).map Char.toLower ∈
        uploadExtensions.map String.toList := List.mem_map.mpr ⟨_, hextension, hends.symm⟩
    obtain ⟨c, rest, hshape, hdots, hascii⟩ := shape_of_lower hcase
    have hname := (List.take_append_drop (name.length - extension.length) name.toList).symm
    have hpre : name.toList.take (name.length - extension.length) ≠ [] := by
      intro hnil
      rw [hnil, List.nil_append] at hname
      rw [← hname] at hcase
      exact hbare hcase
    rw [hshape] at hname
    rw [suffix_eq hname hdots, if_neg hpre, ← hshape]
    have hlowered := @hlower (String.ofList
      (name.toList.drop (name.length - extension.length))) (by rwa [String.toList_ofList])
    rw [String.toList_ofList, hends] at hlowered
    rw [String.toList_inj.mp hlowered]
    exact hextension

/-- The two sides agree on blank ends of a name without controls and format characters. -/
theorem is_stripped_eq (hreads : ReadsNames storage database)
    (hsafe : unsafeFilenameCharacter database name = false) :
    is_stripped storage name = is_trimmed name := by
  have hspace : ∀ c ∈ name.toList, unicode.python_space c = unicode.javascript_space c := by
    intro c hc
    have hcategory := List.any_eq_false.mp hsafe c hc
    simp only [decide_eq_true_eq, not_or, List.mem_cons, List.not_mem_nil, or_false] at hcategory
    exact (database.space_eq hcategory.2.2.1 hcategory.2.2.2.1).symm
  have hany : ∀ found : Option Char, (∀ c ∈ found, c ∈ name.toList) →
      found.any unicode.python_space = found.any unicode.javascript_space := by
    intro found hfound
    cases found with
    | none => rfl
    | some c => exact hspace c (hfound c rfl)
  have hhead := hany _ fun c hc => List.mem_of_mem_head? hc
  have hlast := hany _ fun c hc => List.mem_of_getLast? hc
  rw [is_stripped, is_trimmed, hreads.space, hhead, hlast]

theorem safe_iff : unsafeFilenameCharacter database name = false ↔
    '/' ∉ name.toList ∧ '\\' ∉ name.toList ∧
      ∀ c ∈ name.toList, database.category c ∉ [.Cc, .Cf, .Cs] := by
  rw [unsafeFilenameCharacter, List.any_eq_false]
  simp only [decide_eq_true_eq, not_or]
  constructor
  · intro h
    exact ⟨fun hslash => (h _ hslash).2.1 rfl, fun hback => (h _ hback).1 rfl,
      fun c hc => (h c hc).2.2⟩
  · rintro ⟨hslash, hback, hcategory⟩ c hc
    exact ⟨fun hsame => hback (hsame ▸ hc), fun hsame => hslash (hsame ▸ hc), hcategory c hc⟩

theorem visible_iff {category : unicode.Category} : category.is_other = false ↔
    category ∉ [.Cc, .Cf, .Cs] ∧ category ∉ [.Co, .Cn] := by
  cases category <;> decide

/-- The server accepts the well named files that have a stem and no unassigned and no private
use characters. -/
theorem validate_filename_iff (hreads : ReadsNames storage database) :
    validate_filename storage name = .ok () ↔ WellNamed database name ∧
      (∀ c ∈ name.toList, database.category c ∉ [.Co, .Cn]) ∧
      name.toList.map Char.toLower ∉ uploadExtensions.map String.toList := by
  have hcontrol : name.toList.any storage.names.is_control = true ↔
      ¬∀ c ∈ name.toList, (database.category c).is_other = false := by
    rw [hreads.control, List.any_eq_true]
    simp only [not_forall, Bool.not_eq_false, exists_prop]
  have hformat := @media_type_isSome_iff database storage name hreads
  constructor
  · intro h
    rw [validate_filename] at h
    split_ifs at h with hchecks hmedia
    rw [hcontrol, hreads.nfc] at hchecks
    simp only [not_or, not_not, Bool.not_eq_false, Nat.not_lt] at hchecks
    obtain ⟨-, -, hstripped, hslash, hback, hshort, hnfc, hvisible⟩ := hchecks
    rw [Bool.not_eq_true, Option.isNone_eq_false_iff, hformat] at hmedia
    have hsafe := safe_iff.mpr ⟨hslash, hback, fun c hc => (visible_iff.mp (hvisible c hc)).1⟩
    rw [is_stripped_eq hreads hsafe] at hstripped
    exact ⟨⟨hstripped, hnfc, hshort, hsafe, hmedia.1⟩,
      fun c hc => (visible_iff.mp (hvisible c hc)).2, hmedia.2⟩
  · rintro ⟨hname, hassigned, hstem⟩
    obtain ⟨hne, hdot, hdots⟩ := supported_ne_empty hname.supported
    obtain ⟨hslash, hback, hcategory⟩ := safe_iff.mp hname.safe
    have hvisible : ∀ c ∈ name.toList, (database.category c).is_other = false :=
      fun c hc => visible_iff.mpr ⟨hcategory c hc, hassigned c hc⟩
    have hmedia := hformat.mpr ⟨hname.supported, hstem⟩
    have hstripped := (is_stripped_eq hreads hname.safe).trans hname.trimmed
    have hchecks : ¬(name = "" ∨ name ∈ [".", ".."] ∨ is_stripped storage name = false ∨
        '/' ∈ name.toList ∨ '\\' ∈ name.toList ∨ 255 < name.utf8ByteSize ∨
        storage.names.nfc name ≠ name ∨ name.toList.any storage.names.is_control = true) := by
      rw [hcontrol, hreads.nfc]
      simp only [not_or, ne_eq, not_not, Nat.not_lt, Bool.not_eq_false]
      exact ⟨hne, by simp [hdot, hdots], hstripped, hslash, hback, hname.short, hname.nfc, hvisible⟩
    rw [validate_filename, if_neg hchecks, if_neg]
    rw [Bool.not_eq_true, Option.isNone_eq_false_iff]
    exact hmedia

theorem length_le_utf8ByteSize (value : String) : value.length ≤ value.utf8ByteSize := by
  have hlist (l : List Char) : l.length ≤ (String.ofList l).utf8ByteSize := by
    induction l with
    | nil => exact Nat.zero_le _
    | cons c l ih =>
      have hpos := c.utf8Size_pos
      rw [← List.singleton_append, String.ofList_append, String.utf8ByteSize_append,
        ← String.singleton_eq_ofList, String.utf8ByteSize_singleton, List.length_append,
        List.length_singleton]
      omega
  have hvalue := hlist value.toList
  rwa [String.ofList_toList, String.length_toList] at hvalue

theorem digitChar_mem : ∀ n < 16, Nat.digitChar n ∈ registry.hex_characters := by
  decide

/-- Bytes are written with two digits each. -/
theorem byte_hex_valid (bytes : List UInt8) :
    (bytes.flatMap byte_hex).length = 2 * bytes.length ∧
      ∀ c ∈ bytes.flatMap byte_hex, c ∈ registry.hex_characters := by
  constructor
  · induction bytes with
    | nil => rfl
    | cons byte bytes ih =>
      rw [List.flatMap_cons, List.length_append, ih, List.length_cons]
      change 2 + _ = _
      omega
  · intro c hc
    obtain ⟨byte, -, hdigit⟩ := List.mem_flatMap.mp hc
    have hbyte := byte.toNat_lt
    rcases List.mem_pair.mp hdigit with rfl | rfl
    · exact digitChar_mem _ (by omega)
    · exact digitChar_mem _ (by omega)

/-- The declaration of a well named file lacks at most a size or a short media type. -/
theorem declaration_valid_iff (hne : file.name ≠ "") (hshort : file.name.utf8ByteSize ≤ 255) :
    file.declaration.is_valid = true ↔ file.type.length ≤ 255 ∧ 0 < file.size := by
  obtain ⟨hlength, hdigits⟩ := byte_hex_valid file.digest.toList
  have hname : 1 ≤ file.name.length := by
    rw [Nat.one_le_iff_ne_zero, ← String.length_toList, ne_eq, List.length_eq_zero_iff,
      String.toList_eq_nil_iff]
    exact hne
  have hname_short := (length_le_utf8ByteSize file.name).trans hshort
  have hsha : (String.ofList (file.digest.toList.flatMap byte_hex)).length = 64 := by
    rw [String.length_ofList, hlength, Vector.length_toList]
  have hhex : (String.ofList (file.digest.toList.flatMap byte_hex)).toList.all
      (· ∈ registry.hex_characters) = true := by
    rw [String.toList_ofList, List.all_eq_true]
    exact fun c hc => decide_eq_true (hdigits c hc)
  have htype : 1 ≤ file.declaration.media_type.length ∧ file.declaration.media_type.length ≤ 255 ↔
      file.type.length ≤ 255 := by
    simp only [File.declaration]
    by_cases hempty : file.type = ""
    · rw [if_pos hempty, hempty]
      decide
    · have hpos : file.type.length ≠ 0 := by
        rw [← String.length_toList, ne_eq, List.length_eq_zero_iff, String.toList_eq_nil_iff]
        exact hempty
      rw [if_neg hempty]
      omega
  rw [registry.UploadFileDeclaration.is_valid, decide_eq_true_eq, ← and_assoc (a := 1 ≤
    file.declaration.media_type.length), htype]
  exact ⟨fun h => ⟨h.2.2.1, h.2.2.2.1⟩,
    fun h => ⟨hname, hname_short, h.1, h.2, hsha, hhex⟩⟩

/-- The server accepts the admissible selections that are ordinary. -/
theorem check_ok_iff (hreads : ReadsNames storage database) :
    check_upload_request storage limits (files.map File.declaration) = .ok () ↔
      Admissible database limits files ∧ Ordinary database files := by
  rw [registry.check_upload_request_ok, registry.is_valid_upload_request, decide_eq_true_eq,
    List.length_map, List.all_eq_true, List.forall_mem_map, List.forall_mem_map,
    List.forall_mem_map, List.map_map, List.map_map]
  constructor
  · rintro ⟨⟨hpos, hhundred, hvalid⟩, hnames, hunique, hcount, hsizes, htotal⟩
    have hnamed (file : File) (hfile : file ∈ files) :=
      (validate_filename_iff hreads).mp (hnames file hfile)
    have hdeclared (file : File) (hfile : file ∈ files) := by
      have hname := (hnamed file hfile).1
      exact (declaration_valid_iff (supported_ne_empty hname.supported).1 hname.short).mp
        (hvalid file hfile)
    constructor
    · constructor
      case nonempty => exact List.length_pos_iff.mp hpos
      case count => exact hcount
      case names => exact fun file hfile => (hnamed file hfile).1
      case unique => exact hunique
      case sizes => exact fun file hfile => ⟨(hdeclared file hfile).2, hsizes file hfile⟩
      case total => exact htotal
    · constructor
      case count => exact hhundred
      case types => exact fun file hfile => (hdeclared file hfile).1
      case assigned => exact fun file hfile => (hnamed file hfile).2.1
      case stems => exact fun file hfile => (hnamed file hfile).2.2
  · rintro ⟨hadmissible, hordinary⟩
    refine ⟨⟨List.length_pos_iff.mpr hadmissible.nonempty, hordinary.count, ?_⟩, ?_,
      hadmissible.unique, hadmissible.count, fun file hfile => (hadmissible.sizes file hfile).2,
      hadmissible.total⟩
    · intro file hfile
      have hname := hadmissible.names file hfile
      apply (declaration_valid_iff (supported_ne_empty hname.supported).1 hname.short).mpr
      exact ⟨hordinary.types file hfile, (hadmissible.sizes file hfile).1⟩
    · intro file hfile
      apply (validate_filename_iff hreads).mpr
      exact ⟨hadmissible.names file hfile, hordinary.assigned file hfile,
        hordinary.stems file hfile⟩

end Server

/-- The client and the server agree on a selection if and only if it is ordinary, as far as it
is admissible at all. -/
theorem selection_agrees_iff (hreads : ReadsNames storage database) (limits : UploadLimits)
    (files : List File) :
    (validateUploadSelection database limits files = none ↔
        check_upload_request storage limits (files.map File.declaration) = .ok ()) ↔
      (Admissible database limits files → Ordinary database files) := by
  rw [validate_eq_none, check_ok_iff hreads]
  tauto

section Stems

/-- The categories of the ASCII characters and of those that the database names. -/
def plain_category (c : Char) : unicode.Category :=
  if c.toNat < 0x20 ∨ 0x7f ≤ c.toNat ∧ c.toNat < 0xa0 then .Cc
  else if c.toNat = 0xfeff then .Cf else .visible

theorem plain_controls (c : Char) (hc : c.toNat ∈ [0x1c, 0x1d, 0x1e, 0x1f, 0x85]) :
    plain_category c = .Cc := by
  simp only [List.mem_cons, List.not_mem_nil, or_false] at hc
  rw [plain_category, if_pos (by omega)]

theorem plain_no_break (c : Char) (hc : c.toNat = 0xfeff) : plain_category c = .Cf := by
  rw [plain_category, if_neg (by omega), if_pos hc]

def plain_database : unicode.Database where
  category := plain_category
  nfc := id
  controls := plain_controls
  no_break := plain_no_break

theorem plain_lower_ascii : ∀ value : String, (∀ c ∈ value.toList, c.toNat < 128) →
    value.map Char.toLower = value.map Char.toLower :=
  fun _ _ => rfl

def plain_storage : ProjectStorage where
  root := "/data"
  max_file_bytes := 2097152
  max_extracted_bytes := 2097152
  max_files := 100
  max_total_bytes := 33554432
  formats :=
    { lower := fun value => value.map Char.toLower
      is_space := unicode.python_space
      html_signature := fun _ => false
      extract_html := fun _ _ => .ok none
      extract_pdf := fun _ => .ok none
      extract_docx := fun _ _ => .error "DOCX conversion failed"
      lower_ascii := plain_lower_ascii }
  names := ⟨id, fun c => (plain_category c).is_other⟩
  sha256 := fun raw => toString raw.length

theorem plain_reads : ReadsNames plain_storage plain_database where
  space := rfl
  nfc := rfl
  control := rfl
  lower := by
    intro value hmem c hc
    have hlower : value.toList.map Char.toLower ∈ uploadExtensions.map String.toList :=
      List.mem_map.mpr ⟨_, hmem, String.toList_map⟩
    obtain ⟨-, -, -, -, hascii⟩ := shape_of_lower hlower
    exact hascii c hc

def default_limits : UploadLimits := ⟨2097152, 100, 33554432⟩

def stemless_file : File := ⟨".md", 1, "text/markdown", Vector.replicate 32 0⟩

theorem selection_agrees_iff_stemless :
    (validateUploadSelection plain_database default_limits [stemless_file] = none ↔
        check_upload_request plain_storage default_limits
          ([stemless_file].map File.declaration) = .ok ()) ↔
      (Admissible plain_database default_limits [stemless_file] →
        Ordinary plain_database [stemless_file]) :=
  selection_agrees_iff plain_reads default_limits [stemless_file]

/-- The client offers a file that is named by an extension alone, and the server refuses it. -/
theorem stemless_file_refused : ¬∀ (database : unicode.Database) (storage : ProjectStorage)
    (limits : UploadLimits) (files : List File), ReadsNames storage database →
    (validateUploadSelection database limits files = none ↔
      check_upload_request storage limits (files.map File.declaration) = .ok ()) := by
  intro h
  have hsame := h plain_database plain_storage default_limits [stemless_file] plain_reads
  have haccepted : validateUploadSelection plain_database default_limits [stemless_file] = none := by
    decide
  rw [hsame, check_ok_iff plain_reads] at haccepted
  have hstem := haccepted.2.stems stemless_file (List.mem_singleton_self _)
  exact hstem (by decide)

end Stems

end lagraph.web
