import LaGraph.Plsql.Rows

open foundation

namespace lagraph.plsql

/-- How resolving a path fails: `OSError`, `ValueError` for a null byte, or `RuntimeError`
for a loop of symbolic links. -/
inductive ResolveError
  | os_error
  | value_error
  | runtime_error
  deriving DecidableEq, Repr

def ResolveError.raised : ResolveError → Raised
  | .os_error => .os_error
  | .value_error => .value_error
  | .runtime_error => .runtime_error

/-- The file system under the gateway. A path is its parts, with `"/"` first
when it is absolute. -/
structure FileSystem where
  /-- `path.resolve()`. -/
  resolve : List String → Except ResolveError (List String)
  /-- `path.resolve(strict=True)`. -/
  resolve_strict : List String → Except ResolveError (List String)
  /-- `path.stat().st_size`; `none` when it raises. -/
  st_size : List String → Option Nat
  /-- `path.read_bytes()`; `none` when it raises. -/
  read_bytes : List String → Option (List UInt8)

/-- `Path(s).parts`. -/
def path_parts (s : String) : List String :=
  let names := (text.segments '/' s).filter fun part => part ≠ "" ∧ part ≠ "."
  if text.startsWith s "/" then "/" :: names else names

def is_absolute (parts : List String) : Bool :=
  parts.head? == some "/"

def source_unavailable : Raised :=
  .gateway (.PlsqlObjectNotFound "The requested source file is unavailable.")

def source_root (root : Option String) : Except Raised (List String) :=
  match root with
  | some root =>
    if root = "" then
      .error (.gateway (.PlsqlNotConfigured "The PL/SQL source root is not configured."))
    else .ok (path_parts root)
  | none => .error (.gateway (.PlsqlNotConfigured "The PL/SQL source root is not configured."))

/-- A project-relative path resolved strictly under `root`; an escape looks like
a missing file. -/
def resolve_source_file (files : FileSystem) (root : List String) (relative_path : String) :
    Except Raised (List String) :=
  if relative_path = "" then .error source_unavailable
  else
    let candidate := path_parts relative_path
    if is_absolute candidate ∨ ".." ∈ candidate then .error source_unavailable
    else do
      let resolved_root ← (files.resolve root).mapError ResolveError.raised
      match files.resolve_strict (root ++ candidate) with
      | .error .os_error => .error source_unavailable
      | .error failure => .error failure.raised
      | .ok resolved =>
        if resolved_root.isPrefixOf resolved then .ok resolved else .error source_unavailable

/-- The line boundaries of `str.splitlines` other than carriage return. -/
def LINE_BOUNDARIES : List Char :=
  ['\n', '\x0b', '\x0c', '\x1c', '\x1d', '\x1e', '\u0085', '\u2028', '\u2029']

/-- `s.splitlines()`: a boundary ends a line, and carriage return and line feed
are one boundary; `line` is the current line backwards. -/
def splitlines (line : List Char) : List Char → List String
  | [] => if line = [] then [] else [String.ofList line.reverse]
  | '\r' :: '\n' :: s => String.ofList line.reverse :: splitlines [] s
  | c :: s =>
    if c = '\r' ∨ c ∈ LINE_BOUNDARIES then String.ofList line.reverse :: splitlines [] s
    else splitlines (c :: line) s

example : splitlines [] "a\r\nb\n\nc".toList = ["a", "b", "", "c"] := by decide

def read_source_lines (files : FileSystem) (decode : List UInt8 → String)
    (resolved : List String) (max_bytes : Nat) : Except Raised (List String) :=
  match files.st_size resolved with
  | none => .error source_unavailable
  | some size =>
    if size > max_bytes then
      .error (.gateway
        (.PlsqlLimitExceeded "The source file exceeds the configured byte cap."))
    else
      match files.read_bytes resolved with
      | none => .error source_unavailable
      | some raw => .ok (splitlines [] (decode raw).toList)

structure PlsqlFileRecord where
  file_id : String
  path : String
  deriving DecidableEq, Repr

structure PlsqlSourceHighlight where
  start_line : Int
  end_line : Int
  deriving DecidableEq, Repr

structure PlsqlSourceRecord where
  file : PlsqlFileRecord
  lines : List String
  highlight : Option PlsqlSourceHighlight
  deriving DecidableEq, Repr

/-- `max(start_line, end_line or start_line)`. -/
def source_highlight (start_line end_line : Option Int) : Option PlsqlSourceHighlight :=
  start_line.map fun start =>
    let stop := match end_line with
      | some stop => if stop = 0 then start else stop
      | none => start
    { start_line := start, end_line := max start stop }

/-- `_load_source`. -/
def load_source (files : FileSystem) (decode : List UInt8 → String) (root : Option String)
    (max_source_bytes : Nat) (file_id path : String) (start_line end_line : Option Int) :
    Except Raised PlsqlSourceRecord := do
  let root ← source_root root
  let resolved ← resolve_source_file files root path
  let lines ← read_source_lines files decode resolved max_source_bytes
  .ok { file := { file_id, path }, lines, highlight := source_highlight start_line end_line }

end lagraph.plsql
