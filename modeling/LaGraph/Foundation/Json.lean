import Mathlib.Data.String.Basic

namespace foundation.json

/-- A hexadecimal digit, in lower case. -/
def hexDigit (n : Nat) : Char :=
  "0123456789abcdef".toList.getD n '0'

/-- One character inside a JSON string; other characters than quotes,
backslashes and controls stand for themselves. -/
def escape (c : Char) : List Char :=
  if c = '"' then ['\\', '"']
  else if c = '\\' then ['\\', '\\']
  else if c = '\n' then ['\\', 'n']
  else if c = '\r' then ['\\', 'r']
  else if c = '\t' then ['\\', 't']
  else if c.toNat = 8 then ['\\', 'b']
  else if c.toNat = 12 then ['\\', 'f']
  else if c.toNat < 32 then
    ['\\', 'u', '0', '0', hexDigit (c.toNat / 16), hexDigit (c.toNat % 16)]
  else [c]

def str (s : String) : String :=
  "\"" ++ String.ofList (s.toList.flatMap escape) ++ "\""

/-- A four-digit escape of a UTF-16 code unit. -/
def codeUnit (n : Nat) : List Char :=
  ['\\', 'u', hexDigit (n / 4096), hexDigit (n / 256 % 16), hexDigit (n / 16 % 16),
    hexDigit (n % 16)]

/-- One character inside an ASCII JSON string: what is not printable ASCII is escaped,
as two surrogates beyond the basic plane. -/
def escapeAscii (c : Char) : List Char :=
  if 32 ≤ c.toNat ∧ c.toNat ≤ 126 ∨ c.toNat < 32 ∧ (escape c).length = 2 then escape c
  else if c.toNat < 65536 then codeUnit c.toNat
  else
    codeUnit (55296 + (c.toNat - 65536) / 1024) ++ codeUnit (56320 + (c.toNat - 65536) % 1024)

def asciiStr (s : String) : String :=
  "\"" ++ String.ofList (s.toList.flatMap escapeAscii) ++ "\""

def null : String := "null"

def optional (s : Option String) : String :=
  s.elim null str

/-- An array of encoded values, in compact form. -/
def array (values : List String) : String :=
  "[" ++ ",".intercalate values ++ "]"

/-- An object of keys and encoded values, in compact form. -/
def object (fields : List (String × String)) : String :=
  "\x7b" ++ ",".intercalate (fields.map fun field => str field.1 ++ ":" ++ field.2) ++ "\x7d"

/-- A JSON value. Strings are lists of code points, for an escape can give a surrogate
that stands alone; a number with a fraction or an exponent is kept as its text. -/
inductive Value
  | null
  | bool (value : Bool)
  | int (value : Int)
  | float (text : List Char)
  | str (codes : List Nat)
  | arr (items : List Value)
  | obj (fields : List (List Nat × Value))

/-- The code points of a text. -/
def codes (s : String) : List Nat :=
  s.toList.map Char.toNat

def Value.text (s : String) : Value :=
  .str (codes s)

/-- The value of a key; the last of several counts. -/
def Value.get (key : String) : Value → Option Value
  | .obj fields => (fields.reverse.find? (·.1 = codes key)).map (·.2)
  | _ => none

/-- How many blanks follow the mark between two items, and the one behind a key. -/
structure Spacing where
  item : Nat
  key : Nat

def compact : Spacing where
  item := 0
  key := 0

/-- The spacing of the library where none is given. -/
def spaced : Spacing where
  item := 1
  key := 1

section Dumps

/-- The escape of a code point in ASCII text. -/
def escapeCode (n : Nat) : List Char :=
  if n = 34 then ['\\', '"']
  else if n = 92 then ['\\', '\\']
  else if n = 10 then ['\\', 'n']
  else if n = 13 then ['\\', 'r']
  else if n = 9 then ['\\', 't']
  else if n = 8 then ['\\', 'b']
  else if n = 12 then ['\\', 'f']
  else if 32 ≤ n ∧ n ≤ 126 then [Char.ofNat n]
  else if n < 65536 then codeUnit n
  else codeUnit (55296 + (n - 65536) / 1024) ++ codeUnit (56320 + (n - 65536) % 1024)

def dumpsStr (codes : List Nat) : List Char :=
  '"' :: codes.flatMap escapeCode ++ ['"']

def dumpsInt : Int → List Char
  | .ofNat n => Nat.toDigits 10 n
  | .negSucc n => '-' :: Nat.toDigits 10 (n + 1)

variable (spacing : Spacing)

def comma : List Char :=
  ',' :: List.replicate spacing.item ' '

def colon : List Char :=
  ':' :: List.replicate spacing.key ' '

mutual

/-- `json.dumps` in ASCII. -/
def dumps : Value → List Char
  | .null => "null".toList
  | .bool true => "true".toList
  | .bool false => "false".toList
  | .int value => dumpsInt value
  | .float text => text
  | .str codes => dumpsStr codes
  | .arr items => '[' :: dumpsItems items
  | .obj fields => '\x7b' :: dumpsFields fields

/-- The rest of an array. -/
def dumpsItems : List Value → List Char
  | [] => [']']
  | [v] => dumps v ++ [']']
  | v :: w :: vs => dumps v ++ (comma spacing ++ dumpsItems (w :: vs))

/-- The rest of an object. -/
def dumpsFields : List (List Nat × Value) → List Char
  | [] => ['\x7d']
  | [(key, v)] => dumpsStr key ++ (colon spacing ++ (dumps v ++ ['\x7d']))
  | (key, v) :: field :: fields =>
    dumpsStr key ++
      (colon spacing ++ (dumps v ++ (comma spacing ++ dumpsFields (field :: fields))))

end

end Dumps

section Loads

/-- The blanks between tokens. -/
def skip : List Char → List Char :=
  List.dropWhile fun c => c = ' ' ∨ c = '\t' ∨ c = '\n' ∨ c = '\r'

def hexValue (c : Char) : Option Nat :=
  if c.isDigit then some (c.toNat - 48)
  else if 'a' ≤ c ∧ c ≤ 'f' then some (c.toNat - 87)
  else if 'A' ≤ c ∧ c ≤ 'F' then some (c.toNat - 55)
  else none

def hex4 (a b c d : Char) : Option Nat := do
  let a ← hexValue a
  let b ← hexValue b
  let c ← hexValue c
  let d ← hexValue d
  some (((a * 16 + b) * 16 + c) * 16 + d)

/-- The escapes of one character. -/
def simpleEscape (c : Char) : Option Nat :=
  if c = '"' then some 34
  else if c = '\\' then some 92
  else if c = '/' then some 47
  else if c = 'b' then some 8
  else if c = 'f' then some 12
  else if c = 'n' then some 10
  else if c = 'r' then some 13
  else if c = 't' then some 9
  else none

/-- The characters of a string up to its closing quote, each escape by itself. -/
def units : List Char → Option (List Nat × List Char)
  | [] => none
  | '"' :: s => some ([], s)
  | '\\' :: 'u' :: a :: b :: c :: d :: s => do
    let n ← hex4 a b c d
    let (ns, rest) ← units s
    some (n :: ns, rest)
  | '\\' :: e :: s => do
    let n ← simpleEscape e
    let (ns, rest) ← units s
    some (n :: ns, rest)
  | c :: s => do
    let (ns, rest) ← if c = '\\' ∨ c.toNat < 32 then none else units s
    some (c.toNat :: ns, rest)

/-- Two surrogates that make one code point. -/
def surrogates (high low : Nat) : Bool :=
  55296 ≤ high && high ≤ 56319 && 56320 ≤ low && low ≤ 57343

/-- Surrogates that follow each other are joined. -/
def join : List Nat → List Nat
  | high :: low :: ns =>
    if surrogates high low then
      (65536 + (high - 55296) * 1024 + (low - 56320)) :: join ns
    else high :: join (low :: ns)
  | ns => ns

def string (s : List Char) : Option (List Nat × List Char) :=
  (units s).map fun result => (join result.1, result.2)

/-- What follows a fraction, if there is one. -/
def afterFraction : List Char → List Char
  | '.' :: s => if s.takeWhile Char.isDigit = [] then '.' :: s else s.dropWhile Char.isDigit
  | s => s

def afterSign : List Char → List Char
  | '+' :: s => s
  | '-' :: s => s
  | s => s

/-- What follows an exponent, if there is one. -/
def afterExponent : List Char → List Char
  | c :: s =>
    if c = 'e' ∨ c = 'E' then
      if (afterSign s).takeWhile Char.isDigit = [] then c :: s
      else (afterSign s).dropWhile Char.isDigit
    else c :: s
  | [] => []

/-- The digits of an integer: a zero, or digits that start with another one. -/
def integerDigits : List Char → List Char
  | '0' :: _ => ['0']
  | s => s.takeWhile Char.isDigit

/-- More digits than these are no integer. -/
def MAX_STR_DIGITS : Nat := 4300

def afterMinus : List Char → List Char
  | '-' :: s => s
  | s => s

def number (s : List Char) : Option (Value × List Char) :=
  let unsigned := afterMinus s
  let negative := unsigned.length < s.length
  let ds := integerDigits unsigned
  let s' := unsigned.drop ds.length
  let rest := afterExponent (afterFraction s')
  if ds = [] then none
  else if rest.length < s'.length then some (.float (s.take (s.length - rest.length)), rest)
  else if MAX_STR_DIGITS < ds.length then none
  else
    let n : Int := Nat.ofDigitChars 10 ds 0
    some (.int (if negative then -n else n), s')

/-- The names of values that are no JSON except for the library. -/
def constants : List (List Char × Value) :=
  [("null".toList, .null), ("true".toList, .bool true), ("false".toList, .bool false),
   ("NaN".toList, .float "NaN".toList), ("Infinity".toList, .float "Infinity".toList),
   ("-Infinity".toList, .float "-Infinity".toList)]

/-- A constant or a number. -/
def scalar (s : List Char) : Option (Value × List Char) :=
  match constants.find? (·.1.isPrefixOf s) with
  | some (name, v) => some (v, s.drop name.length)
  | none => number s

mutual

/-- The value at the start of the text, by at most `fuel` nested steps. -/
def value : Nat → List Char → Option (Value × List Char)
  | 0, _ => none
  | fuel + 1, s =>
    match s with
    | '"' :: s => (string s).map fun result => (.str result.1, result.2)
    | '[' :: s =>
      match skip s with
      | ']' :: rest => some (.arr [], rest)
      | s => (elements fuel s).map fun result => (.arr result.1, result.2)
    | '\x7b' :: s =>
      match skip s with
      | '\x7d' :: rest => some (.obj [], rest)
      | s => (members fuel s).map fun result => (.obj result.1, result.2)
    | s => scalar s

/-- The items of an array up to its end. -/
def elements : Nat → List Char → Option (List Value × List Char)
  | 0, _ => none
  | fuel + 1, s => do
    let (v, s) ← value fuel s
    match skip s with
    | ']' :: rest => some ([v], rest)
    | ',' :: s =>
      let (vs, rest) ← elements fuel (skip s)
      some (v :: vs, rest)
    | _ => none

/-- The fields of an object up to its end. -/
def members : Nat → List Char → Option (List (List Nat × Value) × List Char)
  | 0, _ => none
  | fuel + 1, s =>
    match s with
    | '"' :: s => do
      let (key, s) ← string s
      match skip s with
      | ':' :: s =>
        let (v, s) ← value fuel (skip s)
        match skip s with
        | '\x7d' :: rest => some ([(key, v)], rest)
        | ',' :: s =>
          let (fields, rest) ← members fuel (skip s)
          some ((key, v) :: fields, rest)
        | _ => none
      | _ => none
    | _ => none

end

/-- `json.loads` of a text; `none` where it raises. -/
def loads (s : List Char) : Option Value :=
  match value (2 * s.length + 2) (skip s) with
  | some (v, rest) => if skip rest = [] then some v else none
  | none => none

end Loads

end foundation.json
