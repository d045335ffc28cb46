import Mathlib.Algebra.Ring.Nat
import Mathlib.Data.List.Basic

/-! # JSON

Values, the compact text of a value, and a reader that refuses values that are nested too deeply. The numbers that
are no integers are left open. -/

/-- A JSON value over a type of floating-point numbers. The entries of an object are sorted by their names. -/
inductive Json (φ : Type) where
  | null
  | bool (b : Bool)
  | int (n : Int)
  | float (x : φ)
  | string (s : List Char)
  | array (items : List (Json φ))
  | object (entries : List (List Char × Json φ))

namespace Json
variable {φ : Type}

/-- Sets the entry of a name. -/
def insertEntry (name : List Char) (value : Json φ) : List (List Char × Json φ) → List (List Char × Json φ)
  | [] => [(name, value)]
  | entry :: entries =>
    if name = entry.1 then (name, value) :: entries
    else if name < entry.1 then (name, value) :: entry :: entries
    else entry :: insertEntry name value entries

/-! ### Writing -/

def hexDigit (n : Nat) : Char := Nat.digitChar (n % 16)

def escape (c : Char) : List Char :=
  if c = '"' then ['\\', '"']
  else if c = '\\' then ['\\', '\\']
  else if c = '\n' then ['\\', 'n']
  else if c = '\r' then ['\\', 'r']
  else if c = '\t' then ['\\', 't']
  else if c = '\x08' then ['\\', 'b']
  else if c = '\x0c' then ['\\', 'f']
  else if c.toNat < 32 then ['\\', 'u', '0', '0', hexDigit (c.toNat / 16), hexDigit c.toNat]
  else [c]

def quote (s : List Char) : List Char := '"' :: s.flatMap escape ++ ['"']

section Write
variable (printFloat : φ → List Char)

mutual

def write : Json φ → List Char
  | .null => ['n', 'u', 'l', 'l']
  | .bool true => ['t', 'r', 'u', 'e']
  | .bool false => ['f', 'a', 'l', 's', 'e']
  | .int n => (toString n).toList
  | .float x => printFloat x
  | .string s => quote s
  | .array items => '[' :: [','].intercalate (writeItems items) ++ [']']
  | .object entries => '{' :: [','].intercalate (writeEntries entries) ++ ['}']

def writeItems : List (Json φ) → List (List Char)
  | [] => []
  | item :: items => write item :: writeItems items

def writeEntries : List (List Char × Json φ) → List (List Char)
  | [] => []
  | (name, value) :: entries => (quote name ++ ':' :: write value) :: writeEntries entries

end

end Write

/-! ### Reading -/

def skipSpace : List Char → List Char
  | c :: text => if c = ' ' ∨ c = '\n' ∨ c = '\r' ∨ c = '\t' then skipSpace text else c :: text
  | [] => []

def hexValue (c : Char) : Option Nat :=
  if c.isDigit then some (c.toNat - '0'.toNat)
  else if 'a' ≤ c ∧ c ≤ 'f' then some (c.toNat - 'a'.toNat + 10)
  else if 'A' ≤ c ∧ c ≤ 'F' then some (c.toNat - 'A'.toNat + 10)
  else none

def hexValue4 (a b c d : Char) : Option Nat := do
  return (((← hexValue a) * 16 + (← hexValue b)) * 16 + (← hexValue c)) * 16 + (← hexValue d)

/-- The rest of a string behind its opening quote. -/
def readString : List Char → Option (List Char × List Char)
  | '"' :: text => some ([], text)
  | '\\' :: 'u' :: a :: b :: c :: d :: '\\' :: 'u' :: a' :: b' :: c' :: d' :: text => do
    let high ← hexValue4 a b c d
    if 0xd800 ≤ high ∧ high < 0xdc00 then
      let low ← hexValue4 a' b' c' d'
      if 0xdc00 ≤ low ∧ low < 0xe000 then
        let (s, rest) ← readString text
        return (Char.ofNat (0x10000 + (high - 0xd800) * 0x400 + (low - 0xdc00)) :: s, rest)
      else none
    else if 0xdc00 ≤ high ∧ high < 0xe000 then none
    else
      let (s, rest) ← readString ('\\' :: 'u' :: a' :: b' :: c' :: d' :: text)
      return (Char.ofNat high :: s, rest)
  | '\\' :: 'u' :: a :: b :: c :: d :: text => do
    let code ← hexValue4 a b c d
    if 0xd800 ≤ code ∧ code < 0xe000 then none
    else
      let (s, rest) ← readString text
      return (Char.ofNat code :: s, rest)
  | '\\' :: c :: text => do
    let plain ← match c with
      | '"' => some '"'
      | '\\' => some '\\'
      | '/' => some '/'
      | 'b' => some '\x08'
      | 'f' => some '\x0c'
      | 'n' => some '\n'
      | 'r' => some '\r'
      | 't' => some '\t'
      | _ => none
    let (s, rest) ← readString text
    return (plain :: s, rest)
  | c :: text => if c.toNat < 32 then none else (readString text).map fun (s, rest) => (c :: s, rest)
  | [] => none

def isNumberChar (c : Char) : Bool := c.isDigit || c == '-' || c == '+' || c == '.' || c == 'e' || c == 'E'

/-- Digits without a leading zero. -/
def readNat : List Char → Option Nat
  | [] => none
  | ['0'] => some 0
  | '0' :: _ => none
  | digits => if digits.all Char.isDigit then some (Nat.ofDigitChars 10 digits 0) else none

section Read
variable (readFloat : List Char → Option φ)

/-- Reads a number: an integer of 64 bits, or else what `readFloat` makes of it. -/
def readNumber (text : List Char) : Option (Json φ × List Char) :=
  let token := text.takeWhile isNumberChar
  let rest := text.dropWhile isNumberChar
  let integer := match token with
    | '-' :: digits => (readNat digits).bind fun n => if 0 < n ∧ n ≤ 2 ^ 63 then some (-(n : Int)) else none
    | digits => (readNat digits).bind fun n => if n < 2 ^ 64 then some (n : Int) else none
  match integer with
  | some n => some (.int n, rest)
  | none => (readFloat token).map fun x => (.float x, rest)

mutual

/-- Reads a value. An array or an object needs more than one level that is left; `fuel` bounds the recursion. -/
def readValue : Nat → Nat → List Char → Option (Json φ × List Char)
  | 0, _, _ => none
  | fuel + 1, levels, text =>
    match skipSpace text with
    | 'n' :: 'u' :: 'l' :: 'l' :: rest => some (.null, rest)
    | 't' :: 'r' :: 'u' :: 'e' :: rest => some (.bool true, rest)
    | 'f' :: 'a' :: 'l' :: 's' :: 'e' :: rest => some (.bool false, rest)
    | '"' :: rest => (readString rest).map fun (s, rest) => (.string s, rest)
    | '[' :: rest =>
      if levels ≤ 1 then none
      else
        match skipSpace rest with
        | ']' :: rest => some (.array [], rest)
        | rest => (readItems fuel (levels - 1) rest).map fun (items, rest) => (.array items, rest)
    | '{' :: rest =>
      if levels ≤ 1 then none
      else
        match skipSpace rest with
        | '}' :: rest => some (.object [], rest)
        | rest => (readEntries fuel (levels - 1) rest []).map fun (entries, rest) => (.object entries, rest)
    | text => readNumber readFloat text

/-- Reads the items of an array and its closing bracket. -/
def readItems : Nat → Nat → List Char → Option (List (Json φ) × List Char)
  | 0, _, _ => none
  | fuel + 1, levels, text =>
    match readValue fuel levels text with
    | none => none
    | some (item, rest) =>
      match skipSpace rest with
      | ']' :: rest => some ([item], rest)
      | ',' :: rest => (readItems fuel levels rest).map fun (items, rest) => (item :: items, rest)
      | _ => none

/-- Reads the entries of an object and its closing brace; the last entry of a name counts. -/
def readEntries : Nat → Nat → List Char → List (List Char × Json φ) → Option (List (List Char × Json φ) × List Char)
  | 0, _, _, _ => none
  | fuel + 1, levels, text, entries =>
    match skipSpace text with
    | '"' :: rest =>
      match readString rest with
      | none => none
      | some (name, rest) =>
        match skipSpace rest with
        | ':' :: rest =>
          match readValue fuel levels rest with
          | none => none
          | some (value, rest) =>
            match skipSpace rest with
            | '}' :: rest => some (insertEntry name value entries, rest)
            | ',' :: rest => readEntries fuel levels rest (insertEntry name value entries)
            | _ => none
        | _ => none
    | _ => none

end

/-- Reads a whole text, in which arrays and objects are nested in less than `levels` levels. -/
def read (levels : Nat) (text : List Char) : Option (Json φ) :=
  match readValue readFloat (2 * text.length + 1) levels text with
  | some (value, rest) => if skipSpace rest = [] then some value else none
  | none => none

end Read

end Json
