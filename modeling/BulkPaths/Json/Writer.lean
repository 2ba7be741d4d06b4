import BulkPaths.Value

/-!
Values as JSON text in ASCII, with a space after every comma and colon.
-/

namespace BulkPaths.Json

open Text

/-- The UTF-16 units of a code point. -/
def units (n : Nat) : List Nat :=
  if n < 0x10000 then [n]
  else [0xD800 + (n - 0x10000) / 0x400, 0xDC00 + (n - 0x10000) % 0x400]

def escapeUnit (n : Nat) : List Char := '\\' :: 'u' :: hex 4 n

def escape (c : Char) : List Char :=
  if c = '"' ∨ c = '\\' then ['\\', c]
  else if c = '\n' then ['\\', 'n']
  else if c = '\r' then ['\\', 'r']
  else if c = '\t' then ['\\', 't']
  else if c.toNat = 8 then ['\\', 'b']
  else if c.toNat = 12 then ['\\', 'f']
  else if 0x20 ≤ c.toNat ∧ c.toNat < 0x7F then [c]
  else (units c.toNat).flatMap escapeUnit

def quote (s : String) : String :=
  String.ofList ('"' :: s.toList.flatMap escape ++ ['"'])

/-- Numbers that are not finite have names. -/
def number (x : Float) : String :=
  match Binary64.shape x with
  | .nan => "NaN"
  | .infinite true => "-Infinity"
  | .infinite false => "Infinity"
  | .finite .. => Decimal.text x

mutual

def write : Value → String
  | .null => "null"
  | .bool b => if b then "true" else "false"
  | .int n => toString n
  | .real x => number x
  | .text s => quote s
  | .uuid u => quote u.toText
  | .list items => "[" ++ Value.commaSeparated (writeItems items) ++ "]"
  | .record fields => "\x7b" ++ Value.commaSeparated (writeFields fields) ++ "\x7d"

def writeItems : List Value → List String
  | [] => []
  | item :: rest => write item :: writeItems rest

def writeFields : List (String × Value) → List String
  | [] => []
  | (name, value) :: rest => (quote name ++ ": " ++ write value) :: writeFields rest

end

end BulkPaths.Json
