import BulkPaths.Assoc
import BulkPaths.Spelling
import BulkPaths.Text.Lines

/-!
Reading JSON text. The numbers that are not finite may be named, a member that comes again takes
the new value in its old place, and control characters may not stand inside a text.
-/

namespace BulkPaths.Json

open Text

def isSpace (c : Char) : Bool := c == ' ' || c == '\t' || c == '\n' || c == '\r'

def skipSpace (cs : List Char) : List Char := cs.dropWhile isSpace

def hexUnit? (a b c d : Char) : Option Nat := do
  return ((← hexValue? a) * 16 + (← hexValue? b)) * 256 + (← hexValue? c) * 16 + (← hexValue? d)

def simpleEscape? : Char → Option Nat
  | '"' => some 0x22
  | '\\' => some 0x5C
  | '/' => some 0x2F
  | 'b' => some 0x08
  | 'f' => some 0x0C
  | 'n' => some 0x0A
  | 'r' => some 0x0D
  | 't' => some 0x09
  | _ => none

/-- The units of a text up to its closing quote, and what follows. -/
def scanText : List Char → Option (List Nat × List Char)
  | [] => none
  | '"' :: rest => some ([], rest)
  | '\\' :: 'u' :: a :: b :: c :: d :: rest =>
    match hexUnit? a b c d, scanText rest with
    | some unit, some (units, after) => some (unit :: units, after)
    | _, _ => none
  | '\\' :: c :: rest =>
    match simpleEscape? c, scanText rest with
    | some unit, some (units, after) => some (unit :: units, after)
    | _, _ => none
  | c :: rest =>
    if c.toNat < 0x20 then none
    else (scanText rest).map fun (units, after) => (c.toNat :: units, after)

/-- Joins surrogate pairs. A surrogate on its own is no character, and no text here can hold it; the
replacement character stands for it. -/
def joinUnits : List Nat → List Char
  | [] => []
  | high :: low :: rest =>
    if 0xD800 ≤ high ∧ high < 0xDC00 ∧ 0xDC00 ≤ low ∧ low < 0xE000 then
      Char.ofNat (0x10000 + (high - 0xD800) * 0x400 + (low - 0xDC00)) :: joinUnits rest
    else single high :: joinUnits (low :: rest)
  | [unit] => [single unit]
where
  single (unit : Nat) : Char :=
    if 0xD800 ≤ unit ∧ unit < 0xE000 then Char.ofNat 0xFFFD else Char.ofNat unit

def isAsciiDigit (c : Char) : Bool := '0' ≤ c && c ≤ '9'

/-- A point and at least one digit, if they come next. -/
def takeFraction (cs : List Char) : List Char × List Char :=
  match cs with
  | '.' :: rest =>
    let (digits, after) := rest.span isAsciiDigit
    if digits.isEmpty then ([], cs) else (digits, after)
  | _ => ([], cs)

/-- `e`, a sign and at least one digit, if they come next. -/
def takeExponent? (cs : List Char) : Option (Int × List Char) :=
  match cs with
  | [] => none
  | e :: rest =>
    if e = 'e' ∨ e = 'E' then
      let (negative, body) := Decimal.takeSign rest
      let (digits, after) := body.span isAsciiDigit
      if digits.isEmpty then none
      else some (Decimal.withSign negative (digitsValue digits), after)
    else none

/-- The whole part: a zero alone, or digits that do not begin with a zero. -/
def takeWhole? (cs : List Char) : Option (List Char × List Char) :=
  match cs with
  | '0' :: rest => some (['0'], rest)
  | _ =>
    let (digits, after) := cs.span isAsciiDigit
    if digits.isEmpty then none else some (digits, after)

def scanNumber (negative : Bool) (cs : List Char) : Except Fault (Value × List Char) :=
  match takeWhole? cs with
  | none => .error .malformedJson
  | some (whole, afterWhole) =>
    let (tail, afterTail) := takeFraction afterWhole
    match takeExponent? afterTail with
    | none =>
      if tail.isEmpty then
        match Decimal.limited negative whole with
        | .ok n => .ok (.int n, afterTail)
        | .error _ => .error .longNumeral
      else .ok (.real (Binary64.ofDecimal negative (digitsValue (whole ++ tail)) (-tail.length)),
        afterTail)
    | some (exponent, after) =>
      .ok (.real (Binary64.ofDecimal negative (digitsValue (whole ++ tail))
        (exponent - tail.length)), after)

def words : List (String × Value) :=
  [("null", .null), ("true", .bool true), ("false", .bool false), ("NaN", .real Binary64.nan),
    ("Infinity", .real (Binary64.infinity false)), ("-Infinity", .real (Binary64.infinity true))]

/-- A value that holds no other: a word or a number. -/
def scanScalar (cs : List Char) : Except Fault (Value × List Char) :=
  match words.findSome? fun (word, value) => (after? word cs).map fun rest => (value, rest) with
  | some found => .ok found
  | none =>
    match cs with
    | '-' :: rest => scanNumber true rest
    | _ => scanNumber false cs

mutual

/-- Reads one value, with at most `depth` lists and objects open at a time; the fuel bounds the
number of calls. -/
def scanValue : Nat → Nat → List Char → Except Fault (Value × List Char)
  | 0, _, _ => .error .malformedJson
  | fuel + 1, depth, cs =>
    match cs with
    | '"' :: rest =>
      match scanText rest with
      | some (units, after) => .ok (.text (String.ofList (joinUnits units)), after)
      | none => .error .malformedJson
    | '[' :: rest =>
      if depth = 0 then .error (.tooDeep "array")
      else
        match skipSpace rest with
        | ']' :: after => .ok (.list [], after)
        | start =>
          (scanItems fuel (depth - 1) start).map fun (items, after) => (.list items, after)
    | '\x7b' :: rest =>
      if depth = 0 then .error (.tooDeep "object")
      else
        match skipSpace rest with
        | '\x7d' :: after => .ok (.record [], after)
        | start =>
          (scanMembers fuel (depth - 1) [] start).map fun (fields, after) =>
            (.record fields, after)
    | _ => scanScalar cs

def scanItems : Nat → Nat → List Char → Except Fault (List Value × List Char)
  | 0, _, _ => .error .malformedJson
  | fuel + 1, depth, cs => do
    let (item, after) ← scanValue fuel depth cs
    match skipSpace after with
    | ']' :: rest => .ok ([item], rest)
    | ',' :: rest =>
      let (items, rest) ← scanItems fuel depth (skipSpace rest)
      .ok (item :: items, rest)
    | _ => .error .malformedJson

/-- Members up to the closing brace, after those read before. -/
def scanMembers : Nat → Nat → Properties → List Char → Except Fault (Properties × List Char)
  | 0, _, _, _ => .error .malformedJson
  | fuel + 1, depth, fields, cs =>
    match cs with
    | '"' :: rest =>
      match scanText rest with
      | none => .error .malformedJson
      | some (units, after) =>
        match skipSpace after with
        | ':' :: rest => do
          let (value, after) ← scanValue fuel depth (skipSpace rest)
          let fields := Assoc.put (String.ofList (joinUnits units)) value fields
          match skipSpace after with
          | '\x7d' :: rest => .ok (fields, rest)
          | ',' :: rest => scanMembers fuel depth fields (skipSpace rest)
          | _ => .error .malformedJson
        | _ => .error .malformedJson
    | _ => .error .malformedJson

end

/-- Reads a text that holds exactly one value, with at most `depth` lists and objects within one
another. -/
def readWithin (depth : Nat) (cs : List Char) : Except Fault Value :=
  match scanValue (2 * cs.length + 2) depth (skipSpace cs) with
  | .error fault => .error fault
  | .ok (value, after) =>
    if (skipSpace after).isEmpty then .ok value else .error .malformedJson

def read [NestingLimits] (cs : List Char) : Except Fault Value :=
  readWithin NestingLimits.document cs

end BulkPaths.Json
