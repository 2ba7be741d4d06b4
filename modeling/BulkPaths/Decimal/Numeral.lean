import BulkPaths.Decimal.Binary64
import BulkPaths.Text.Blank
import BulkPaths.Text.Digit

/-!
Reading numerals. White space around a numeral is ignored, except for the information separators
U+001C to U+001F; the digits of every script count, and a single underscore may stand between two
digits.
-/

namespace BulkPaths.Decimal

open BulkPaths.Text

/-- Longest integer numeral, in digits, that is read. -/
def digitLimit : Nat := 4300

def isPadding (c : Char) : Bool := isBlank c && !(0x1C ≤ c.toNat && c.toNat ≤ 0x1F)

def unpadded (cs : List Char) : List Char :=
  ((cs.dropWhile isPadding).reverse.dropWhile isPadding).reverse

inductive NumeralError
  | malformed
  | tooLong
  deriving DecidableEq, Repr

/-- Digits with single underscores between them; the underscores are left out. -/
def digitRun? : List Char → Option (List Char)
  | [] => none
  | [c] => if isDigit c then some [c] else none
  | c :: '_' :: rest => if isDigit c then (digitRun? rest).map (c :: ·) else none
  | c :: rest => if isDigit c then (digitRun? rest).map (c :: ·) else none

/-- Splits off a leading sign; true is minus. -/
def takeSign : List Char → Bool × List Char
  | '-' :: rest => (true, rest)
  | '+' :: rest => (false, rest)
  | cs => (false, cs)

def withSign (negative : Bool) (n : Nat) : Int := if negative then -(n : Int) else n

def limited (negative : Bool) (digits : List Char) : Except NumeralError Int :=
  if digitLimit < digits.length then .error .tooLong
  else .ok (withSign negative (digitsValue digits))

def readInt (cs : List Char) : Except NumeralError Int :=
  let (negative, body) := takeSign (unpadded cs)
  match digitRun? body with
  | none => .error .malformed
  | some digits => limited negative digits

/-- The longest prefix of digits and underscores, and the rest. -/
def spanRun (cs : List Char) : List Char × List Char :=
  cs.span fun c => isDigit c || c == '_'

/-- A run of digits that may be missing altogether. -/
def optionalRun? (cs : List Char) : Option (List Char) :=
  if cs.isEmpty then some [] else digitRun? cs

/-- What follows the mantissa: nothing, or `e`, a sign and digits. -/
def readExponent? : List Char → Option Int
  | [] => some 0
  | e :: rest =>
    if e = 'e' ∨ e = 'E' then
      let (negative, body) := takeSign rest
      (digitRun? body).map fun digits => withSign negative (digitsValue digits)
    else none

def readMagnitude? (negative : Bool) (cs : List Char) : Option Float :=
  let (wholeRun, afterWhole) := spanRun cs
  let (tailRun, afterTail) :=
    match afterWhole with
    | '.' :: rest => spanRun rest
    | rest => ([], rest)
  match optionalRun? wholeRun, optionalRun? tailRun, readExponent? afterTail with
  | some whole, some tail, some exponent =>
    if whole.isEmpty && tail.isEmpty then none
    else some (Binary64.ofDecimal negative (digitsValue (whole ++ tail)) (exponent - tail.length))
  | _, _, _ => none

def readFloat? (cs : List Char) : Option Float :=
  let (negative, body) := takeSign (unpadded cs)
  let word := body.map Char.toLower
  if word = "inf".toList ∨ word = "infinity".toList then some (Binary64.infinity negative)
  else if word = "nan".toList then some Binary64.nan
  else readMagnitude? negative body

end BulkPaths.Decimal
