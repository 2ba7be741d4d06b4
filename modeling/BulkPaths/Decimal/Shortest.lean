import BulkPaths.Decimal.Binary64
import BulkPaths.Decimal.Layout

/-!
Decimal texts of doubles: the fewest digits that read back, and a fixed number of significant
digits.
-/

namespace BulkPaths.Decimal

open Binary64

/-- The decimal exponent of the first digit of `num / den`. -/
def leadExponent (num den : Nat) : Int :=
  if den ≤ num then ((digitChars (num / den)).length : Int) - 1
  else -((digitChars ((den - 1) / num)).length : Int)

/-- `num / den * 10 ^ shift` as numerator and denominator. -/
def shifted (num den : Nat) (shift : Int) : Nat × Nat :=
  if 0 ≤ shift then (num * Nat.pow 10 shift.toNat, den)
  else (num, den * Nat.pow 10 (-shift).toNat)

/-- The nearer of two candidates that read back, on a tie the even one. -/
def choose (num den low : Nat) (lowReads highReads : Bool) : Option Nat :=
  match lowReads, highReads with
  | true, true => some (roundDiv num den)
  | true, false => some low
  | false, true => some (low + 1)
  | false, false => none

/-- The number of `count` significant digits that reads back as `bits`, if there is one. -/
def shortestAt? (bits num den count : Nat) : Option (Nat × Int) :=
  let unit := leadExponent num den - count + 1
  let (n, d) := shifted num den (-unit)
  let low := n / d
  let reads := fun candidate : Nat =>
    let (cn, cd) := shifted candidate 1 unit
    nearestBits cn cd == bits
  (choose n d low (reads low) (reads (low + 1))).map fun digits => (digits, unit)

/-- Seventeen digits always read back. -/
def shortest (bits num den : Nat) : Nat × Int :=
  ((List.range 17).findSome? fun i => shortestAt? bits num den (i + 1)).getD
    (0, 0)

/-- `value * 10 ^ unit` with its digits spelled out and no zero at the end. -/
def Digits.ofScaled (value : Nat) (unit : Int) : Digits :=
  let all := digitChars value
  { digits := dropFinalZeros all, exponent := unit + all.length - 1 }

/-- `num / den` rounded to `count` significant digits. -/
def significant (num den count : Nat) : Digits :=
  let unit := leadExponent num den - count + 1
  let (n, d) := shifted num den (-unit)
  Digits.ofScaled (roundDiv n d) unit

/-- Numbers from `0.0001` up to below `10 ^ 16` are written in positions, with a point. -/
def shortestLayout : Layout := { least := -4, bound := 16, pointed := true }

/-- Six digits; numbers from `0.0001` up to below a million are written in positions. -/
def generalLayout : Layout := { least := -4, bound := 6, pointed := false }

def signed (negative : Bool) (cs : List Char) : String :=
  String.ofList (if negative then '-' :: cs else cs)

def zeroDigits : Digits := { digits := ['0'], exponent := 0 }

def write (layout : Layout) (digitsOf : Nat → Nat → Digits) (x : Float) : String :=
  match shape x with
  | .nan => "nan"
  | .infinite negative => signed negative ['i', 'n', 'f']
  | .finite negative significand exponent =>
    let (num, den) := fraction significand exponent
    signed negative <| layout.write <|
      if significand = 0 then zeroDigits else digitsOf num den

def text (x : Float) : String :=
  write shortestLayout
    (fun num den =>
      let (value, unit) := shortest (nearestBits num den) num den
      Digits.ofScaled value unit)
    x

/-- Six significant digits, zeros at the end left out. -/
def general (x : Float) : String := write generalLayout (significant · · 6) x

end BulkPaths.Decimal
