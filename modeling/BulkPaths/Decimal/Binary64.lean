/-!
Double precision numbers as exact fractions: taking one apart, and rounding a quotient of natural
numbers to the nearest one.
-/

namespace BulkPaths.Binary64

inductive Shape
  | nan
  | infinite (negative : Bool)
  /-- The magnitude is `significand * 2 ^ exponent`. -/
  | finite (negative : Bool) (significand : Nat) (exponent : Int)
  deriving DecidableEq, Repr

def hiddenBit : Nat := 0x10000000000000

def signBit : Nat := 0x8000000000000000

def shape (x : Float) : Shape :=
  let bits := x.toBits.toNat
  let negative := bits.testBit 63
  let field : Nat := bits / hiddenBit % 2048
  let fraction := bits % hiddenBit
  if field = 2047 then
    if fraction = 0 then .infinite negative else .nan
  else if field = 0 then .finite negative fraction (-1074)
  else .finite negative (hiddenBit + fraction) ((field : Int) - 1075)

/-- `significand * 2 ^ exponent` as numerator and denominator. -/
def fraction (significand : Nat) (exponent : Int) : Nat × Nat :=
  if 0 ≤ exponent then (significand <<< exponent.toNat, 1)
  else (significand, 1 <<< (-exponent).toNat)

/-- `num / den` to the nearest integer, a half to the even one. -/
def roundDiv (num den : Nat) : Nat :=
  let quotient := num / den
  let rest := num % den
  if 2 * rest < den then quotient
  else if den < 2 * rest then quotient + 1
  else quotient + quotient % 2

/-- `num / den / 2 ^ exponent` as numerator and denominator. -/
def scaled (num den : Nat) (exponent : Int) : Nat × Nat :=
  if 0 ≤ exponent then (num, den <<< exponent.toNat)
  else (num <<< (-exponent).toNat, den)

/-- The exponent that leaves `num / den` an integral part of 53 bits, or the least exponent. -/
def exponentFor (num den : Nat) : Int :=
  let guess : Int := (num.log2 : Int) - den.log2 - 53
  let (n, d) := scaled num den guess
  max (if n / d < 2 * hiddenBit then guess else guess + 1) (-1074)

/-- The bits of the double nearest to `num / den`, the sign bit apart, before the range is
tested. A significand rounded up to `2 ^ 53` carries into the exponent field. -/
def nearestBits (num den : Nat) : Nat :=
  if num = 0 then 0
  else
    let exponent := exponentFor num den
    let (n, d) := scaled num den exponent
    (exponent + 1074).toNat * hiddenBit + roundDiv n d

def infinityBits : Nat := 2047 * hiddenBit

def ofMagnitude (negative : Bool) (bits : Nat) : Float :=
  Float.ofBits (UInt64.ofNat (if negative then signBit + bits else bits))

def infinity (negative : Bool) : Float := ofMagnitude negative infinityBits

def nan : Float := ofMagnitude false (infinityBits + hiddenBit / 2)

/-- The double nearest to `num / den`, none if that is beyond the largest one. -/
def nearest? (negative : Bool) (num den : Nat) : Option Float :=
  let bits := nearestBits num den
  if bits < infinityBits then some (ofMagnitude negative bits) else none

def ofInt? (n : Int) : Option Float := nearest? (n < 0) n.natAbs 1

/-- `digits * 10 ^ exponent`, rounded; beyond the largest double it is infinite. Exponents far
outside the range are decided by size alone. -/
def ofDecimal (negative : Bool) (digits : Nat) (exponent : Int) : Float :=
  if digits = 0 then ofMagnitude negative 0
  else if 0 ≤ exponent then
    if 1100 < digits.log2 + 3 * exponent then infinity negative
    else (nearest? negative (digits * Nat.pow 10 exponent.toNat) 1).getD (infinity negative)
  else if digits.log2 + 3 * exponent < -1200 then ofMagnitude negative 0
  else (nearest? negative digits (Nat.pow 10 (-exponent).toNat)).getD (infinity negative)

/-- Whether an integer is below a double, compared exactly; nothing is below a NaN. -/
def intBelow (n : Int) (x : Float) : Bool :=
  match shape x with
  | .nan => false
  | .infinite negative => !negative
  | .finite negative significand exponent =>
    let (num, den) := fraction significand exponent
    n * den < (if negative then -(num : Int) else num)

end BulkPaths.Binary64
