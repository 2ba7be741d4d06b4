/-!
How the digits of a decimal number are laid out on the line.
-/

namespace BulkPaths.Decimal

/-- Digits `d₀ d₁ d₂ …` stand for `d₀.d₁d₂… * 10 ^ exponent`. -/
structure Digits where
  digits : List Char
  exponent : Int
  deriving DecidableEq, Repr

structure Layout where
  /-- Least decimal exponent that is written in positional notation. -/
  least : Int
  /-- First decimal exponent that is too large for positional notation. -/
  bound : Int
  /-- An integral number in positional notation keeps a point and a zero. -/
  pointed : Bool

def digitChars (n : Nat) : List Char := Nat.toDigits 10 n

def dropFinalZeros (digits : List Char) : List Char :=
  match (digits.reverse.dropWhile (· = '0')).reverse with
  | [] => ['0']
  | kept => kept

def Layout.positional (layout : Layout) (digits : List Char) (exponent : Int) : List Char :=
  if exponent < 0 then '0' :: '.' :: List.replicate (-exponent - 1).toNat '0' ++ digits
  else
    let whole := exponent.toNat + 1
    let front := digits.take whole ++ List.replicate (whole - digits.length) '0'
    match digits.drop whole with
    | [] => if layout.pointed then front ++ ['.', '0'] else front
    | tail => front ++ '.' :: tail

/-- One digit before the point, and an exponent with a sign and at least two digits. -/
def scientific (digits : List Char) (exponent : Int) : List Char :=
  let mantissa :=
    match digits with
    | d :: e :: rest => d :: '.' :: e :: rest
    | short => short
  let size := digitChars exponent.natAbs
  let sign := if exponent < 0 then '-' else '+'
  mantissa ++ 'e' :: sign :: (if size.length < 2 then '0' :: size else size)

def Layout.write (layout : Layout) (number : Digits) : List Char :=
  if layout.least ≤ number.exponent ∧ number.exponent < layout.bound then
    layout.positional number.digits number.exponent
  else scientific number.digits number.exponent

end BulkPaths.Decimal
