import BulkPaths.Text.Digit

/-!
Universally unique identifiers and their hyphenated text.
-/

namespace BulkPaths

/-- Thirty-two hexadecimal digits, the most significant first. -/
structure Uuid where
  digits : List (Fin 16)
  size : digits.length = 32
  deriving DecidableEq, Repr

namespace Uuid

/-- Lengths of the groups that hyphens separate. -/
def groups : List Nat := [8, 4, 4, 4, 12]

/-- Reads groups of the given lengths, with a hyphen after each but the last. -/
def readGroups? : List Nat → List Char → Option (List (Fin 16))
  | [], [] => some []
  | [], _ :: _ => none
  | size :: sizes, cs =>
    let rest := cs.drop size
    let hyphen := !sizes.isEmpty
    if hyphen && rest.head? != some '-' then none
    else
      match (cs.take size).mapM Text.hexDigit?,
          readGroups? sizes (if hyphen then rest.tail else rest) with
      | some front, some back => some (front ++ back)
      | _, _ => none

def ofChars? (cs : List Char) : Option Uuid :=
  match readGroups? groups cs with
  | none => none
  | some digits => if size : digits.length = 32 then some { digits, size } else none

def writeGroups : List Nat → List (Fin 16) → List Char
  | [], _ => []
  | [_], digits => digits.map Text.hexChar
  | size :: sizes, digits =>
    (digits.take size).map Text.hexChar ++ '-' :: writeGroups sizes (digits.drop size)

def toText (u : Uuid) : String := String.ofList (writeGroups groups u.digits)

/-- Digit strings of one length compare as the numbers they spell. -/
def cmp (u v : Uuid) : Ordering := compareLex u.digits v.digits
where
  compareLex : List (Fin 16) → List (Fin 16) → Ordering
    | [], [] => .eq
    | [], _ :: _ => .lt
    | _ :: _, [] => .gt
    | a :: as, b :: bs => (compare a.val b.val).then (compareLex as bs)

end Uuid

end BulkPaths
