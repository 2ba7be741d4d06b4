import BulkPaths.Fault

/-!
What can be spelled. A whole number of too many digits cannot, and neither can a list or a record in
which others lie too deep within one another.
-/

namespace BulkPaths

/-- How many levels of values may lie within one that is spelled or read. A machine that keeps count
of its open calls sets these limits, and they are not the same at all places: of the calls that it
takes those are left that do not stand open already. -/
class NestingLimits where
  /-- In an option that is taken as a text. -/
  option : Nat
  /-- In a value that is named by the message of a fault. -/
  message : Nat
  /-- In a line of JSON that is read. -/
  document : Nat

/-- A thousand calls may be open at a time, of which ten or so lead to the value. -/
instance : NestingLimits := { option := 990, message := 990, document := 990 }

namespace Value

mutual

/-- How many levels of values lie within the value. -/
def nesting : Value → Nat
  | .list items => itemsNesting items
  | .record fields => fieldsNesting fields
  | _ => 0

def itemsNesting : List Value → Nat
  | [] => 0
  | item :: rest => max (item.nesting + 1) (itemsNesting rest)

def fieldsNesting : List (String × Value) → Nat
  | [] => 0
  | (_, value) :: rest => max (value.nesting + 1) (fieldsNesting rest)

end

mutual

/-- What keeps the value from being spelled with at most `depth` levels of values within it. Of
several such faults it is the one that is met first, from left to right. -/
def spellingFault? : Nat → Value → Option Fault
  | _, .int n => if (Value.int n).isSpellable then none else some .longNumeral
  | depth, .list items => itemsFault? depth items
  | depth, .record fields => fieldsFault? depth fields
  | _, _ => none

def itemsFault? : Nat → List Value → Option Fault
  | _, [] => none
  | 0, _ :: _ => some .tooNested
  | depth + 1, item :: rest => (item.spellingFault? depth).or (itemsFault? (depth + 1) rest)

def fieldsFault? : Nat → List (String × Value) → Option Fault
  | _, [] => none
  | 0, _ :: _ => some .tooNested
  | depth + 1, (_, value) :: rest =>
    (value.spellingFault? depth).or (fieldsFault? (depth + 1) rest)

end

end Value

/-- Whether the identifier can be spelled; a number of too many digits cannot. -/
def VertexId.isPrintable (id : VertexId) : Bool := id.toValue.isSpellable

end BulkPaths
