import BulkPaths.PathValue

/-!
Candidate paths on their way to a neighbour, and the choice of the best among them.
-/

namespace BulkPaths

variable {W : Type} [PathWeight W]

structure Message (W : Type) where
  /-- Vertices from the source to the sender. -/
  path : List VertexId
  /-- Weight of the path and of the edge to the recipient. -/
  weight : W
  deriving DecidableEq, Repr

namespace Message

/-- Lower weight first, then the shorter path, then the path with the smaller identifiers. Weights
that are not the same decide alone. -/
def precedes (first second : Message W) : Bool :=
  if PathWeight.same first.weight second.weight then
    (compare first.path.length second.path.length).then
      (VertexId.cmpPath first.path second.path) != .gt
  else PathWeight.less first.weight second.weight

def combine (first second : Message W) : Message W :=
  if first.precedes second then first else second

def combineInto (held : Option (Message W)) (message : Message W) : Message W :=
  match held with
  | none => message
  | some first => first.combine message

def combineAll (messages : List (Message W)) : Option (Message W) :=
  messages.foldl (fun held message => some (combineInto held message)) none

def sender (message : Message W) : Except Fault VertexId :=
  match message.path.getLast? with
  | some id => .ok id
  | none => .error .emptyPath

/-- The double that a given weight stands for: a number, a truth value or a numeral. -/
def weightOf : Value → Except Fault Float
  | .bool b => .ok (if b then 1 else 0)
  | .int n => (Number.int n).toFloat?.elim (.error .tooLarge) .ok
  | .real x => .ok x
  | .text s => (Decimal.readFloat? s.toList).elim (.error .notANumeral) .ok
  | _ => .error .notComparable

def ofValue (path : List VertexId) (weight : Value) : Except Fault (Message Float) :=
  (weightOf weight).map fun weight => { path, weight }

end Message

end BulkPaths
