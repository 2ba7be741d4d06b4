import BulkPaths.Spelling
import BulkPaths.Weight

/-!
Best known path of a vertex.
-/

namespace BulkPaths

variable {W : Type} [PathWeight W]

structure PathValue (W : Type) where
  reachable : Bool
  weight : W
  /-- Vertices from the source to the vertex itself. -/
  path : List VertexId
  deriving DecidableEq, Repr

namespace PathValue

def unreached : PathValue W :=
  { reachable := false, weight := PathWeight.infinite, path := [] }

def source (id : VertexId) : PathValue W :=
  { reachable := true, weight := PathWeight.zero, path := [id] }

/-- A refusal names the vertex, if that can be spelled. -/
def refusal (id : VertexId) (fault : Fault) : Fault :=
  if id.isPrintable then fault else .longNumeral

/-- Takes a path that ends at the sender; the weight has to be below the current one and finite.
`candidate` is how messages spell the weight. -/
def adoptWhen (value : PathValue W) (id : VertexId) (sent : List VertexId)
    (shorter finite : Bool) (candidate : String) (weight : W) : Except Fault (PathValue W) :=
  if !shorter then .error (refusal id (.notShorter id candidate (PathWeight.text value.weight)))
  else if !finite then .error (refusal id (.notFinite id candidate))
  else .ok { reachable := true, weight, path := sent ++ [id] }

def adopt (value : PathValue W) (id : VertexId) (sent : List VertexId) (weight : W) :
    Except Fault (PathValue W) :=
  value.adoptWhen id sent (PathWeight.less weight value.weight) (PathWeight.isFinite weight)
    (PathWeight.text weight) weight

/-- A weight as given: numbers are compared as they are, before they become doubles. Truth values
count as 0 and 1. -/
def candidate? : Value → Option Number
  | .bool b => some (.int (if b then 1 else 0))
  | value => value.number?

def adoptGiven (value : PathValue Float) (id : VertexId) (sent : List VertexId) (given : Value) :
    Except Fault (PathValue Float) :=
  match candidate? given with
  | none => .error .notComparable
  | some number =>
    let shorter := number.isBelow value.weight
    match number.toFloat? with
    | some weight =>
      value.adoptWhen id sent shorter weight.isFinite given.plain weight
    | none =>
      if shorter then .error .tooLarge
      else if given.isSpellable then
        .error (refusal id (.notShorter id given.plain (Decimal.text value.weight)))
      else .error .longNumeral

end PathValue

end BulkPaths
