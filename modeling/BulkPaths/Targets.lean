import BulkPaths.Fault
import BulkPaths.IdSet
import BulkPaths.Text.Lines

/-!
The vertices that a job is asked about. A list of identifiers is separated by commas; a single star
stands for every vertex.
-/

namespace BulkPaths

open Text

inductive Targets
  | all
  | single (id : VertexId)
  /-- At least two identifiers. -/
  | multiple (ids : IdSet)
  deriving DecidableEq, Repr

namespace Targets

def quantity : Targets → Quantity
  | .all => .all
  | .single _ => .single
  | .multiple _ => .multiple

def ids : Targets → IdSet
  | .all => []
  | .single id => [id]
  | .multiple ids => ids

def single? : Targets → Option VertexId
  | .single id => some id
  | _ => none

def contains (targets : Targets) (id : VertexId) : Bool := targets.ids.contains id

/-- The targets of a quantity, if the number of distinct identifiers fits it. -/
def ofQuantity (quantity : Quantity) (ids : List VertexId) : Except Fault Targets :=
  match quantity, IdSet.ofList ids with
  | .all, [] => .ok .all
  | .all, _ :: _ => .error (.targetCount .all)
  | _, [] => .error (.targetCount .all)
  | .single, [id] => .ok (.single id)
  | .single, _ => .error (.targetCount .single)
  | .multiple, [_] => .error (.targetCount .multiple)
  | .multiple, ids => .ok (.multiple ids)

def ofIds (ids : IdSet) : Targets :=
  match ids with
  | [id] => .single id
  | ids => .multiple ids

/-- Wraps a fault about an identifier; any other passes. -/
def wrap (outer : Fault → Fault) (fault : Fault) : Fault :=
  match fault.kind with
  | .input => outer fault
  | _ => fault

def star : List Char := ['*']

def parse (raw : String) : Except Fault Targets :=
  if isBlankText raw then .error .blankTarget
  else
    let tokens := (cutAt ',' raw.toList).map trim
    if tokens.any List.isEmpty then .error (.emptyTarget raw)
    else if tokens.contains star then
      if tokens.length = 1 then .ok .all else .error (.starNotAlone raw)
    else
      match tokens.mapM VertexId.parseChars with
      | .ok ids => .ok (ofIds (IdSet.ofList ids))
      | .error e => .error (wrap (.badTarget raw) (.ofParse e))

def toText : Targets → String
  | .all => "*"
  | targets => ",".intercalate (targets.ids.map VertexId.toText)

/-- The source is exactly one identifier. -/
def parseSource (raw : String) : Except Fault VertexId :=
  if isBlankText raw then .error .blankSource
  else
    let text := trim raw.toList
    if text = star ∨ ',' ∈ text then .error (.severalSources raw)
    else (VertexId.parseChars text).mapError fun e => wrap .badSource (.ofParse e)

end Targets

end BulkPaths
