import BulkPaths.Graph
import BulkPaths.Json.Reader
import BulkPaths.Json.Writer
import BulkPaths.Members
import BulkPaths.Text.Lines

/-!
Edge lists as one JSON object per line, with the ends `u` and `v` and perhaps `properties`.
Identifiers keep their JSON type.
-/

namespace BulkPaths.Jsonl

open Text

/-- The members that a value stands for; what counts as no stands for none. -/
def members (value : Value) : Except Fault (List (Value × Value)) :=
  if value.isTrue then value.members else .ok []

/-- A property needs a text for its name. -/
def named (member : Value × Value) : Except Fault (String × Value) :=
  match member with
  | (.text name, value) => .ok (name, value)
  | _ => .error .notAMapping

def field (fields : Properties) (name : String) : Except Fault Value :=
  match Assoc.get? name fields with
  | some value => .ok value
  | none => .error (.fieldNotFound name)

variable [NestingLimits]

def edgeOf (g : PropertyGraph) (row : List Char) : Except Fault PropertyGraph := do
  match ← Json.read row with
  | .record fields =>
    let u ← field fields "u"
    let v ← field fields "v"
    let pairs ← members ((Assoc.get? "properties" fields).getD .null)
    let tail ← VertexId.ofValue u
    let head ← VertexId.ofValue v
    let properties ← pairs.mapM named
    g.connectChecked tail head (Assoc.ofList properties)
  | _ => .error .notAMapping

def row (path : String) (state : PropertyGraph × Nat) (numbered : List Char × Nat) :
    Except Fault (PropertyGraph × Nat) :=
  let (raw, line) := numbered
  let text := trim raw
  if text.isEmpty then .ok state
  else
    match edgeOf state.1 text with
    | .ok g => .ok (g, state.2 + 1)
    | .error fault => .error (if fault.kind = .depth then fault else .badRow path line fault)

def read (path : String) (content : List Char) : Except Fault PropertyGraph := do
  let (g, rows) ← ((lines content).zipIdx 1).foldlM (row path) (.empty, 0)
  if rows = 0 then .error .noEdges else .ok g

def rowValue (tail : VertexId) (edge : Edge) : Value :=
  .record [("u", tail.toValue), ("v", edge.target.toValue), ("properties", .record edge.properties)]

def write (g : PropertyGraph) : String :=
  String.join (g.rows.map fun (tail, edge) => Json.write (rowValue tail edge) ++ "\n")

end BulkPaths.Jsonl
