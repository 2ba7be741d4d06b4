import BulkPaths.Decimal.Numeral
import BulkPaths.Graph
import BulkPaths.Targets
import BulkPaths.Text.Lines

/-!
Edge lists as rows of cells between commas or tabs: tail, head, and properties. Blank lines and
lines that begin with `#` are skipped. A first row that names the two ends names the property
columns too; without one the third column is the weight.
-/

namespace BulkPaths.Csv

open Text

structure State where
  graph : PropertyGraph
  columns : List String
  /-- A row was seen, be it a header or an edge. -/
  started : Bool
  rows : Nat

def State.start : State :=
  { graph := .empty, columns := ["weight"], started := false, rows := 0 }

/-- A cell is a whole number if it can be, else a double, else a text. -/
def cellValue (cell : List Char) : Value :=
  match Decimal.readInt cell with
  | .ok n => .int n
  | .error _ =>
    match Decimal.readFloat? cell with
    | some x => .real x
    | none => .text (String.ofList cell)

def cells (row : List Char) : List (List Char) :=
  (cutAt ',' (row.map fun c => if c = '\t' then ',' else c)).map trim

def headers : List (List String) := [["u", "v"], ["source", "target"], ["src", "dst"]]

def isHeader (parts : List (List Char)) : Bool :=
  headers.contains ((parts.take 2).map fun part => lower (String.ofList part))

/-- Properties of a row; columns without a name and empty cells are left out. -/
def rowProperties (columns : List String) (parts : List (List Char)) : Properties :=
  Assoc.ofList <| ((columns.zip parts).filter fun (name, cell) =>
    !name.isEmpty && !cell.isEmpty).map fun (name, cell) => (name, cellValue cell)

/-- Wraps a fault about an identifier with the place of its row; any other passes. -/
def inRow {α : Type} (path : String) (line : Nat) (outcome : Except Fault α) : Except Fault α :=
  outcome.mapError (Targets.wrap (.badRow path line))

def edgeRow (path : String) (line : Nat) (state : State) (parts : List (List Char)) :
    Except Fault State :=
  match parts with
  | tail :: head :: more => do
    let tail ← inRow path line (VertexId.read (String.ofList tail))
    let head ← inRow path line (VertexId.read (String.ofList head))
    let graph ← state.graph.connectChecked tail head (rowProperties state.columns more)
    .ok { state with graph, started := true, rows := state.rows + 1 }
  | _ => .error (.fewCells path line)

def row (path : String) (state : State) (numbered : List Char × Nat) : Except Fault State :=
  let (raw, line) := numbered
  let text := trim raw
  if text.isEmpty ∨ text.head? = some '#' then .ok state
  else
    let parts := cells text
    if !state.started && isHeader parts then
      .ok { state with started := true, columns := (parts.drop 2).map String.ofList }
    else edgeRow path line state parts

def read (path : String) (content : List Char) : Except Fault PropertyGraph := do
  let state ← ((lines content).zipIdx 1).foldlM (row path) .start
  if state.rows = 0 then .error .noEdges else .ok state.graph

def columnNames (g : PropertyGraph) : List String :=
  Assoc.keys (Assoc.ofList (g.rows.flatMap fun (_, edge) => edge.properties))

def writeCell (value : Option Value) : String :=
  match value with
  | none | some .null => ""
  | some value => value.plain

def writeRow (names : List String) (tail : VertexId) (edge : Edge) : List String :=
  tail.toText :: edge.target.toText :: names.map fun name => writeCell (edge.property? name)

def joinRow (cells : List String) : String := ",".intercalate cells ++ "\n"

def write (g : PropertyGraph) : String :=
  let names := columnNames g
  joinRow ("u" :: "v" :: names) ++
    String.join (g.rows.map fun (tail, edge) => joinRow (writeRow names tail edge))

end BulkPaths.Csv
