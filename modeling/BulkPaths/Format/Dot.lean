import BulkPaths.Drawing

/-!
Drawings in the DOT language.
-/

namespace BulkPaths

def Role.fill : Role → String
  | source => "red"
  | target => "orange"
  | reached => "lightblue"
  | unreached => "gray"

namespace Dot

/-- Within quotes only the quote itself and the backslash are escaped. -/
def quote (s : String) : String :=
  String.ofList ('"' :: s.toList.flatMap (fun c => if c = '"' ∨ c = '\\' then ['\\', c] else [c]) ++
    ['"'])

/-- Numbers and texts of one spelling are two nodes, so the category is part of the name. -/
def nodeName (id : VertexId) : String := quote (toString id.category ++ ":" ++ id.plain)

def node (id : VertexId) (role : Role) : String :=
  nodeName id ++ " [style=filled, fillcolor=" ++ role.fill ++ ", label=" ++ quote id.plain ++ "];\n"

def edge (tail head : VertexId) (attributes : String) : String :=
  nodeName tail ++ " -> " ++ nodeName head ++ " [" ++ attributes ++ "];\n"

def boldAttributes (d : Drawing) (ends : VertexId × VertexId) : String :=
  "color=red, penwidth=2" ++
    match d.edgeLabels.bind (Assoc.get? ends) with
    | some text => ", label=" ++ quote text
    | none => ""

def engine : Layout → String
  | .spring _ => "fdp"
  | .kamadaKawai => "neato"
  | .shell => "circo"

def write (d : Drawing) : String :=
  "digraph \x7b\n" ++ "layout=" ++ engine d.layout ++ ";\n" ++ "label=" ++ quote d.title ++ ";\n" ++
    String.join (d.nodes.map fun (id, role) => node id role) ++
    String.join (d.thin.map fun link => edge link.tail link.head "color=gray") ++
    String.join (d.bold.map fun ends => edge ends.1 ends.2 (boldAttributes d ends)) ++ "\x7d\n"

end Dot

end BulkPaths
