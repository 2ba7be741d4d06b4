import BulkPaths.Format.Csv
import BulkPaths.Format.GraphMl
import BulkPaths.Format.Jsonl
import BulkPaths.Site

/-!
Graph files: which format a file has, and its graph.
-/

namespace BulkPaths

inductive FileFormat
  | csv
  | jsonl
  | graphml
  deriving DecidableEq, Repr

namespace FileFormat

def ofName? : String → Option FileFormat
  | "csv" => some .csv
  | "jsonl" => some .jsonl
  | "graphml" => some .graphml
  | _ => none

def ofSuffix? : String → Option FileFormat
  | ".csv" | ".tsv" => some .csv
  | ".jsonl" | ".json" => some .jsonl
  | ".graphml" => some .graphml
  | _ => none

end FileFormat

namespace GraphFile

/-- A format by name; without a name, the one that the file name suggests. -/
def format? (path : String) (name : Option String) : Option FileFormat :=
  match name with
  | none | some "" => FileFormat.ofSuffix? (Text.lower (FileName.suffix path))
  | some name => FileFormat.ofName? name

/-- Rows are text in UTF-8. -/
def parseText (read : List Char → Except Fault PropertyGraph) (content : ByteArray) :
    Except Fault PropertyGraph :=
  match String.fromUTF8? content with
  | some text => read text.toList
  | none => .error .notUtf8

variable [NestingLimits]

def parse (format : FileFormat) (path : String) (content : ByteArray) :
    Except Fault PropertyGraph :=
  match format with
  | .csv => parseText (Csv.read path) content
  | .jsonl => parseText (Jsonl.read path) content
  | .graphml => GraphMl.read path content

def read (site : Site) (path : String) (formatName : Option String) :
    Except Fault PropertyGraph := do
  let normal := FileName.normal path
  match format? path formatName with
  | none => .error .unknownFormat
  | some format =>
    match ← site.find normal with
    | .file content => parse format normal content
    | .directory => .error (.isDirectory normal)
    | .free => .error (.fileNotFound normal)

def text? (g : PropertyGraph) : FileFormat → Option String
  | .csv => some (Csv.write g)
  | .jsonl => some (Jsonl.write g)
  | .graphml => none

/-- Whether no whole number in the rows has too many digits to be spelled. -/
def isSpellable (g : PropertyGraph) : Bool :=
  g.rows.all fun (tail, edge) =>
    tail.toValue.isSpellable && edge.target.toValue.isSpellable &&
      Value.fieldsSpellable edge.properties

/-- The text that a graph is written as; GraphML is only read. -/
def write (site : Site) (g : PropertyGraph) (path : String) (formatName : Option String) :
    Except Fault String := do
  match (format? path formatName).bind (text? g) with
  | none => .error .unknownFormat
  | some text =>
    site.checkTarget (FileName.normal path)
    if isSpellable g then .ok text else .error .longNumeral

end GraphFile

end BulkPaths
