import BulkPaths.CommandLine
import BulkPaths.Format.Dot

/-!
The program itself: what it reads is gathered first, and what it writes comes last.
-/

open BulkPaths

def readFile? (path : String) : IO (Option ByteArray) := do
  match ← (IO.FS.readBinFile path).toBaseIO with
  | .ok content => return some content
  | .error _ => return none

def isDirectory (path : String) : IO Bool := do
  return ← ((← IO.currentDir) / path).isDir

/-- What stands at a path and on the way there. -/
def survey (path : String) : IO (List (String × ByteArray) × List String) := do
  let steps := FileName.steps path
  let paths := (List.range (steps.length + 1)).map fun n => FileName.joined path (steps.take n)
  let directories ← paths.filterM isDirectory
  let files ← paths.filterMapM fun path => do
    return (← readFile? path).map fun content => (path, content)
  return (files, directories)

/-- What the arguments name: the file of edges, and where the summary goes. -/
def siteOf (a : Arguments) : IO Site := do
  let (edges, around) ← survey (a.text .edges "")
  let (others, places) ← survey (a.text .exportJson "")
  return .ofFiles (edges ++ others) (around ++ places)

def deliver (o : CommandLine.Outcome) : IO UInt32 := do
  if let some (path, text) := o.exported then IO.FS.writeFile path text
  if let some (path, drawing) := o.drawn then IO.FS.writeFile path (Dot.write drawing)
  IO.print o.stdout
  IO.eprint o.stderr
  match o.report with
  | some (.line text) => IO.eprint text
  | some (.trace fault) => IO.eprintln ("failed: " ++ fault.message)
  | none => pure ()
  return o.code.toUInt32

def main (arguments : List String) : IO UInt32 := do
  match Arguments.parse arguments with
  | .error refusal =>
    match refusal with
    | .help => IO.print Arguments.helpText
    | .usage => IO.eprint Arguments.usageText
    return refusal.exitCode.toUInt32
  | .ok a => deliver (CommandLine.run (← siteOf a) a)
