import BulkPaths.Arguments
import BulkPaths.Drawing

/-!
The command: reads a graph file, runs a job on it and prints the summary.
-/

namespace BulkPaths

namespace CommandLine

def sampleEdges : String :=
  "# u,v,weight\nu,v,weight\ns,a,1.0\na,b,1.0\ns,b,4.0\nb,c,2.5\n"

/-- How a failure is reported: on a line, or in full. -/
inductive Report
  | line (text : String)
  | trace (fault : Fault)

structure Outcome where
  code : Nat
  stdout : String
  stderr : String
  report : Option Report
  exported : Option (String × String)
  drawn : Option (String × Drawing)

namespace Outcome

def start : Outcome :=
  { code := 0, stdout := "", stderr := "", report := none, exported := none, drawn := none }

def log (o : Outcome) (toStdout : Bool) (text : String) : Outcome :=
  if toStdout then { o with stdout := o.stdout ++ text } else { o with stderr := o.stderr ++ text }

/-- What can be mended by the user ends with 64, all else with 70. -/
def fail (o : Outcome) (verbose : Bool) (fault : Fault) : Outcome :=
  let mendable := fault.kind.isUserError
  let title := if mendable then "error: " else "internal error: "
  { o with
    code := if mendable then 64 else 70
    report := some (if verbose then .trace fault else .line (title ++ fault.message ++ "\n")) }

end Outcome

def options (a : Arguments) : Properties :=
  [("source_id", .text (a.text .source "")), ("target_id", .text (a.text .target "")),
    ("weight_property", .text (a.text .weightProperty "")),
    ("default_weight", .text (a.text .defaultWeight "1"))]

def engineOptions (a : Arguments) : Properties :=
  [("num_workers", .int (a.int .workers 1)), ("parallel", .bool (a.has .parallel)),
    ("max_supersteps", .int (a.int .maxSupersteps 0)),
    ("stop_when_targets_reached", .bool (a.has .stopWhenReached))]

def exists? (site : Site) (path : String) : Except Fault Bool :=
  match site.find (FileName.normal path) with
  | .error (.nameTooLong path) => .error (.nameTooLong path)
  | .error _ | .ok .free => .ok false
  | .ok _ => .ok true

def readEdges (site : Site) (a : Arguments) : Except Fault PropertyGraph := do
  let path := a.text .edges ""
  if ← exists? site path then GraphFile.read site path (a.get? .format)
  else .error (.edgesNotFound path)

/-- JSON logs tell at least what is of interest. -/
def log (a : Arguments) : Log :=
  let level := ((a.get? .logLevel).bind LogLevel.ofName?).getD .warning
  let json := a.has .logJson
  { level := if json && level == .warning then .info else level, json, context := [] }

def configLine (g : PropertyGraph) (config : Config) (engine : EngineConfig) : String :=
  "config: n=" ++ toString g.vertexCount ++ " m=" ++ toString g.edgeCount ++ " source=" ++
    config.source.plain ++ " targets=" ++ config.targets.toText ++ " workers=" ++
    toString engine.workers ++ "\n"

def prepare (site : Site) (a : Arguments) :
    Except Fault (Config × EngineConfig × PropertyGraph) := do
  let (config, engine) ← loadConfig (options a) (engineOptions a)
  let g ← readEdges site a
  .ok (config, engine, g)

/-- A setting that is neither missing nor empty. -/
def chosen? (a : Arguments) (setting : Setting) : Option String :=
  match a.get? setting with
  | some "" | none => none
  | some value => some value

def exportResult (site : Site) (a : Arguments) (result : Result Float) (o : Outcome) :
    Outcome × Except Fault Unit :=
  match chosen? a .exportJson with
  | none => (o, .ok ())
  | some path =>
    match site.checkTarget path with
    | .error fault => (o, .error fault)
    | .ok () => ({ o with exported := some (path, result.summaryText) }, .ok ())

def draw (a : Arguments) (g : PropertyGraph) (result : Result Float) (o : Outcome) :
    Outcome × Except Fault Unit :=
  match chosen? a .plot with
  | none => (o, .ok ())
  | some path =>
    match Drawing.make g result .standard with
    | .error fault => (o, .error fault)
    | .ok drawing => ({ o with drawn := some (path, drawing) }, .ok ())

def deliver (site : Site) (a : Arguments) (g : PropertyGraph) (result : Result Float)
    (o : Outcome) : Outcome :=
  let verbose := a.has .verbose
  match exportResult site a result o with
  | (o, .error fault) => o.fail verbose fault
  | (o, .ok ()) =>
    match draw a g result o with
    | (o, .error fault) => o.fail verbose fault
    | (o, .ok ()) => if a.has .logJson then o else o.log true (result.summaryText ++ "\n")

def runJob (site : Site) (a : Arguments) : Outcome :=
  let verbose := a.has .verbose
  let json := a.has .logJson
  match prepare site a with
  | .error fault => Outcome.start.fail verbose fault
  | .ok (config, engine, g) =>
    let o := Outcome.start
    let o := if verbose && !json then o.log false (configLine g config engine) else o
    let run := runShortestPaths g config engine
    let o := o.log json ((log a).events config engine.workers run.events)
    match run.outcome with
    | .error fault => o.fail verbose fault
    | .ok result => deliver site a g result o

def run (site : Site) (a : Arguments) : Outcome :=
  if a.has .sample then { Outcome.start with stdout := sampleEdges } else runJob site a

end CommandLine

end BulkPaths
