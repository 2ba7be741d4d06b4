import BulkPaths.EdgeWeight
import BulkPaths.Targets

/-!
Settings of a job and of the engine that runs it.
-/

namespace BulkPaths

def optionPrefix : String := "single_source_shortest_path."

def longName (name : String) : String := optionPrefix ++ name

structure Config where
  sourceText : String
  targetText : String
  propertyText : String
  source : VertexId
  targets : Targets
  weights : EdgeWeight
  deriving Repr

namespace Config

/-- A property name is a text; none at all is blank. -/
def propertyName : Value → Except Fault String
  | .text s => .ok s
  | .null => .ok ""
  | _ => .error .notAWord

variable [NestingLimits]

def make (source target property default : Value) : Except Fault Config :=
  match source, target with
  | .text sourceText, .text targetText => do
    let source ← Targets.parseSource sourceText
    let targets ← Targets.parse targetText
    let propertyText ← propertyName property
    let weights ← EdgeWeight.make (Text.strip propertyText) default
    .ok { sourceText, targetText, propertyText, source, targets, weights }
  | _, _ => .error .idsNotText

def fieldNames : List String := ["source_id", "target_id", "weight_property", "default_weight"]

def defaultWeight : Value := .real 1

/-- Settings by field name; the identifiers have to be among them. -/
def ofFields (fields : Properties) : Except Fault Config :=
  match fields.find? fun field => !fieldNames.contains field.1 with
  | some (name, _) => .error (.badArgument name)
  | none =>
    match Assoc.get? "source_id" fields, Assoc.get? "target_id" fields with
    | some source, some target =>
      make source target ((Assoc.get? "weight_property" fields).getD (.text ""))
        ((Assoc.get? "default_weight" fields).getD defaultWeight)
    | none, _ => .error (.badArgument "source_id")
    | _, none => .error (.badArgument "target_id")

/-- An option under its long name, or else under its short one. -/
def option? (options : Properties) (name : String) : Option Value :=
  match Assoc.get? (longName name) options with
  | some value => some value
  | none => Assoc.get? name options

/-- The text of an option; a missing one and null are blank. -/
def optionText (options : Properties) (name : String) : Except Fault Value :=
  match option? options name with
  | none | some .null => .ok (.text "")
  | some value =>
    match value.spellingFault? NestingLimits.option with
    | none => .ok (.text value.plain)
    | some fault => .error fault

/-- A default weight may be given as a numeral. -/
def readDefault : Value → Except Fault Value
  | .text raw =>
    match Decimal.readFloat? raw.toList with
    | some x => .ok (.real x)
    | none => .error (.defaultUnreadable (longName "default_weight") raw)
  | value => .ok value

def ofOptions (options : Properties) : Except Fault Config := do
  let default ← readDefault ((option? options "default_weight").getD defaultWeight)
  let source ← optionText options "source_id"
  let target ← optionText options "target_id"
  let property ← optionText options "weight_property"
  make source target property default

def toOptions (config : Config) : Properties :=
  [(longName "source_id", .text config.sourceText),
    (longName "target_id", .text config.targetText),
    (longName "weight_property", .text config.propertyText),
    (longName "default_weight", config.weights.default.toValue)]

end Config

structure EngineConfig where
  workers : Nat
  staffed : 0 < workers
  parallel : Value
  /-- Supersteps after the first one; zero is no bound. -/
  maxSupersteps : Nat
  stopWhenReached : Value
  deriving Repr

namespace EngineConfig

def standard : EngineConfig :=
  { workers := 1, staffed := Nat.one_pos, parallel := .bool false, maxSupersteps := 0,
    stopWhenReached := .bool false }

def optionNames : List String :=
  ["num_workers", "parallel", "max_supersteps", "stop_when_targets_reached"]

def positive? : Value → Option { n : Nat // 0 < n }
  | .int n => if h : 1 ≤ n then some ⟨n.toNat, by omega⟩ else none
  | _ => none

def natural? : Value → Option Nat
  | .int n => if 0 ≤ n then some n.toNat else none
  | _ => none

def ofOptions (options : Properties) : Except Fault EngineConfig :=
  match options.find? fun option => !optionNames.contains option.1 with
  | some (name, _) => .error (.unknownEngineOption name)
  | none =>
    let value := fun name fallback => (Assoc.get? name options).getD fallback
    match positive? (value "num_workers" (.int 1)), natural? (value "max_supersteps" (.int 0)) with
    | none, _ => .error .workersNotPositive
    | _, none => .error .boundNegative
    | some ⟨workers, staffed⟩, some maxSupersteps =>
      .ok {
        workers, staffed, maxSupersteps
        parallel := value "parallel" (.bool false)
        stopWhenReached := value "stop_when_targets_reached" (.bool false) }

end EngineConfig

/-- Reads both; a fault of the engine's options comes first. -/
def loadConfig [NestingLimits] (options engine : Properties) :
    Except Fault (Config × EngineConfig) := do
  let engine ← EngineConfig.ofOptions engine
  let config ← Config.ofOptions options
  .ok (config, engine)

end BulkPaths
