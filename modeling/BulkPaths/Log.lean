import BulkPaths.Engine
import BulkPaths.Json.Writer

/-!
Event logs: one line per event, as text or as a JSON object. Every line begins with the level and
the event's name; fields that a log was bound to come before the event's own.
-/

namespace BulkPaths

inductive LogLevel
  | debug
  | info
  | warning
  deriving DecidableEq, Repr

namespace LogLevel

def name : LogLevel → String
  | .debug => "debug"
  | .info => "info"
  | .warning => "warning"

def rank : LogLevel → Nat
  | .debug => 10
  | .info => 20
  | .warning => 30

def ofName? : String → Option LogLevel
  | "debug" => some .debug
  | "info" => some .info
  | "warning" => some .warning
  | _ => none

end LogLevel

/-- A field holds a value or an identifier. -/
inductive LogField
  | value (v : Value)
  | id (vertex : VertexId)
  deriving Repr

namespace LogField

def plain : LogField → String
  | .value v => v.plain
  | .id vertex => vertex.plain

/-- In JSON an identifier is a text, whatever its category. -/
def toValue : LogField → Value
  | .value v => v
  | .id vertex => .text vertex.plain

end LogField

abbrev LogFields := List (String × LogField)

structure Log where
  level : LogLevel
  json : Bool
  context : LogFields
  deriving Repr

namespace Log

def start (level : String) (json : Bool) (context : LogFields) : Except Fault Log :=
  match LogLevel.ofName? level with
  | some level => .ok { level, json, context }
  | none => .error (.unknownLevel level)

def isEnabled (log : Log) (level : LogLevel) : Bool := log.level.rank ≤ level.rank

def isEnabledNamed (log : Log) (level : String) : Except Fault Bool :=
  match LogLevel.ofName? level with
  | some level => .ok (log.isEnabled level)
  | none => .error (.levelNotFound level)

def checkNames (reserved : List String) (fields : LogFields) : Except Fault Unit :=
  match fields.find? fun field => reserved.contains field.1 with
  | some field => .error (.reservedName field.1)
  | none => .ok ()

def bind (log : Log) (fields : LogFields) : Except Fault Log :=
  (checkNames ["self"] fields).map fun _ =>
    { log with context := Assoc.merge log.context fields }

/-- A line of text; nothing blank at its end. -/
def textLine (level : LogLevel) (event : String) (fields : LogFields) : String :=
  let pairs := fields.map fun (name, value) => name ++ "=" ++ value.plain
  let line := level.name ++ " " ++ event ++ " " ++ " ".intercalate pairs
  String.ofList (Text.trimRight line.toList)

/-- A bound field named as the level or the event takes its place. -/
def jsonLine (level : LogLevel) (event : String) (fields : LogFields) : String :=
  let head : LogFields :=
    [("level", .value (.text level.name)), ("event", .value (.text event))]
  Json.write (.record ((Assoc.merge head fields).map fun (name, value) => (name, value.toValue)))

/-- What is written for an event: a line, or nothing below the level of the log. -/
def emit (log : Log) (level : LogLevel) (event : String) (fields : LogFields) : String :=
  if log.isEnabled level then
    let merged := Assoc.merge log.context fields
    (if log.json then jsonLine level event merged else textLine level event merged) ++ "\n"
  else ""

/-- As `emit`, for fields whose names come from outside. -/
def emitChecked (log : Log) (level : LogLevel) (event : String) (fields : LogFields) :
    Except Fault String :=
  (checkNames ["self", "level", "event"] fields).map fun _ => log.emit level event fields

end Log

namespace Event

def count (n : Nat) : LogField := .value (.int n)

def counterFields (counters : Counters) : LogFields :=
  [("messages_sent", count counters.sent), ("messages_delivered", count counters.delivered),
    ("adoptions", count counters.adoptions), ("vertices_computed", count counters.computed)]

/-- A note about the source, from the worker that owns it if that is known. -/
def noteLine (config : Config) (note : SourceNote) : LogLevel × String × LogFields :=
  match note with
  | .isTarget => (.debug, "source_equals_target", [("source", .id config.source)])
  | .isolated =>
    (.debug, "source_isolated",
      [("source", .id config.source), ("targets", .value (.text config.targets.toText))])

/-- Level, name and fields of a run's event. A run does not look at the clock, so the time that it
reports is zero. -/
def line (config : Config) (workers : Nat) : Event → LogLevel × String × LogFields
  | .sourceMissing => (.warning, "source_missing", [("source", .id config.source)])
  | .started vertices edges =>
    (.info, "init",
      [("source", .id config.source), ("targets", .value (.text config.targets.toText)),
        ("quantity", .value (.text config.targets.quantity.name)),
        ("weight_property", .value (.text config.weights.property)),
        ("default_weight", .value config.weights.default.toValue), ("n", count vertices),
        ("m", count edges), ("workers", count workers)])
  | .note worker cause =>
    let (level, name, fields) := noteLine config cause
    (level, name, ("worker", count worker) :: fields)
  | .finished stats =>
    (.debug, "superstep",
      [("superstep", count stats.superstep), ("active", count stats.active),
        ("sent", count stats.sent), ("delivered", count stats.delivered),
        ("adoptions", count stats.adoptions), ("reached", count stats.reached)])
  | .targetsReached superstep pending =>
    (.info, "targets_reached", [("superstep", count superstep), ("pending", count pending)])
  | .converged supersteps reached counters =>
    (.info, "converged",
      [("supersteps", count supersteps), ("reached", count reached),
        ("wall_ms", .value (.real 0))] ++ counterFields counters)

end Event

def Log.events (log : Log) (config : Config) (workers : Nat) (events : List Event) : String :=
  String.join <| events.map fun event =>
    let (level, name, fields) := event.line config workers
    log.emit level name fields

end BulkPaths
