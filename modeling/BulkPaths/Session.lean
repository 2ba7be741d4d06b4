import BulkPaths.Remains
import BulkPaths.Summary

/-!
A graph on which job after job is run, by one engine or by several. The labels that a run leaves on
the vertices can be looked at until the next run starts afresh.
-/

namespace BulkPaths

/-- A job set up on a graph, the totals of its last run, and the owners by which it routed. -/
structure Engine where
  config : Config
  settings : EngineConfig
  counters : Counters
  owners : OwnerTable

def Engine.start (config : Config) (settings : EngineConfig) : Engine :=
  { config, settings, counters := .zero, owners := [] }

structure Session where
  graph : PropertyGraph
  labels : Labels Float
  /-- In the order in which they were set up; the last one is current. -/
  engines : List Engine

namespace Session

def start (graph : PropertyGraph) : Session := { graph, labels := [], engines := [] }

def addVertex (s : Session) (id : Value) : Session × Except Fault VertexId :=
  let (graph, outcome) := s.graph.addValue id
  ({ s with graph }, outcome)

def addEdge (s : Session) (tail head : Value) (properties : Properties) :
    Session × Except Fault Unit :=
  let (graph, outcome) := s.graph.addEdge tail head properties
  ({ s with graph }, outcome)

def engage (s : Session) (config : Config) (settings : EngineConfig) : Session :=
  { s with engines := s.engines ++ [.start config settings] }

variable [NestingLimits]

/-- Sets up a job; if that fails, the job set up before stays current. -/
def setUp (s : Session) (options engineOptions : Properties) : Session × Except Fault Counters :=
  match loadConfig options engineOptions with
  | .ok (config, settings) => (s.engage config settings, .ok .zero)
  | .error fault => (s, .error fault)

def counters (s : Session) : Except Fault Counters :=
  (s.engines.getLast?.map Engine.counters).elim (.error .noJob) .ok

/-- What the engine finds when it starts a run. -/
def remains (s : Session) (engine : Engine) : Remains Float :=
  { labels := s.labels, counters := engine.counters, owners := engine.owners }

def runEngine (s : Session) (i : Nat) : Session × Except Fault (Result Float) :=
  match s.engines[i]? with
  | none => (s, .error .noJob)
  | some engine =>
    let (run, owners) :=
      Run.again s.graph engine.config.job engine.settings.limits (s.remains engine)
    ({ s with
        labels := run.labels
        engines := s.engines.set i { engine with counters := run.counters, owners } },
      run.outcome)

def run (s : Session) : Session × Except Fault (Result Float) := s.runEngine (s.engines.length - 1)

def states (s : Session) : List (Label Float) := s.graph.ids.map s.labels.label

/-- The `i`-th item; a negative number counts from the end. -/
def itemAt {α : Type} (items : List α) (i : Int) : Except Fault α :=
  let place := if i < 0 then i + items.length else i
  match if place < 0 then none else items[place.toNat]? with
  | some item => .ok item
  | none => .error .noSuchItem

def property (s : Session) (id : Value) (i : Int) (name : String) :
    Except Fault (Option Value) := do
  let (_, edges) ← s.graph.vertex id
  let edge ← itemAt edges i
  .ok (edge.property? name)

end Session

end BulkPaths
