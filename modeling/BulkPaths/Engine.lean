import BulkPaths.Config
import BulkPaths.Partition
import BulkPaths.Program

/-!
Bulk-synchronous runs. Vertices are divided among workers. In a superstep every worker computes the
vertices that have a message, one after the other, and collects what they send; at the barrier the
messages for one vertex are combined into one and handed to its owner. A run ends when a barrier
leaves nothing to deliver.
-/

namespace BulkPaths

variable {W : Type} [PathWeight W]

structure Stats where
  superstep : Nat
  active : Nat
  sent : Nat
  delivered : Nat
  adoptions : Nat
  reached : Nat
  deriving DecidableEq, Repr

structure Counters where
  sent : Nat
  delivered : Nat
  adoptions : Nat
  computed : Nat
  deriving DecidableEq, Repr

namespace Counters

def zero : Counters := { sent := 0, delivered := 0, adoptions := 0, computed := 0 }

def add (counters : Counters) (stats : Stats) : Counters :=
  { sent := counters.sent + stats.sent
    delivered := counters.delivered + stats.delivered
    adoptions := counters.adoptions + stats.adoptions
    computed := counters.computed + stats.active }

end Counters

inductive Event
  | sourceMissing
  | started (vertices edges : Nat)
  | note (worker : Nat) (cause : SourceNote)
  | finished (stats : Stats)
  | targetsReached (superstep pending : Nat)
  | converged (supersteps reached : Nat) (counters : Counters)
  deriving DecidableEq, Repr

/-- Messages by recipient, in order of first arrival. -/
abbrev Mailbox (W : Type) := List (VertexId × Message W)

/-- Combines the message with one that waits for the same vertex. -/
def Mailbox.post (box : Mailbox W) (recipient : VertexId) (message : Message W) : Mailbox W :=
  Assoc.put recipient (Message.combineInto (Assoc.get? recipient box) message) box

structure Worker (W : Type) where
  index : Nat
  owned : List VertexId
  inbox : Mailbox W
  outbox : Mailbox W
  replica : IdSet
  deriving Repr

structure Pass (W : Type) where
  labels : Labels W
  replica : IdSet
  outbox : Mailbox W
  active : Nat
  sent : Nat
  adoptions : Nat
  events : List Event
  deriving Repr

structure Aborted (W : Type) where
  fault : Fault
  labels : Labels W
  events : List Event
  deriving Repr

namespace Pass

def abort (pass : Pass W) (fault : Fault) : Aborted W :=
  { fault, labels := pass.labels, events := pass.events }

def absorb (pass : Pass W) (worker : Nat) (id : VertexId) (label : Label W)
    (outcome : Except Fault (StepResult W)) : Except (Aborted W) (Pass W) :=
  let pass := { pass with labels := pass.labels.set id label }
  match outcome with
  | .error fault => .error (pass.abort fault)
  | .ok result =>
    .ok { pass with
      outbox := result.messages.foldl (fun box out => box.post out.recipient out.message)
        pass.outbox
      active := pass.active + 1
      sent := pass.sent + result.messages.length
      adoptions := pass.adoptions + result.adoptions
      events := pass.events ++ (result.note.map (Event.note worker)).toList }

def visit0 (g : PropertyGraph) (job : Job W) (worker : Nat) (pass : Pass W) (id : VertexId) :
    Except (Aborted W) (Pass W) :=
  match g.edges? id with
  | none => .error (pass.abort (.unknownVertex id))
  | some edges =>
    let (label, outcome) := job.compute0 id edges (pass.labels.label id)
    pass.absorb worker id label outcome

/-- A later superstep of a vertex with its one combined message. -/
def visit (g : PropertyGraph) (job : Job W) (worker : Nat) (pass : Pass W)
    (delivery : VertexId × Message W) : Except (Aborted W) (Pass W) :=
  let (id, message) := delivery
  match g.edges? id with
  | none => .error (pass.abort (.unknownVertex id))
  | some edges =>
    let label := { pass.labels.label id with stage := Stage.active }
    let (label, outcome) := job.compute id edges label [message] pass.replica
    { pass with replica := job.targets.enroll id pass.replica }.absorb worker id label outcome

end Pass

namespace Worker

def start (index : Nat) (owned : List VertexId) : Worker W :=
  { index, owned, inbox := [], outbox := [], replica := [] }

/-- Computes what is due: every vertex in the first superstep, later those with a message. -/
def compute (g : PropertyGraph) (job : Job W) (superstep : Nat) (worker : Worker W)
    (labels : Labels W) (events : List Event) : Except (Aborted W) (Pass W) :=
  let pass : Pass W :=
    { labels, replica := worker.replica, outbox := worker.outbox, active := 0, sent := 0,
      adoptions := 0, events }
  if superstep = 0 then worker.owned.foldlM (Pass.visit0 g job worker.index) pass
  else worker.inbox.foldlM (Pass.visit g job worker.index) pass

end Worker

/-- A run between two supersteps. -/
structure State (W : Type) where
  labels : Labels W
  workers : List (Worker W)
  aggregator : Aggregator
  counters : Counters
  history : List Stats
  events : List Event
  deriving Repr

namespace State

/-- A worker for every index, each with the vertices that hash to it. -/
def start (g : PropertyGraph) (targets : Targets) (workers : Nat) (events : List Event) :
    State W :=
  { labels := g.ids.map fun id => (id, .fresh)
    workers := (List.range workers).map fun i =>
      .start i (g.ids.filter fun id => id.owner workers == i)
    aggregator := .start targets
    counters := .zero
    history := []
    events }

/-- Workers after their pass, and the sums of their counts. -/
structure Round (W : Type) where
  workers : List (Worker W)
  labels : Labels W
  active : Nat
  sent : Nat
  adoptions : Nat
  events : List Event
  deriving Repr

/-- One worker's pass; it starts from the replica of the last merge. -/
def advance (g : PropertyGraph) (job : Job W) (superstep : Nat) (merged : IdSet)
    (round : Round W) (worker : Worker W) : Except (Aborted W) (Round W) := do
  let worker := { worker with replica := merged }
  let pass ← worker.compute g job superstep round.labels round.events
  let worker := { worker with inbox := [], outbox := pass.outbox, replica := pass.replica }
  .ok {
    workers := round.workers ++ [worker]
    labels := pass.labels
    active := round.active + pass.active
    sent := round.sent + pass.sent
    adoptions := round.adoptions + pass.adoptions
    events := pass.events }

def round (g : PropertyGraph) (job : Job W) (superstep : Nat) (s : State W) :
    Except (Aborted W) (Round W) :=
  s.workers.foldlM (advance g job superstep s.aggregator.merged)
    { workers := [], labels := s.labels, active := 0, sent := 0, adoptions := 0,
      events := s.events }

/-- All outboxes in one, with one message per recipient. -/
def delivered (workers : List (Worker W)) : Mailbox W :=
  workers.foldl (fun box worker => worker.outbox.foldl (fun box out => box.post out.1 out.2) box) []

/-- Empties the outbox and hands over the messages for owned vertices. -/
def hand (count : Nat) (box : Mailbox W) (worker : Worker W) : Worker W :=
  { worker with
    inbox := box.filter fun delivery => delivery.1.owner count == worker.index
    outbox := [] }

/-- How the messages of a barrier come to the workers that have taken their passes. -/
abbrev Routing (W : Type) := Mailbox W → List (Worker W) → Except Fault (List (Worker W))

/-- Every worker picks the messages for the vertices that hash to it. -/
def byHash : Routing W := fun box workers => .ok (workers.map (hand workers.length box))

/-- Merges the replicas and routes the messages. -/
def barrierBy (routing : Routing W) (s : State W) (superstep : Nat) (round : Round W) :
    Except (Aborted W) (State W) :=
  let submitted := round.workers.foldl (fun a worker => a.submit worker.replica) s.aggregator
  let abort (fault : Fault) : Except (Aborted W) (State W) :=
    .error { fault, labels := round.labels, events := round.events }
  match submitted.merge with
  | (_, .error fault) => abort fault
  | (aggregator, .ok reached) =>
    let box := delivered round.workers
    match routing box round.workers with
    | .error fault => abort fault
    | .ok workers =>
      let stats : Stats :=
        { superstep
          active := round.active
          sent := round.sent
          delivered := box.length
          adoptions := round.adoptions
          reached := reached.length }
      .ok {
        labels := round.labels
        workers
        aggregator
        counters := s.counters.add stats
        history := s.history ++ [stats]
        events := round.events ++ [.finished stats] }

def superstepBy (routing : Routing W) (g : PropertyGraph) (job : Job W) (index : Nat)
    (s : State W) : Except (Aborted W) (State W) := do
  let round ← s.round g job index
  s.barrierBy routing index round

def barrier (s : State W) (superstep : Nat) (round : Round W) :
    Except (Aborted W) (State W) :=
  s.barrierBy byHash superstep round

def superstep (g : PropertyGraph) (job : Job W) (index : Nat) (s : State W) :
    Except (Aborted W) (State W) :=
  s.superstepBy byHash g job index

def pending (s : State W) : Nat := (s.workers.flatMap Worker.inbox).length

def fail (s : State W) (fault : Fault) : Aborted W :=
  { fault, labels := s.labels, events := s.events }

end State

structure Limits where
  workers : Nat
  staffed : 0 < workers
  /-- Supersteps after the first one; zero is no bound. -/
  maxSupersteps : Nat
  stopEarly : Bool
  deriving DecidableEq, Repr

def EngineConfig.limits (config : EngineConfig) : Limits :=
  { workers := config.workers
    staffed := config.staffed
    maxSupersteps := config.maxSupersteps
    stopEarly := config.stopWhenReached.isTrue }

structure Result (W : Type) where
  source : VertexId
  targets : Targets
  /-- Values in the order of the graph. -/
  values : List (VertexId × PathValue W)
  supersteps : Nat
  reached : IdSet
  counters : Counters
  history : List Stats
  deriving Repr

/-- What a run leaves behind, whether it finished or not. -/
structure Run (W : Type) where
  labels : Labels W
  counters : Counters
  events : List Event
  outcome : Except Fault (Result W)

/-- The vertices with the index of the worker that each was assigned to. -/
abbrev OwnerTable := List (VertexId × Nat)

def PropertyGraph.ownerTable (g : PropertyGraph) (count : Nat) : Except Fault OwnerTable :=
  (partition g.ids count).map g.ids.zip

namespace Run

/-- Supersteps until nothing is pending, from the barrier of superstep `index` on. Counters of a
failing superstep are not counted. -/
def loopBy (routing : State.Routing W) (g : PropertyGraph) (job : Job W) (limits : Limits) :
    Nat → Nat → State W → State W × Option (Aborted W)
  | fuel, index, s =>
    if s.pending = 0 then (s, none)
    else if limits.stopEarly && s.aggregator.converged then
      ({ s with events := s.events ++ [.targetsReached index s.pending] }, none)
    else if limits.maxSupersteps ≠ 0 ∧ limits.maxSupersteps < index + 1 then
      (s, some (s.fail (.noConvergence limits.maxSupersteps s.pending)))
    else
      match fuel with
      | 0 => (s, some (s.fail .unsettled))
      | fuel + 1 =>
        match s.superstepBy routing g job (index + 1) with
        | .error aborted => (s, some aborted)
        | .ok next => loopBy routing g job limits fuel (index + 1) next

def loop (g : PropertyGraph) (job : Job W) (limits : Limits) (fuel index : Nat) (s : State W) :
    State W × Option (Aborted W) :=
  loopBy State.byHash g job limits fuel index s

/-- A shortest path visits a vertex once, so no superstep after the `n`-th improves anything. -/
def fuelFor (g : PropertyGraph) : Nat := g.vertexCount + 1

def opening (g : PropertyGraph) (job : Job W) : List Event :=
  (if g.contains job.source then [] else [.sourceMissing]) ++
    [.started g.vertexCount g.edgeCount]

def result (g : PropertyGraph) (job : Job W) (s : State W) : Result W :=
  { source := job.source
    targets := job.targets
    values := g.ids.map fun id => (id, (s.labels.label id).value)
    supersteps := s.history.length
    reached := s.aggregator.merged
    counters := s.counters
    history := s.history }

def finish (g : PropertyGraph) (job : Job W) : State W × Option (Aborted W) → Run W
  | (s, some aborted) =>
    { labels := aborted.labels, counters := s.counters, events := aborted.events,
      outcome := .error aborted.fault }
  | (s, none) =>
    let done := result g job s
    { labels := s.labels
      counters := s.counters
      events := s.events ++ [.converged done.supersteps done.reached.length done.counters]
      outcome := .ok done }

/-- A run begins once the vertices are divided among the workers, if they can be. -/
def ofJob (g : PropertyGraph) (job : Job W) (limits : Limits) : Run W :=
  match g.ownerTable limits.workers with
  | .error fault => { labels := [], counters := .zero, events := [], outcome := .error fault }
  | .ok _ =>
    let s := State.start g job.targets limits.workers (opening g job)
    finish g job <|
      match s.superstep g job 0 with
      | .error aborted => (s, some aborted)
      | .ok first => loop g job limits (fuelFor g) 0 first

end Run

variable [NestingLimits]

def Config.job (config : Config) : Job Float :=
  { source := config.source
    targets := config.targets
    weigh := config.weights.weighFloat
    positive := fun h => by
      obtain ⟨hpositive, hfinite⟩ := config.weights.weighFloat_positive h
      exact ⟨decide_eq_true hpositive, hfinite⟩ }

def runShortestPaths (g : PropertyGraph) (config : Config) (engine : EngineConfig) : Run Float :=
  Run.ofJob g config.job engine.limits

end BulkPaths
