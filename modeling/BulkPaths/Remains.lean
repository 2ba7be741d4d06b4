import BulkPaths.Engine

/-!
What outlives a run. On the graph stay the labels of the vertices; in the engine stay its totals and
the table of owners by which it routed messages. The next run finds them as the last one left them,
also if that was aborted. It clears the labels and the totals, and overwrites the table once it can
divide the vertices among its workers.
-/

namespace BulkPaths

variable {W : Type}

namespace Worker

/-- The worker, its messages taken to the barrier. -/
def drained (worker : Worker W) : Worker W := { worker with outbox := [] }

def receive (worker : Worker W) (delivery : VertexId × Message W) : Worker W :=
  { worker with inbox := Assoc.put delivery.1 delivery.2 worker.inbox }

end Worker

namespace OwnerTable

/-- Hands one message to the owner of its vertex. The vertex may be missing from the table, and the
owner from the workers. -/
def route (table : OwnerTable) (workers : List (Worker W)) (delivery : VertexId × Message W) :
    Except Fault (List (Worker W)) :=
  match Assoc.get? delivery.1 table with
  | none => .error (.noValue delivery.1)
  | some owner =>
    match workers[owner]? with
    | none => .error .noSuchItem
    | some worker => .ok (workers.set owner (worker.receive delivery))

def deliver (table : OwnerTable) (box : Mailbox W) (workers : List (Worker W)) :
    Except Fault (List (Worker W)) :=
  box.foldlM table.route workers

/-- The vertices of one worker. -/
def vertices (table : OwnerTable) (index : Nat) : List VertexId :=
  (table.filter fun entry => entry.2 == index).map Prod.fst

def routing (table : OwnerTable) : State.Routing W := fun box workers =>
  table.deliver box (workers.map Worker.drained)

end OwnerTable

/-- Gives every one of the vertices a fresh label. -/
def Labels.renew [PathWeight W] (labels : Labels W) (ids : List VertexId) : Labels W :=
  ids.foldl (fun labels id => labels.set id .fresh) labels

/-- What a run finds of the runs before it. -/
structure Remains (W : Type) where
  labels : Labels W
  counters : Counters
  owners : OwnerTable

namespace Remains

variable [PathWeight W]

/-- No vertex visited and nothing counted; the table of owners stays. -/
def clear (g : PropertyGraph) (found : Remains W) : Remains W :=
  { found with labels := found.labels.renew g.ids, counters := .zero }

def assign (g : PropertyGraph) (count : Nat) (found : Remains W) : Except Fault (Remains W) :=
  (g.ownerTable count).map fun owners => { found with owners }

/-- New workers on the labels and counters that there are. -/
def start (found : Remains W) (targets : Targets) (count : Nat) (events : List Event) : State W :=
  { labels := found.labels
    workers := (List.range count).map fun i => .start i (found.owners.vertices i)
    aggregator := .start targets
    counters := found.counters
    history := []
    events }

end Remains

namespace Run

variable [PathWeight W]

/-- The run of an engine that has divided the vertices. -/
def assigned (g : PropertyGraph) (job : Job W) (limits : Limits) (ready : Remains W) : Run W :=
  let s := ready.start job.targets limits.workers (opening g job)
  let routing := ready.owners.routing
  finish g job <|
    match s.superstepBy routing g job 0 with
    | .error aborted => (s, some aborted)
    | .ok first => loopBy routing g job limits (fuelFor g) 0 first

/-- A run that starts from what others left, and the table of owners after it. -/
def again (g : PropertyGraph) (job : Job W) (limits : Limits) (found : Remains W) :
    Run W × OwnerTable :=
  let cleared := found.clear g
  match cleared.assign g limits.workers with
  | .error fault =>
    ({ labels := cleared.labels, counters := cleared.counters, events := [],
       outcome := .error fault }, cleared.owners)
  | .ok ready => (assigned g job limits ready, ready.owners)

end Run

end BulkPaths
