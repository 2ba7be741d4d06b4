import BulkPaths.Graph
import BulkPaths.Message
import BulkPaths.Reached

/-!
What a vertex does. In the first superstep the source sends its edge weights to its neighbours;
later a vertex that hears of a shorter path adopts it and passes it on along every outgoing edge.
-/

namespace BulkPaths

variable {W : Type} [PathWeight W]

structure Job (W : Type) [PathWeight W] where
  source : VertexId
  targets : Targets
  weigh : Edge → Except Fault W
  positive : ∀ {edge : Edge} {weight : W}, weigh edge = .ok weight →
    PathWeight.less PathWeight.zero weight = true ∧ PathWeight.isFinite weight = true

structure Outbound (W : Type) where
  recipient : VertexId
  message : Message W
  deriving DecidableEq, Repr

inductive SourceNote
  | isTarget
  | isolated
  deriving DecidableEq, Repr

structure StepResult (W : Type) where
  value : PathValue W
  messages : List (Outbound W)
  /-- Inbound messages that improved the value. -/
  adoptions : Nat
  /-- The vertex entered the set of reached targets. -/
  newlyReached : Bool
  note : Option SourceNote
  deriving DecidableEq, Repr

namespace StepResult

def quiet (value : PathValue W) (newlyReached : Bool) : StepResult W :=
  { value, messages := [], adoptions := 0, newlyReached, note := none }

def adopted (result : StepResult W) (value : PathValue W) (sent : List (Outbound W)) :
    StepResult W :=
  { result with value, messages := result.messages ++ sent, adoptions := result.adoptions + 1 }

end StepResult

namespace Job

/-- One message per outgoing edge, in order. -/
def forward (job : Job W) (value : PathValue W) (edges : List Edge) :
    Except Fault (List (Outbound W)) :=
  edges.mapM fun edge => do
    let weight ← job.weigh edge
    .ok {
      recipient := edge.target
      message := { path := value.path, weight := PathWeight.add value.weight weight } }

def init (job : Job W) (id : VertexId) (edges : List Edge) : Except Fault (StepResult W) :=
  if id != job.source then .ok (.quiet .unreached false)
  else
    let start := StepResult.quiet (PathValue.source id) false
    if job.targets == .single job.source then .ok { start with note := some .isTarget }
    else if edges.isEmpty then .ok { start with note := some .isolated }
    else do
      let messages ← job.forward start.value edges
      .ok { start with messages }

/-- Handles one inbound message; one that does not improve the value is ignored. Nothing is passed
on where the last target has been reached. -/
def receive (job : Job W) (id : VertexId) (edges : List Edge) (replica : IdSet)
    (result : StepResult W) (message : Message W) : Except Fault (StepResult W) :=
  if !PathWeight.less message.weight result.value.weight then .ok result
  else do
    let value ← result.value.adopt id message.path message.weight
    if job.targets.contains id && job.targets.allReached replica id then
      .ok (result.adopted value [])
    else do
      let sent ← job.forward value edges
      .ok (result.adopted value sent)

/-- A later superstep. The replica is the one before the vertex itself is enrolled. -/
def step (job : Job W) (id : VertexId) (edges : List Edge) (value : PathValue W)
    (inbound : List (Message W)) (replica : IdSet) : Except Fault (StepResult W) :=
  let newlyReached := job.targets.contains id && !replica.contains id
  inbound.foldlM (job.receive id edges (job.targets.enroll id replica))
    (.quiet value newlyReached)

def settled (result : StepResult W) : Label W := { value := result.value, stage := .inactive }

/-- A failing step leaves the vertex initialized and its value as it was. -/
def compute0 (job : Job W) (id : VertexId) (edges : List Edge) (label : Label W) :
    Label W × Except Fault (StepResult W) :=
  match job.init id edges with
  | .ok result => (settled result, .ok result)
  | .error fault => ({ label with stage := .initialized }, .error fault)

/-- A failing step leaves the label as it was. -/
def compute (job : Job W) (id : VertexId) (edges : List Edge) (label : Label W)
    (inbound : List (Message W)) (replica : IdSet) : Label W × Except Fault (StepResult W) :=
  match job.step id edges label.value inbound replica with
  | .ok result => (settled result, .ok result)
  | .error fault => (label, .error fault)

end Job

end BulkPaths
