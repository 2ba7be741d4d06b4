import BulkPaths.Engine
import BulkPaths.Json.Writer

/-!
Questions to a finished run, its summary, and the tree of its paths.
-/

namespace BulkPaths

variable {W : Type} [PathWeight W]

namespace Result

def value (result : Result W) (id : Value) : Except Fault (PathValue W) := do
  let id ← VertexId.ofValue id
  match Assoc.get? id result.values with
  | some value => .ok value
  | none => .error (.noValue id)

def distance (result : Result W) (id : Value) : Except Fault W :=
  (result.value id).map PathValue.weight

def path (result : Result W) (id : Value) : Except Fault (List VertexId) :=
  (result.value id).map PathValue.path

def distances (result : Result W) (ids : List Value) : Except Fault (List W) :=
  ids.mapM result.distance

/-- The targets that are in the graph, or every reachable vertex if there are no explicit ones. -/
def chosen (result : Result W) : List (VertexId × PathValue W) :=
  match result.targets with
  | .all => result.values.filter fun entry => entry.2.reachable
  | targets => result.values.filter fun entry => targets.contains entry.1

def targetsValues (result : Result W) : List (VertexId × PathValue W) :=
  result.chosen.mergeSort fun a b => a.1.cmp b.1 != .gt

end Result

def VertexId.cmpPair (a b : VertexId × VertexId) : Ordering :=
  (a.1.cmp b.1).then (a.2.cmp b.2)

def hops (path : List VertexId) : List (VertexId × VertexId) := path.zip path.tail

/-- Edges on the paths of reachable vertices, in increasing order. -/
def Result.tree (result : Result W) : List (VertexId × VertexId) :=
  (result.values.filter fun entry => entry.2.reachable).foldl
    (fun edges entry =>
      (hops entry.2.path).foldl (fun edges edge => insertSorted VertexId.cmpPair edge edges) edges)
    []

/-- Numbers stand for themselves, other identifiers for their text. -/
def VertexId.summaryValue : VertexId → Value
  | .long n => .int n
  | id => .text id.plain

def Counters.fields (counters : Counters) : Properties :=
  [("messages_sent", .int counters.sent),
    ("messages_delivered", .int counters.delivered),
    ("adoptions", .int counters.adoptions),
    ("vertices_computed", .int counters.computed)]

/-- One target; a weight that is not finite is left out. -/
def summaryEntry (id : VertexId) (value : PathValue Float) : Value :=
  .record [
    ("id", id.summaryValue),
    ("id_type", .text id.categoryName),
    ("reachable", .bool value.reachable),
    ("total_weight", if value.weight.isFinite then .real value.weight else .null),
    ("path", .list (value.path.map VertexId.summaryValue))]

def Result.summary (result : Result Float) : Value :=
  .record [
    ("source", .text result.source.plain),
    ("quantity", .text result.targets.quantity.name),
    ("supersteps", .int result.supersteps),
    ("targets", .list (result.targetsValues.map fun (id, value) => summaryEntry id value)),
    ("counters", .record result.counters.fields)]

def Result.summaryText (result : Result Float) : String := Json.write result.summary

end BulkPaths
