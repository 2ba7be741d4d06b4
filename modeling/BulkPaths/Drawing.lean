import BulkPaths.Multigraph
import BulkPaths.Summary

/-!
What a drawing of a finished run shows: every vertex in the colour of its role, the edges of the
shortest paths in bold, and the other edges thin.
-/

namespace BulkPaths

structure DrawOptions where
  layout : Value
  /-- Most thin edges that are drawn. -/
  maxEdges : Value
  showWeights : Value
  nodeSize : Value
  seed : Value

namespace DrawOptions

def standard : DrawOptions :=
  { layout := .text "spring", maxEdges := .int 300, showWeights := .bool false,
    nodeSize := .int 300, seed := .int 0 }

def names : List String := ["layout", "max_edges", "show_weights", "node_size", "seed"]

def ofFields (fields : Properties) : Except Fault DrawOptions :=
  match fields.find? fun field => !names.contains field.1 with
  | some (name, _) => .error (.badArgument name)
  | none =>
    let value := fun name fallback => (Assoc.get? name fields).getD fallback
    .ok {
      layout := value "layout" standard.layout
      maxEdges := value "max_edges" standard.maxEdges
      showWeights := value "show_weights" standard.showWeights
      nodeSize := value "node_size" standard.nodeSize
      seed := value "seed" standard.seed }

end DrawOptions

/-- How the vertices are placed; only springs start from a seed. -/
inductive Layout
  | spring (seed : Value)
  | kamadaKawai
  | shell

namespace Layout

def ofOptions (options : DrawOptions) : Except Fault Layout :=
  match options.layout with
  | .text "spring" => .ok (.spring options.seed)
  | .text "kamada_kawai" => .ok .kamadaKawai
  | .text "shell" => .ok .shell
  | other => .error (.unknownLayout other.plain)

def name : Layout → String
  | spring _ => "spring"
  | kamadaKawai => "kamada_kawai"
  | shell => "shell"

def seed? : Layout → Option Value
  | spring seed => some seed
  | _ => none

end Layout

inductive Role
  | source
  | target
  | reached
  | unreached
  deriving DecidableEq, Repr

def Role.colour : Role → String
  | source => "tab:red"
  | target => "tab:orange"
  | reached => "tab:blue"
  | unreached => "tab:gray"

structure Drawing where
  title : String
  layout : Layout
  nodeSize : Value
  /-- In the order of the graph. -/
  nodes : List (VertexId × Role)
  /-- Edges that no shortest path uses, with their properties. -/
  thin : List (Link VertexId)
  bold : List (VertexId × VertexId)
  /-- Distances at the bold edges, if they are shown. -/
  edgeLabels : Option (List ((VertexId × VertexId) × String))

namespace Drawing

/-- The source counts as the source even if it is a target. -/
def role (result : Result Float) (id : VertexId) : Role :=
  if id = result.source then .source
  else if result.targets.contains id then .target
  else if (Assoc.get? id result.values).any PathValue.reachable then .reached
  else .unreached

def heading (result : Result Float) : String := "Shortest paths from " ++ result.source.plain

def isSeed : Value → Bool
  | .uuid _ | .list _ | .record _ => false
  | _ => true

/-- How many of `count` edges are kept; none of the bounds may be negative or fractional once it
takes effect. -/
def keptCount (options : DrawOptions) (count : Nat) : Except Fault Nat :=
  match options.maxEdges.numberKey? with
  | none => .error .notComparable
  | some bound =>
    let exceeds : Bool :=
      match bound with
      | .int n => n < count
      | .real x => x < Float.ofNat count
    if !exceeds then .ok count
    else if !isSeed options.seed then .error .notHashable
    else
      match bound with
      | .int n => if n < 0 then .error .negativeSample else .ok n.toNat
      | .real x => if x < 0 then .error .negativeSample else .error .notComparable

def others (g : PropertyGraph) (tree : List (VertexId × VertexId)) (options : DrawOptions) :
    Except Fault (List (VertexId × Edge)) := do
  let rows := g.rows.filter fun (tail, edge) => !tree.contains (tail, edge.target)
  .ok (rows.take (← keptCount options rows.length))

/-- Parallel edges become one, with the properties of all. -/
def merged (rows : List (VertexId × Edge)) : Except Fault (Multigraph VertexId) :=
  rows.foldlM
    (fun m (tail, edge) =>
      (PropertyGraph.checkNames Multigraph.simpleNames edge.properties).map fun _ =>
        m.link tail edge.target .null (Assoc.put "tree" (.bool false) edge.properties))
    (.empty true false)

def linkEnds (link : Link VertexId) : VertexId × VertexId := (link.tail, link.head)

def distanceLabel (result : Result Float) (edge : VertexId × VertexId) :
    (VertexId × VertexId) × String :=
  match Assoc.get? edge.2 result.values with
  | some value => (edge, Decimal.general value.weight)
  | none => (edge, "")

def make (g : PropertyGraph) (result : Result Float) (options : DrawOptions) :
    Except Fault Drawing := do
  let tree := result.tree
  let m ← merged (← others g tree options)
  let layout ← Layout.ofOptions options
  .ok {
    title := heading result
    layout
    nodeSize := options.nodeSize
    nodes := g.ids.map fun id => (id, role result id)
    thin := m.links.mergeSort fun a b => VertexId.cmpPair (linkEnds a) (linkEnds b) != .gt
    bold := tree
    edgeLabels :=
      if options.showWeights.isTrue then some (tree.map (distanceLabel result)) else none }

/-- Every edge with its properties; `tree` tells the bold ones. -/
def edges (d : Drawing) : List (VertexId × VertexId × Properties) :=
  let all := d.thin.map (fun link => (link.tail, link.head, link.properties)) ++
    d.bold.map fun (tail, head) => (tail, head, [("tree", Value.bool true)])
  all.mergeSort fun a b => VertexId.cmpPair (a.1, a.2.1) (b.1, b.2.1) != .gt

end Drawing

end BulkPaths
