import BulkPaths.Graph
import BulkPaths.Members

/-!
Graphs over given values, directed or not, with or without parallel edges, and their exchange with
property graphs. Edges are listed vertex by vertex, and there neighbour by neighbour in the order
in which they were attached.
-/

namespace BulkPaths

namespace Value

def numberKey? : Value → Option Number
  | .bool b => some (.int (if b then 1 else 0))
  | value => value.number?

/-- Numbers are the same key if they are equal, whatever their kinds. -/
def sameNumber : Number → Number → Bool
  | .int m, .int n => m == n
  | .real x, .real y => x == y
  | .int n, .real x | .real x, .int n =>
    x.isFinite && !Binary64.intBelow n x && !Binary64.intBelow (-n) (-x)

/-- Whether two values are one key; a value that cannot be a key is the same as none. -/
def sameKey (a b : Value) : Bool :=
  match a, b with
  | .null, .null => true
  | .text s, .text t => s == t
  | .uuid u, .uuid v => u == v
  | _, _ =>
    match a.numberKey?, b.numberKey? with
    | some m, some n => sameNumber m n
    | _, _ => false

instance : BEq Value := ⟨sameKey⟩

end Value

structure Link (N : Type) where
  tail : N
  head : N
  key : Value
  properties : Properties

/-- Links are kept in the order in which they were made. -/
structure Multigraph (N : Type) where
  directed : Bool
  parallel : Bool
  nodes : List N
  links : List (Link N)

namespace Multigraph

variable {N : Type} [BEq N]

def empty (directed parallel : Bool) : Multigraph N :=
  { directed, parallel, nodes := [], links := [] }

def addNode (m : Multigraph N) (node : N) : Multigraph N :=
  if m.nodes.contains node then m else { m with nodes := m.nodes ++ [node] }

/-- Whether a link leads from one node to the other; without direction it leads both ways. -/
def leads (m : Multigraph N) (tail head : N) (link : Link N) : Bool :=
  (link.tail == tail && link.head == head) ||
    (!m.directed && link.tail == head && link.head == tail)

def between (m : Multigraph N) (tail head : N) : List (Link N) := m.links.filter (m.leads tail head)

/-- The first of `count`, `count + 1`, … that is no key yet. -/
def freshKey (keys : List Value) : Nat → Nat → Value
  | 0, count => .int count
  | fuel + 1, count =>
    if keys.contains (.int count) then freshKey keys fuel (count + 1) else .int count

/-- The key of a new link: the given one, or the next number. Without parallel links there is one
key only. -/
def keyFor (m : Multigraph N) (tail head : N) (key : Value) : Value :=
  if !m.parallel then .int 0
  else
    match key with
    | .null =>
      let keys := (m.between tail head).map Link.key
      freshKey keys keys.length keys.length
    | key => key

/-- Links two nodes; under a key that is there already the properties are merged. -/
def link (m : Multigraph N) (tail head : N) (key : Value) (properties : Properties) :
    Multigraph N :=
  let m := (m.addNode tail).addNode head
  let key := m.keyFor tail head key
  let isSame := fun link => m.leads tail head link && link.key == key
  if m.links.any isSame then
    { m with links := m.links.map fun link =>
        if isSame link then { link with properties := Assoc.merge link.properties properties }
        else link }
  else { m with links := m.links ++ [{ tail, head, key, properties }] }

def otherEnd? (m : Multigraph N) (node : N) (link : Link N) : Option N :=
  if link.tail == node then some link.head
  else if !m.directed && link.head == node then some link.tail
  else none

/-- Neighbours in the order of attachment. -/
def neighbours (m : Multigraph N) (node : N) : List N :=
  (m.links.filterMap (m.otherEnd? node)).foldl
    (fun seen other => if seen.contains other then seen else seen ++ [other]) []

/-- The links at the given nodes; without direction those to nodes seen before are left out. -/
def listFrom (m : Multigraph N) (seen : List N) : List N → List (Link N)
  | [] => []
  | node :: rest =>
    let others := (m.neighbours node).filter fun other => m.directed || !seen.contains other
    others.flatMap (fun other =>
        (m.between node other).map fun link => { link with tail := node, head := other }) ++
      listFrom m (node :: seen) rest

def listing (m : Multigraph N) : List (Link N) := m.listFrom [] m.nodes

end Multigraph

namespace Multigraph

/-- Names of the ends of a link where there may be parallel ones. -/
def parallelNames : List String := ["self", "u_for_edge", "v_for_edge"]

/-- Names of the ends of a link where there are no parallel ones. -/
def simpleNames : List String := ["self", "u_of_edge", "v_of_edge"]

def checkNode : Value → Except Fault Unit
  | .null => .error .nullNode
  | value => if value.isKey then .ok () else .error .notHashable

/-- The node that a value stands for: itself, or if it cannot be a key, the first of two parts, and
the second part holds its data. -/
def nodeOf (value : Value) : Except Fault Value :=
  if value.isKey then .ok value
  else do
    let (node, data) ← value.couple
    if !node.isKey then .error .notHashable
    else
      let _ ← data.members
      .ok node

def addValue (m : Multigraph Value) (value : Value) : Except Fault (Multigraph Value) := do
  let node ← nodeOf value
  checkNode node
  .ok (m.addNode node)

/-- Links two nodes under the next key. -/
def linkNext (m : Multigraph Value) (tail head : Value) (properties : Properties) :
    Except Fault (Multigraph Value) := do
  checkNode tail
  checkNode head
  .ok (m.link tail head .null properties)

/-- Links two nodes; a property named `key` is the key and no property. -/
def linkKeyed (m : Multigraph Value) (tail head : Value) (properties : Properties) :
    Except Fault (Multigraph Value) := do
  PropertyGraph.checkNames parallelNames properties
  checkNode tail
  checkNode head
  let key := (Assoc.get? "key" properties).getD .null
  if key.isKey then .ok (m.link tail head key (properties.filter fun p => p.1 != "key"))
  else .error .notHashable

def ofValues (directed parallel : Bool) (nodes : List Value)
    (edges : List (Value × Value × Properties)) : Except Fault (Multigraph Value) := do
  let m ← nodes.foldlM addValue (empty directed parallel)
  edges.foldlM (fun m (tail, head, properties) => m.linkNext tail head properties) m

end Multigraph

namespace PropertyGraph

/-- One edge per link, and without direction one more for the way back. -/
def addLink (directed : Bool) (g : PropertyGraph) (link : Link Value) :
    Except Fault PropertyGraph := do
  let g ← committed (g.addEdge link.tail link.head link.properties)
  if directed || link.tail == link.head then .ok g
  else committed (g.addEdge link.head link.tail link.properties)

def ofMultigraph (m : Multigraph Value) : Except Fault PropertyGraph := do
  let g ← m.nodes.foldlM (fun g node => committed (g.addValue node)) empty
  m.listing.foldlM (addLink m.directed) g

/-- The same vertices and edges over the bare identifiers. -/
def toMultigraph (g : PropertyGraph) : Except Fault (Multigraph Value) :=
  let nodes := g.ids.foldl (fun m id => m.addNode id.toValue) (.empty true true)
  g.rows.foldlM
    (fun m (tail, edge) => m.linkKeyed tail.toValue edge.target.toValue edge.properties) nodes

end PropertyGraph

end BulkPaths
