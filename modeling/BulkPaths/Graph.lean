import BulkPaths.Assoc
import BulkPaths.Fault
import BulkPaths.PathValue

/-!
Directed property graphs. Self-loops and parallel edges are kept, and vertices stand in the order
in which they were first named.
-/

namespace BulkPaths

structure Edge where
  target : VertexId
  properties : Properties
  deriving Repr

def Edge.property? (edge : Edge) (name : String) : Option Value := Assoc.get? name edge.properties

/-- Outgoing edges by vertex. Every vertex stands once, and edges lead to vertices. -/
structure PropertyGraph where
  adjacency : List (VertexId × List Edge)
  distinct : (Assoc.keys adjacency).Nodup
  closed : ∀ row ∈ adjacency, ∀ edge ∈ row.2, edge.target ∈ Assoc.keys adjacency
  deriving Repr

namespace PropertyGraph

def empty : PropertyGraph := { adjacency := [], distinct := .nil, closed := by simp }

def edges? (g : PropertyGraph) (id : VertexId) : Option (List Edge) := Assoc.get? id g.adjacency

def ids (g : PropertyGraph) : List VertexId := Assoc.keys g.adjacency

def contains (g : PropertyGraph) (id : VertexId) : Bool := Assoc.contains id g.adjacency

def vertexCount (g : PropertyGraph) : Nat := g.adjacency.length

/-- The graph with other outgoing edges at one vertex, which is added if it is new. -/
def withEdges (g : PropertyGraph) (id : VertexId) (edges : List Edge)
    (targets : ∀ edge ∈ edges, edge.target = id ∨ edge.target ∈ g.ids) : PropertyGraph where
  adjacency := Assoc.put id edges g.adjacency
  distinct := Assoc.nodup_keys_put id edges g.distinct
  closed := by
    intro row hrow edge hedge
    rw [Assoc.mem_keys_put]
    rcases Assoc.mem_of_mem_put hrow with rfl | hold
    · exact targets edge hedge
    · exact .inr (g.closed row hold edge hedge)

theorem mem_ids_withEdges (g : PropertyGraph) (id other : VertexId) (edges : List Edge)
    (targets : ∀ edge ∈ edges, edge.target = id ∨ edge.target ∈ g.ids) :
    other ∈ (g.withEdges id edges targets).ids ↔ other = id ∨ other ∈ g.ids :=
  Assoc.mem_keys_put id other edges g.adjacency

theorem target_mem_ids (g : PropertyGraph) {id : VertexId} {edges : List Edge}
    (h : g.edges? id = some edges) : ∀ edge ∈ edges, edge.target ∈ g.ids :=
  g.closed (id, edges) (Assoc.mem_of_get? h)

def addVertex (g : PropertyGraph) (id : VertexId) : PropertyGraph :=
  match g.edges? id with
  | some _ => g
  | none => g.withEdges id [] (by simp)

theorem mem_ids_addVertex (g : PropertyGraph) (id other : VertexId) :
    other ∈ (g.addVertex id).ids ↔ other = id ∨ other ∈ g.ids := by
  unfold addVertex
  split
  case h_1 edges h =>
    refine ⟨.inr, ?_⟩
    rintro (rfl | hold)
    · exact Assoc.mem_keys_of_get? h
    · exact hold
  case h_2 => exact mem_ids_withEdges ..

/-- Adds both ends and then the edge, after the edges that its tail has already. -/
def connect (g : PropertyGraph) (tail head : VertexId) (properties : Properties) :
    PropertyGraph :=
  let both := (g.addVertex tail).addVertex head
  both.withEdges tail ((both.edges? tail).getD [] ++ [{ target := head, properties }]) (by
    intro edge hedge
    rcases List.mem_append.mp hedge with hold | hnew
    · cases h : both.edges? tail with
      | none => simp [h] at hold
      | some edges =>
        rw [h] at hold
        exact .inr (target_mem_ids both h edge hold)
    · rw [List.mem_singleton.mp hnew]
      exact .inr ((mem_ids_addVertex ..).mpr (.inl rfl)))

/-- Property names that stand for the edge itself and its ends. -/
def reservedNames : List String := ["self", "u", "v"]

def checkNames (reserved : List String) (properties : Properties) : Except Fault Unit :=
  match properties.find? fun property => reserved.contains property.1 with
  | some property => .error (.reservedName property.1)
  | none => .ok ()

/-- An edge between vertices, unless a property name is reserved. -/
def connectChecked (g : PropertyGraph) (tail head : VertexId) (properties : Properties) :
    Except Fault PropertyGraph :=
  (checkNames reservedNames properties).map fun _ => g.connect tail head properties

def addValue (g : PropertyGraph) (id : Value) : PropertyGraph × Except Fault VertexId :=
  match VertexId.ofValue id with
  | .ok id => (g.addVertex id, .ok id)
  | .error fault => (g, .error fault)

/-- Adds an edge between given identifiers. The tail becomes a vertex before the head is looked at,
and stays if the head is refused. -/
def addEdge (g : PropertyGraph) (tail head : Value) (properties : Properties) :
    PropertyGraph × Except Fault Unit :=
  match checkNames reservedNames properties with
  | .error fault => (g, .error fault)
  | .ok _ =>
    match g.addValue tail with
    | (g, .error fault) => (g, .error fault)
    | (g, .ok tail) =>
      match g.addValue head with
      | (g, .error fault) => (g, .error fault)
      | (g, .ok head) => (g.connect tail head properties, .ok ())

/-- Turns the graph of a failing step into a failure. -/
def committed {α : Type} : PropertyGraph × Except Fault α → Except Fault PropertyGraph
  | (g, .ok _) => .ok g
  | (_, .error fault) => .error fault

def ofEdges (vertices : List Value) (edges : List (Value × Value × Properties)) :
    Except Fault PropertyGraph := do
  let g ← vertices.foldlM (fun g id => committed (g.addValue id)) empty
  edges.foldlM (fun g (tail, head, properties) => committed (g.addEdge tail head properties)) g

def vertex (g : PropertyGraph) (id : Value) : Except Fault (VertexId × List Edge) := do
  let id ← VertexId.ofValue id
  match g.edges? id with
  | some edges => .ok (id, edges)
  | none => .error (.unknownVertex id)

/-- Whether a value names a vertex; what is no identifier names none. -/
def containsValue (g : PropertyGraph) (id : Value) : Bool :=
  match VertexId.ofValue id with
  | .ok id => g.contains id
  | .error _ => false

/-- Every edge with its tail, in the order of the vertices. -/
def rows (g : PropertyGraph) : List (VertexId × Edge) :=
  g.adjacency.flatMap fun (tail, edges) => edges.map fun edge => (tail, edge)

def edgeCount (g : PropertyGraph) : Nat := g.rows.length

end PropertyGraph

inductive Stage
  | unvisited
  | initialized
  | active
  | inactive
  deriving DecidableEq, Repr

def Stage.name : Stage → String
  | .unvisited => "unvisited"
  | .initialized => "initialized"
  | .active => "active"
  | .inactive => "inactive"

variable {W : Type} [PathWeight W]

structure Label (W : Type) where
  value : PathValue W
  stage : Stage
  deriving DecidableEq, Repr

def Label.fresh : Label W := { value := .unreached, stage := .unvisited }

/-- Labels by vertex; a vertex without one has a fresh label. -/
abbrev Labels (W : Type) := List (VertexId × Label W)

def Labels.label (labels : Labels W) (id : VertexId) : Label W :=
  (Assoc.get? id labels).getD .fresh

def Labels.set (labels : Labels W) (id : VertexId) (label : Label W) : Labels W :=
  Assoc.put id label labels

end BulkPaths
