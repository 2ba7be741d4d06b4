import BulkPaths.Decimal.Numeral
import BulkPaths.Format.Xml
import BulkPaths.Multigraph

/-!
GraphML documents. Keys declare the names and types of edge data; parallel edges are kept.
-/

namespace BulkPaths.GraphMl

open Xml

def space : String := address "graphml.graphdrawing.org" "xmlns"

def tag (part : String) : Name := { space, part }

inductive DataType
  | int
  | real
  | text
  | bool
  deriving DecidableEq, Repr

def typeNames : List (String × DataType) :=
  [("integer", .int), ("int", .int), ("long", .int), ("float", .real), ("double", .real),
    ("boolean", .bool), ("string", .text), ("yfiles", .text)]

structure Key where
  name : String
  type : DataType
  owner : Option String
  deriving DecidableEq, Repr

/-- Keys by identifier; an identifier may be missing. -/
abbrev Keys := List (Option String × Key)

abbrev Defaults := List (Option String × Value)

def boolWords : List (String × Bool) :=
  [("true", true), ("false", false), ("0", false), ("1", true)]

def DataType.read (type : DataType) (text : List Char) : Except Fault Value :=
  match type with
  | .text => .ok (.text (String.ofList text))
  | .int =>
    match Decimal.readInt text with
    | .ok n => .ok (.int n)
    | .error _ => .error .badScalar
  | .real => (Decimal.readFloat? text).elim (.error .badScalar) fun x => .ok (.real x)
  | .bool =>
    let word := Text.lower (String.ofList text)
    match Assoc.get? word boolWords with
    | some b => .ok (.bool b)
    | none => .error (.fieldNotFound word)

/-- A default has to be readable; an empty one is a text only. -/
def DataType.readDefault (type : DataType) (text : List Char) : Except Fault Value :=
  if text.isEmpty then
    match type with
    | .text => .ok (.text "None")
    | .bool => .error .notAWord
    | _ => .error .notAMapping
  else type.read text

def DataType.admits (type : DataType) (value : Value) : Except Fault Unit :=
  match type, value with
  | .int, .real x =>
    if x.isNaN then .error .badScalar else if x.isInf then .error .tooLarge else .ok ()
  | .real, .int n => (Binary64.ofInt? n).elim (.error .tooLarge) fun _ => .ok ()
  | .int, .text s | .real, .text s => (type.read s.toList).map fun _ => ()
  | _, _ => .ok ()

def keyType (e : Element) : Except Fault DataType :=
  if (e.attribute? "yfiles.type").isSome then .ok .text
  else
    let name := (e.attribute? "attr.type").getD "string"
    if (e.attribute? "attr.name").isNone then .error .unusableGraph
    else
      match Assoc.get? name typeNames with
      | some type => .ok type
      | none => .error (.fieldNotFound name)

def keyName (e : Element) : String :=
  ((e.attribute? "yfiles.type").orElse fun _ => e.attribute? "attr.name").getD ""

/-- A key that comes again is declared anew, but keeps its default if it has no other. -/
def addKey (known : Keys × Defaults) (e : Element) : Except Fault (Keys × Defaults) := do
  let (keys, defaults) := known
  let id := e.attribute? "id"
  let type ← keyType e
  let keys := Assoc.put id { name := keyName e, type, owner := e.attribute? "for" } keys
  match e.childrenNamed (tag "default") with
  | [] => .ok (keys, defaults)
  | default :: _ => .ok (keys, Assoc.put id (← type.readDefault default.text) defaults)

/-- The defaults for nodes and edges have to fit their keys, though nothing takes them. -/
def checkDefaults (keys : Keys) (defaults : Defaults) : Except Fault Unit :=
  defaults.forM fun (id, value) =>
    match Assoc.get? id keys with
    | some { type, owner := some "node", .. } | some { type, owner := some "edge", .. } =>
      type.admits value
    | _ => .ok ()

def drawingSpace : String := address "www.yworks.com" "xml/graphml"

def drawn (part : String) : Name := { space := drawingSpace, part }

def nodeShapes : List Name := ["GenericNode", "ShapeNode", "SVGNode", "ImageNode"].map drawn

def edgeShapes : List Name :=
  ["PolyLineEdge", "SplineEdge", "QuadCurveEdge", "BezierEdge", "ArcEdge"].map drawn

def attributeValue (e : Element) (part : String) : Value := (e.attribute? part).elim .null .text

def textValue (e : Element) : Value :=
  if e.text.isEmpty then .null else .text (String.ofList e.text)

/-- Place and form of a node, as one kind of shape tells them. -/
def addShape (e : Element) (data : Properties) (shape : Name) : Properties :=
  let data :=
    match e.grandchild? shape (drawn "Geometry") with
    | some g => Assoc.put "y" (attributeValue g "y") (Assoc.put "x" (attributeValue g "x") data)
    | none => data
  match e.grandchild? shape (drawn "Shape") with
  | some s => Assoc.put "shape_type" (attributeValue s "type") data
  | none => data

/-- The label within the first kind of shape that has one. -/
def addLabel (e : Element) (shapes : List Name) (part : String) (data : Properties) :
    Properties :=
  match shapes.findSome? fun shape => e.grandchild? shape (drawn part) with
  | some label => Assoc.put "label" (textValue label) data
  | none => data

/-- Data that holds elements tells how something is drawn, whatever its key. -/
def addDrawing (data : Properties) (e : Element) : Properties :=
  let data :=
    match e.childrenNamed (drawn "GenericNode") with
    | [] => data
    | node :: _ => Assoc.put "shape_type" (attributeValue node "configuration") data
  let data := nodeShapes.foldl (addShape e) data
  addLabel e edgeShapes "EdgeLabel" (addLabel e nodeShapes "NodeLabel" data)

def addData (keys : Keys) (data : Properties) (e : Element) : Except Fault Properties :=
  match Assoc.get? (e.attribute? "key") keys with
  | none => .error .unusableGraph
  | some key =>
    if !e.children.isEmpty then .ok (addDrawing data e)
    else if e.text.isEmpty then .ok (Assoc.put key.name (.text "") data)
    else (key.type.read e.text).map fun value => Assoc.put key.name value data

def dataOf (keys : Keys) (e : Element) : Except Fault Properties :=
  (e.childrenNamed (tag "data")).foldlM (addData keys) []

/-- A missing attribute reads as this word. -/
def nodeName (e : Element) (part : String) : String := (e.attribute? part).getD "None"

def nodeNames : List String := ["self", "node_for_adding"]

/-- A graph as read so far: whether two edges had the same ends, and the last edge identifier for
every pair of ends. -/
structure Draft where
  graph : Multigraph String
  parallel : Bool
  edgeIds : List ((String × String) × String)

def Draft.start (directed : Bool) : Draft :=
  { graph := .empty directed true, parallel := false, edgeIds := [] }

def addNode (keys : Keys) (draft : Draft) (e : Element) : Except Fault Draft := do
  let data ← dataOf keys e
  PropertyGraph.checkNames nodeNames data
  .ok { draft with graph := draft.graph.addNode (nodeName e "id") }

/-- An identifier that is a numeral counts as a number. -/
def edgeKey (id : String) : Value :=
  match Decimal.readInt id.toList with
  | .ok n => .int n
  | .error _ => .text id

def addEdge (keys : Keys) (draft : Draft) (e : Element) : Except Fault Draft := do
  let against := if draft.graph.directed then "false" else "true"
  if e.attribute? "directed" = some against then .error .unusableGraph
  else
    let tail := nodeName e "source"
    let head := nodeName e "target"
    let data ← dataOf keys e
    let id := (e.attribute? "id").getD ""
    let parallel := draft.parallel || !(draft.graph.between tail head).isEmpty
    if id.isEmpty then
      let key := (Assoc.get? "key" data).getD .null
      .ok { draft with graph := draft.graph.link tail head key data, parallel }
    else
      .ok {
        graph := draft.graph.link tail head (edgeKey id) data
        parallel
        edgeIds := Assoc.put (tail, head) id draft.edgeIds }

def addEdges (keys : Keys) (draft : Draft) (e : Element) : Except Fault Draft := do
  let draft ← (e.childrenNamed (tag "edge")).foldlM (addEdge keys) draft
  let _ ← dataOf keys e
  .ok draft

mutual

/-- Adds the nodes of a graph, and with every group the graph within it, then the edges. -/
def addGraph (keys : Keys) (defaults : Defaults) (draft : Draft) :
    Element → Except Fault Draft
  | .mk name attributes text children => do
    let e := Element.mk name attributes text children
    checkDefaults keys defaults
    if !(e.childrenNamed (tag "hyperedge")).isEmpty then .error .unusableGraph
    else
      let draft ← addNodes keys defaults draft children
      addEdges keys draft e

def addNodes (keys : Keys) (defaults : Defaults) (draft : Draft) :
    List Element → Except Fault Draft
  | [] => .ok draft
  | .mk name attributes text children :: rest => do
    let e := Element.mk name attributes text children
    if e.name != tag "node" then addNodes keys defaults draft rest
    else
      let draft ← addNode keys draft e
      if e.attribute? "yfiles.foldertype" = some "group" then
        let draft ← addGroup keys defaults draft children
        addNodes keys defaults draft rest
      else addNodes keys defaults draft rest

def addGroup (keys : Keys) (defaults : Defaults) (draft : Draft) :
    List Element → Except Fault Draft
  | [] => .error .noGroupGraph
  | e :: rest =>
    if e.name = tag "graph" then addGraph keys defaults draft e
    else addGroup keys defaults draft rest

end

def graphOf (keys : Keys) (defaults : Defaults) (e : Element) : Except Fault Draft :=
  addGraph keys defaults (.start (e.attribute? "edgedefault" = some "directed")) e

/-- The link with the identifiers of edges between its ends, the last one counting. -/
def Draft.identified (draft : Draft) (link : Link String) : Link String :=
  let ids := draft.edgeIds.filter fun entry => draft.graph.leads entry.1.1 entry.1.2 link
  { link with properties :=
      ids.foldl (fun data entry => Assoc.put "id" (.text entry.2) data) link.properties }

/-- Where no two edges have the same ends, an edge identifier becomes a property. -/
def Draft.finished (draft : Draft) : Multigraph String :=
  if draft.parallel then draft.graph
  else { draft.graph with links := draft.graph.links.map draft.identified }

def graphsOf (root : Element) : Except Fault (List (Multigraph String)) := do
  let (keys, defaults) ← (root.childrenNamed (tag "key")).foldlM addKey ([], [])
  let drafts ← (root.childrenNamed (tag "graph")).mapM (graphOf keys defaults)
  .ok (drafts.map Draft.finished)

def parse (content : ByteArray) : Except Fault (List (Multigraph String)) := do
  graphsOf (← Xml.read content)

/-- Gives a bare opening tag of the root the usual namespace. -/
def fillTag (content : ByteArray) : ByteArray :=
  let bare := "<graphml>".toUTF8.toList
  let full := ("<graphml xmlns=\"" ++ space ++ "\">").toUTF8.toList
  ⟨(Text.replaceAll bare full content.toList).toArray⟩

def firstGraph (content : ByteArray) : Except Fault (Multigraph String) := do
  match ← parse content with
  | m :: _ => .ok m
  | [] =>
    match ← parse (fillTag content) with
    | m :: _ => .ok m
    | [] => .error .unusableGraph

def wrap (path : String) (fault : Fault) : Fault :=
  match fault.kind with
  | .graph | .value | .encoding | .transcoding => .badMarkup path fault
  | _ => fault

def addVertex (g : PropertyGraph) (node : String) : Except Fault PropertyGraph :=
  (VertexId.read node).map g.addVertex

/-- Undirected edges between two vertices lead both ways. -/
def addLink (directed : Bool) (g : PropertyGraph) (link : Link String) :
    Except Fault PropertyGraph := do
  let tail ← VertexId.read link.tail
  let head ← VertexId.read link.head
  let g ← g.connectChecked tail head link.properties
  if directed || tail == head then .ok g else g.connectChecked head tail link.properties

def read (path : String) (content : ByteArray) : Except Fault PropertyGraph := do
  let m ← (firstGraph content).mapError (wrap path)
  let g ← m.nodes.foldlM addVertex .empty
  let g ← m.listing.foldlM (addLink m.directed) g
  if g.edgeCount = 0 then .error .noEdges else .ok g

end BulkPaths.GraphMl
