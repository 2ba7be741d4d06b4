import BulkPaths.Proofs.Copies

/-!
# Refused edges

An edge is refused for a name among its properties or for one of its ends. The ends become vertices
one after the other, and the tail is a vertex before the head is looked at. So a refused edge never
shows among the edges, but it may leave a trace: a tail that was no vertex yet stays behind as one
without edges if the head is no identifier. The trace does no harm to a caller who tries again,
since the tail would have come to stand in that place anyway.
-/

namespace BulkPaths.PropertyGraph

variable {g h : PropertyGraph} {tail head : Value} {properties : Properties} {fault : Fault}
  {u v : VertexId}

theorem refused_of_addEdge (h : (g.addEdge tail head properties).2 = .error fault) :
    Refused g tail head properties fault (g.addEdge tail head properties).1 := by
  rcases g.addEdge_cases tail head properties with
    ⟨fault', left, hrefused, heq⟩ | ⟨_, _, _, _, _, heq⟩
  · rw [heq] at h ⊢
    cases h
    exact hrefused
  · rw [heq] at h
    cases h

theorem adjacency_addVertex_of_not_mem (hv : v ∉ g.ids) :
    (g.addVertex v).adjacency = g.adjacency ++ [(v, [])] := by
  unfold addVertex edges?
  rw [Assoc.get?_eq_none hv]
  exact Assoc.put_of_not_mem [] hv

/-- A vertex that is added brings no edge with it and takes none away. -/
theorem rows_addVertex (g : PropertyGraph) (v : VertexId) : (g.addVertex v).rows = g.rows := by
  by_cases hv : v ∈ g.ids
  · rw [addVertex_of_mem hv]
  · rw [rows, adjacency_addVertex_of_not_mem hv, List.flatMap_append]
    exact List.append_nil _

/-- The edge would strand its tail: its names are fine and its tail is a new identifier, but its
head is none. -/
structure Strands (g : PropertyGraph) (tail head : Value) (properties : Properties)
    (u : VertexId) : Prop where
  named : ∀ property ∈ properties, property.1 ∉ reservedNames
  usable : VertexId.ofValue tail = .ok u
  new : u ∉ g.ids
  unusable : ∃ fault, VertexId.ofValue head = .error fault

/-- What is left of a graph when an edge has been refused. -/
structure Aftermath (g : PropertyGraph) (tail head : Value) (properties : Properties)
    (h : PropertyGraph) : Prop where
  rows : h.rows = g.rows
  unchanged : h = g ↔ ∀ u, ¬g.Strands tail head properties u
  stranded : ∀ {u}, g.Strands tail head properties u → h.adjacency = g.adjacency ++ [(u, [])]
  again : ∀ {head' properties'}, (g.addEdge tail head' properties').2 = .ok () →
    h.addEdge tail head' properties' = g.addEdge tail head' properties'

/-- A call that strands nothing leaves the graph alone. -/
theorem Aftermath.of_unchanged (h : ∀ u, ¬g.Strands tail head properties u) :
    Aftermath g tail head properties g where
  rows := rfl
  unchanged := iff_of_true rfl h
  stranded hu := absurd hu (h _)
  again _ := rfl

/-- A call that is accepted finds its tail where it would have put it. -/
theorem addEdge_addVertex (htail : VertexId.ofValue tail = .ok u)
    (haccepted : (g.addEdge tail head properties).2 = .ok ()) :
    (g.addVertex u).addEdge tail head properties = g.addEdge tail head properties := by
  have htwice : (g.addVertex u).addVertex u = g.addVertex u :=
    addVertex_of_mem ((mem_ids_addVertex ..).mpr (.inl rfl))
  rcases g.addEdge_cases tail head properties with
    ⟨fault, left, _, heq⟩ | ⟨_, v, hnames, _, hhead, _⟩
  · rw [heq] at haccepted
    cases haccepted
  · rw [addEdge_of_ok hnames htail hhead, addEdge_of_ok hnames htail hhead, htwice]

theorem Refused.aftermath (hrefused : Refused g tail head properties fault h) :
    Aftermath g tail head properties h := by
  cases hrefused with
  | name reserved =>
      refine .of_unchanged fun u hu => ?_
      cases reserved.symm.trans (checkNames_eq_ok.mpr hu.named)
  | tail _ unusable =>
      refine .of_unchanged fun u hu => ?_
      cases unusable.symm.trans hu.usable
  | @head u named usable unusable =>
      by_cases hknown : u ∈ g.ids
      · rw [addVertex_of_mem hknown]
        refine .of_unchanged fun u' hu' => hu'.new ?_
        cases usable.symm.trans hu'.usable
        exact hknown
      · have hstrands : g.Strands tail head properties u :=
          ⟨checkNames_eq_ok.mp named, usable, hknown, _, unusable⟩
        exact
          { rows := g.rows_addVertex u
            unchanged := by
              refine iff_of_false (fun hsame => hknown ?_) fun hnone => hnone u hstrands
              exact hsame ▸ (mem_ids_addVertex ..).mpr (.inl rfl)
            stranded := by
              intro u' hu'
              cases usable.symm.trans hu'.usable
              exact adjacency_addVertex_of_not_mem hknown
            again := addEdge_addVertex usable }

/-- **A refused edge leaves at most its tail.** Whatever the graph and whatever is given, the edges
stay as they are. The graph is the same as before unless the tail is stranded, and then it is the
same with the tail as one more vertex, the last one and without edges. In either case the call with
a head and properties that are accepted then has the result that it would have had at once. -/
theorem refused_edge_leaves_at_most_its_tail (g : PropertyGraph) (tail head : Value)
    (properties : Properties) {fault : Fault}
    (hrefused : (g.addEdge tail head properties).2 = .error fault) :
    Aftermath g tail head properties (g.addEdge tail head properties).1 :=
  (refused_of_addEdge hrefused).aftermath

/-- A street from 1 to 2. -/
def street : PropertyGraph := empty.connect (.long 1) (.long 2) []

/-- Without a head, the edge from 1 leaves the street as it is, and the edge from 7 leaves 7 at its
end. -/
theorem refused_edge_leaves_at_most_its_tail_street :
    Aftermath street (.int 1) .null [] (street.addEdge (.int 1) .null []).1 ∧
      Aftermath street (.int 7) .null [] (street.addEdge (.int 7) .null []).1 ∧
      (street.addEdge (.int 1) .null []).1.ids = [.long 1, .long 2] ∧
      (street.addEdge (.int 7) .null []).1.ids = [.long 1, .long 2, .long 7] :=
  ⟨refused_edge_leaves_at_most_its_tail street (.int 1) .null [] rfl,
    refused_edge_leaves_at_most_its_tail street (.int 7) .null [] rfl, by decide, by decide⟩

/-- The truth value is refused as a head, and the empty graph has the vertex `a`. -/
theorem refused_edge_adds_vertex :
    (empty.addEdge (.text "a") (.bool true) []).2 = .error (.boolId true) ∧
      empty.ids = [] ∧ (empty.addEdge (.text "a") (.bool true) []).1.ids = [.utf8 "a"] :=
  ⟨rfl, rfl, rfl⟩

end BulkPaths.PropertyGraph
