import BulkPaths.Multigraph
import BulkPaths.Proofs.Rearrangement

/-!
# How graphs are made

A graph is made by calls: one adds a vertex or an edge, or makes a whole graph of given edges or of
the links of another kind of graph. A call can be refused, and one that is refused may have added a
vertex before. Whatever the calls, the edges of a vertex are those whose calls were accepted, in
order, and each of these calls has added one edge.
-/

namespace BulkPaths

/-- The ends of an edge and its properties, as they are given. -/
abbrev GivenEdge := Value × Value × Properties

namespace VertexId

theorem ofValue_eq_ok {value : Value} {v : VertexId} :
    ofValue value = .ok v ↔ value = v.toValue ∧ v ≠ .utf8 "" := by
  constructor
  · intro h
    unfold ofValue at h
    split at h
    case h_2 s =>
      split at h
      · cases h
      case isFalse hs =>
        cases h
        refine ⟨rfl, fun heq => hs ?_⟩
        cases heq
        rfl
    all_goals
      cases h
      try exact ⟨rfl, by simp⟩
  · rintro ⟨rfl, hne⟩
    cases v with
    | long n => rfl
    | utf8 s =>
        have hs : s.isEmpty = false := by
          rw [← Bool.not_eq_true, String.isEmpty_iff]
          exact fun heq => hne (congrArg utf8 heq)
        simp [toValue, ofValue, hs]
    | uuid u => rfl

end VertexId

namespace PropertyGraph

variable {g g' : PropertyGraph} {added : List GivenEdge} {tail head : Value}
  {properties : Properties} {v : VertexId}

theorem addEdge_of_ok {u v : VertexId} (hnames : checkNames reservedNames properties = .ok ())
    (htail : VertexId.ofValue tail = .ok u) (hhead : VertexId.ofValue head = .ok v) :
    g.addEdge tail head properties =
      (((g.addVertex u).addVertex v).connect u v properties, .ok ()) := by
  simp only [addEdge, addValue, hnames, htail, hhead]

/-- Why an edge is refused, and the graph that is left. -/
inductive Refused (g : PropertyGraph) (tail head : Value) (properties : Properties) :
    Fault → PropertyGraph → Prop
  | name {fault : Fault} (reserved : checkNames reservedNames properties = .error fault) :
      Refused g tail head properties fault g
  | tail {fault : Fault} (named : checkNames reservedNames properties = .ok ())
      (unusable : VertexId.ofValue tail = .error fault) : Refused g tail head properties fault g
  | head {fault : Fault} {u : VertexId} (named : checkNames reservedNames properties = .ok ())
      (usable : VertexId.ofValue tail = .ok u) (unusable : VertexId.ofValue head = .error fault) :
      Refused g tail head properties fault (g.addVertex u)

theorem addEdge_cases (g : PropertyGraph) (tail head : Value) (properties : Properties) :
    (∃ fault h, Refused g tail head properties fault h ∧
      g.addEdge tail head properties = (h, .error fault)) ∨
    ∃ u v, checkNames reservedNames properties = .ok () ∧ VertexId.ofValue tail = .ok u ∧
      VertexId.ofValue head = .ok v ∧ g.addEdge tail head properties =
        (((g.addVertex u).addVertex v).connect u v properties, .ok ()) := by
  cases hnames : checkNames reservedNames properties with
  | error fault => exact .inl ⟨fault, g, .name hnames, by simp only [addEdge, hnames]⟩
  | ok _ =>
      cases htail : VertexId.ofValue tail with
      | error fault =>
          exact .inl ⟨fault, g, .tail hnames htail, by simp only [addEdge, addValue, hnames, htail]⟩
      | ok u =>
          cases hhead : VertexId.ofValue head with
          | error fault =>
              exact .inl ⟨fault, g.addVertex u, .head hnames htail hhead,
                by simp only [addEdge, addValue, hnames, htail, hhead]⟩
          | ok v => exact .inr ⟨u, v, rfl, rfl, rfl, addEdge_of_ok hnames htail hhead⟩

/-- The edge that a given one stands for at a vertex, if it leaves that vertex. -/
def leaving (v : VertexId) (given : GivenEdge) : Option Edge :=
  match VertexId.ofValue given.1, VertexId.ofValue given.2.1 with
  | .ok tail, .ok head =>
      if tail = v then some { target := head, properties := given.2.2 } else none
  | _, _ => none

/-- The edges that a link stands for: without direction also the way back between two ends. -/
def ways (directed : Bool) (link : Link Value) : List GivenEdge :=
  (link.tail, link.head, link.properties) ::
    if directed || link.tail == link.head then [] else [(link.head, link.tail, link.properties)]

/-- The graph holds the added edges and no others. -/
structure Records (g : PropertyGraph) (added : List GivenEdge) : Prop where
  named : ∀ v ∈ g.ids, v ≠ .utf8 ""
  out : ∀ v, g.out v = added.filterMap (leaving v)
  count : g.edgeCount = added.length
  names : ∀ given ∈ added, checkNames reservedNames given.2.2 = .ok ()

theorem edgeCount_withEdges (g : PropertyGraph) (v : VertexId) (edges : List Edge)
    (targets : ∀ edge ∈ edges, edge.target = v ∨ edge.target ∈ g.ids) :
    (g.withEdges v edges targets).edgeCount =
      g.edgeCount + edges.length - (g.out v).length := by
  apply Nat.eq_sub_of_add_eq
  simp only [edgeCount, rows, withEdges, out, edges?, List.length_flatMap, List.length_map]
  induction g.adjacency with
  | nil => simp [Assoc.put, Assoc.get?]
  | cons row rest ih =>
      obtain ⟨u, old⟩ := row
      by_cases hu : u = v
      · simp [Assoc.put, Assoc.get?, hu]
        omega
      · simp only [Assoc.put, Assoc.get?, if_neg hu, List.map_cons, List.sum_cons]
        omega

theorem edgeCount_addVertex (g : PropertyGraph) (v : VertexId) :
    (g.addVertex v).edgeCount = g.edgeCount := by
  unfold addVertex
  split
  case h_1 => rfl
  case h_2 hnone =>
    rw [edgeCount_withEdges, out, hnone]
    rfl

theorem edgeCount_connect (g : PropertyGraph) (tail head : VertexId) (properties : Properties) :
    (g.connect tail head properties).edgeCount = g.edgeCount + 1 := by
  have hboth : ((g.addVertex tail).addVertex head).edgeCount = g.edgeCount := by
    rw [edgeCount_addVertex, edgeCount_addVertex]
  unfold connect
  rw [edgeCount_withEdges, hboth, List.length_append, List.length_singleton]
  unfold out
  omega

namespace Records

theorem empty : Records empty [] where
  named := by simp [PropertyGraph.empty, ids, Assoc.keys]
  out _ := rfl
  count := rfl
  names := by simp

theorem addVertex (h : Records g added) (hv : v ≠ .utf8 "") : Records (g.addVertex v) added where
  named u hu := by
    rcases (mem_ids_addVertex ..).mp hu with rfl | hold
    · exact hv
    · exact h.named u hold
  out u := by rw [out_addVertex, h.out]
  count := by rw [edgeCount_addVertex, h.count]
  names := h.names

theorem addValue (h : Records g added) (id : Value) : Records (g.addValue id).1 added := by
  unfold PropertyGraph.addValue
  split
  case h_1 hid => exact h.addVertex (VertexId.ofValue_eq_ok.mp hid).2
  case h_2 => exact h

theorem connect {u v : VertexId} (h : Records g added)
    (hnames : checkNames reservedNames properties = .ok ()) (htail : VertexId.ofValue tail = .ok u)
    (hhead : VertexId.ofValue head = .ok v) :
    Records (g.connect u v properties) (added ++ [(tail, head, properties)]) where
  named w hw := by
    rcases (mem_ids_connect ..).mp hw with hold | rfl | rfl
    · exact h.named w hold
    · exact (VertexId.ofValue_eq_ok.mp htail).2
    · exact (VertexId.ofValue_eq_ok.mp hhead).2
  out w := by
    rw [out_connect, h.out, List.filterMap_append]
    by_cases hw : u = w
    · simp [leaving, htail, hhead, hw]
    · simp [leaving, htail, hhead, hw, Ne.symm hw]
  count := by rw [edgeCount_connect, h.count, List.length_append, List.length_singleton]
  names given hgiven := by
    rcases List.mem_append.mp hgiven with hold | hnew
    · exact h.names given hold
    · rw [List.mem_singleton.mp hnew]
      exact hnames

/-- The graph of a call that goes through has the edge; what another call leaves has no edge more.
-/
theorem addEdge (h : Records g added) (tail head : Value) (properties : Properties) :
    (g.addEdge tail head properties).2.isOk ∧
        Records (g.addEdge tail head properties).1 (added ++ [(tail, head, properties)]) ∨
      ¬(g.addEdge tail head properties).2.isOk ∧
        Records (g.addEdge tail head properties).1 added := by
  rcases g.addEdge_cases tail head properties with
    ⟨fault, left, hrefused, heq⟩ | ⟨u, v, hnames, htail, hhead, heq⟩
  · rw [heq]
    refine .inr ⟨Bool.false_ne_true, ?_⟩
    cases hrefused with
    | name | tail => exact h
    | head _ usable => exact h.addVertex (VertexId.ofValue_eq_ok.mp usable).2
  · rw [heq]
    have hends := (h.addVertex (VertexId.ofValue_eq_ok.mp htail).2).addVertex
      (VertexId.ofValue_eq_ok.mp hhead).2
    exact .inl ⟨rfl, hends.connect hnames htail hhead⟩

theorem committed_addValue {id : Value} (h : Records g added)
    (hdone : committed (g.addValue id) = .ok g') : Records g' added := by
  have hadd := h.addValue id
  unfold committed at hdone
  split at hdone
  case h_1 heq =>
    cases hdone
    rwa [heq] at hadd
  case h_2 => cases hdone

theorem committed_addEdge (h : Records g added)
    (hdone : committed (g.addEdge tail head properties) = .ok g') :
    Records g' (added ++ [(tail, head, properties)]) := by
  have hadd := h.addEdge tail head properties
  unfold committed at hdone
  split at hdone
  case h_1 heq =>
    cases hdone
    rw [heq] at hadd
    exact (hadd.resolve_right fun hrefused => hrefused.1 rfl).2
  case h_2 => cases hdone

/-- Steps that each add the edges that they are made for. -/
theorem foldlM {α : Type} {step : PropertyGraph → α → Except Fault PropertyGraph}
    (made : α → List GivenEdge)
    (hstep : ∀ {g g' added a}, Records g added → step g a = .ok g' → Records g' (added ++ made a))
    {items : List α} (h : Records g added) (hdone : items.foldlM step g = .ok g') :
    Records g' (added ++ items.flatMap made) := by
  induction items generalizing g added with
  | nil =>
      cases hdone
      simpa using h
  | cons item items ih =>
      rw [List.foldlM_cons] at hdone
      obtain ⟨next, hnext, hrest⟩ := bind_eq_ok.mp hdone
      rw [List.flatMap_cons, ← List.append_assoc]
      exact ih (hstep h hnext) hrest

theorem addValues {ids : List Value}
    (hdone : ids.foldlM (fun g id => committed (g.addValue id)) PropertyGraph.empty = .ok g) :
    Records g [] := by
  have hrecords := foldlM (fun _ => [])
    (fun h hnext => by simpa using h.committed_addValue hnext) empty hdone
  rwa [List.nil_append, List.flatMap_eq_nil_iff.mpr fun _ _ => rfl] at hrecords

theorem ofEdges {vertices : List Value} {edges : List GivenEdge}
    (hdone : PropertyGraph.ofEdges vertices edges = .ok g) : Records g edges := by
  unfold PropertyGraph.ofEdges at hdone
  obtain ⟨start, hstart, hdone⟩ := bind_eq_ok.mp hdone
  have hrecords := foldlM (fun given => [given])
    (fun h hnext => h.committed_addEdge hnext) (addValues hstart) hdone
  simpa using hrecords

theorem addLink {directed : Bool} {link : Link Value} (h : Records g added)
    (hdone : PropertyGraph.addLink directed g link = .ok g') :
    Records g' (added ++ ways directed link) := by
  unfold PropertyGraph.addLink at hdone
  obtain ⟨next, hnext, hdone⟩ := bind_eq_ok.mp hdone
  have hnext := h.committed_addEdge hnext
  unfold ways
  split at hdone
  case isTrue honce =>
    cases hdone
    rw [if_pos honce]
    exact hnext
  case isFalse htwice =>
    rw [if_neg htwice, List.append_cons]
    exact hnext.committed_addEdge hdone

theorem ofMultigraph {m : Multigraph Value} (hdone : PropertyGraph.ofMultigraph m = .ok g) :
    Records g (m.listing.flatMap (ways m.directed)) := by
  unfold PropertyGraph.ofMultigraph at hdone
  obtain ⟨start, hstart, hdone⟩ := bind_eq_ok.mp hdone
  exact foldlM (ways m.directed) (fun h hnext => h.addLink hnext) (addValues hstart) hdone

end Records

end PropertyGraph

/-- What is called to make a graph or to add to one. -/
inductive GraphCall
  | vertex (id : Value)
  | edge (tail head : Value) (properties : Properties)
  | edges (vertices : List Value) (edges : List GivenEdge)
  | links (m : Multigraph Value)

/-- A graph under construction, and the edges whose calls were accepted since it was made. -/
structure Journal where
  graph : PropertyGraph
  added : List GivenEdge

namespace Journal

def empty : Journal := { graph := .empty, added := [] }

/-- A call that makes a graph replaces the one before, unless it is refused. -/
def call (j : Journal) : GraphCall → Journal
  | .vertex id => { j with graph := (j.graph.addValue id).1 }
  | .edge tail head properties =>
    match j.graph.addEdge tail head properties with
    | (graph, .ok _) => { graph, added := j.added ++ [(tail, head, properties)] }
    | (graph, .error _) => { j with graph }
  | .edges vertices edges =>
    match PropertyGraph.ofEdges vertices edges with
    | .ok graph => { graph, added := edges }
    | .error _ => j
  | .links m =>
    match PropertyGraph.ofMultigraph m with
    | .ok graph => { graph, added := m.listing.flatMap (PropertyGraph.ways m.directed) }
    | .error _ => j

def ofCalls (calls : List GraphCall) : Journal := calls.foldl call empty

variable {j : Journal}

theorem records_call (h : j.graph.Records j.added) (c : GraphCall) :
    (j.call c).graph.Records (j.call c).added := by
  cases c with
  | vertex id => exact h.addValue id
  | edge tail head properties =>
      have hadd := h.addEdge tail head properties
      simp only [call]
      split
      case h_1 heq =>
        rw [heq] at hadd
        exact (hadd.resolve_right fun hrefused => hrefused.1 rfl).2
      case h_2 heq =>
        rw [heq] at hadd
        exact (hadd.resolve_left fun haccepted => Bool.false_ne_true haccepted.1).2
  | edges vertices edges =>
      simp only [call]
      split
      case h_1 hdone => exact .ofEdges hdone
      case h_2 => exact h
  | links m =>
      simp only [call]
      split
      case h_1 hdone => exact .ofMultigraph hdone
      case h_2 => exact h

theorem records_ofCalls (calls : List GraphCall) :
    (ofCalls calls).graph.Records (ofCalls calls).added := by
  suffices hfrom : ∀ j : Journal, j.graph.Records j.added →
      (calls.foldl call j).graph.Records (calls.foldl call j).added from
    hfrom empty .empty
  intro j hj
  induction calls generalizing j with
  | nil => exact hj
  | cons c calls ih => exact ih (j.call c) (records_call hj c)

/-- What a graph promises that was made by calls. -/
structure Faithful (j : Journal) : Prop where
  /-- Whatever names a vertex finds that vertex, with its edges in the order of the calls. -/
  vertex : ∀ {id v}, VertexId.ofValue id = .ok v → v ∈ j.graph.ids →
    j.graph.vertex id = .ok (v, j.added.filterMap (PropertyGraph.leaving v))
  named : ∀ v ∈ j.graph.ids, VertexId.ofValue v.toValue = .ok v
  distinct : j.graph.ids.Nodup
  targets : ∀ v, ∀ edge ∈ j.graph.out v, edge.target ∈ j.graph.ids
  count : j.graph.edgeCount = j.added.length

theorem faithful_ofCalls (calls : List GraphCall) : (ofCalls calls).Faithful where
  vertex := by
    intro id v hid hv
    obtain ⟨edges, hedges⟩ := PropertyGraph.exists_edges _ hv
    have hout := (records_ofCalls calls).out v
    rw [PropertyGraph.out, hedges, Option.getD_some] at hout
    refine bind_eq_ok.mpr ⟨v, hid, ?_⟩
    rw [hedges, hout]
  named v hv := VertexId.ofValue_eq_ok.mpr ⟨rfl, (records_ofCalls calls).named v hv⟩
  distinct := (ofCalls calls).graph.distinct
  targets v edge hedge := by
    unfold PropertyGraph.out at hedge
    cases hedges : (ofCalls calls).graph.edges? v with
    | none => simp [hedges] at hedge
    | some edges =>
        rw [hedges, Option.getD_some] at hedge
        exact PropertyGraph.target_mem_ids _ hedges edge hedge
  count := (records_ofCalls calls).count

end Journal

end BulkPaths
