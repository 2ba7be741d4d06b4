import BulkPaths.Proofs.Multigraphs
import BulkPaths.Proofs.Rebuilding

/-!
# Copies of graphs

A graph is copied link by link into a multigraph over the bare identifiers, and the copy is read
back as a graph. The vertices come back in their order, and between two vertices the edges come back
in theirs. The exception is an edge with a property named `key`: the copy takes that property as the
key of the link, so it is lost, and edges under one key become one.
-/

namespace BulkPaths

theorem VertexId.toValue_beq_toValue (u v : VertexId) : (u.toValue == v.toValue) = (u == v) := by
  rw [beq_eq_decide u v]
  cases u <;> cases v
  case long.long m n => exact (beq_eq_decide m n).trans (decide_eq_decide.mpr (by simp))
  case utf8.utf8 s t => exact (beq_eq_decide s t).trans (decide_eq_decide.mpr (by simp))
  case uuid.uuid x y => exact (beq_eq_decide x y).trans (decide_eq_decide.mpr (by simp))
  all_goals rfl

theorem Multigraph.checkNode_toValue (v : VertexId) : checkNode v.toValue = .ok () := by
  cases v <;> rfl

namespace PropertyGraph

variable {g : PropertyGraph} {u v : VertexId}

/-- The edges from one vertex to another, by their properties. -/
def between (g : PropertyGraph) (u v : VertexId) : List Properties :=
  ((g.out u).filter fun edge => edge.target = v).map Edge.properties

/-- Whether a row leads from one vertex to another. -/
def joins (u v : VertexId) (row : VertexId × Edge) : Bool := row.1 = u ∧ row.2.target = v

theorem between_eq_rows {items : List (VertexId × Edge)}
    (h : g.out u = items.filterMap fun row => if u = row.1 then some row.2 else none) :
    g.between u v = (items.filter (joins u v)).map fun row => row.2.properties := by
  unfold between
  rw [h]
  clear h
  induction items with
  | nil => rfl
  | cons row items ih =>
      obtain ⟨tail, edge⟩ := row
      by_cases htail : u = tail
      · by_cases hhead : edge.target = v <;> simp_all [joins]
      · simp_all [joins, Ne.symm htail]

/-- The properties of a link; the one named `key` is none of them. -/
def kept (properties : Properties) : Properties :=
  properties.filter fun property => property.1 != "key"

/-- One more link, for one row. -/
def linkRow (m : Multigraph VertexId) (row : VertexId × Edge) : Multigraph VertexId :=
  m.link row.1 row.2.target ((Assoc.get? "key" row.2.properties).getD .null)
    (kept row.2.properties)

/-- The vertices of a copy, not yet linked. -/
def unlinked (g : PropertyGraph) : Multigraph VertexId :=
  { directed := true, parallel := true, nodes := g.ids, links := [] }

/-- The copy of a graph, over the identifiers themselves. -/
def copied (g : PropertyGraph) : Multigraph VertexId := g.rows.foldl linkRow g.unlinked

theorem linkKeyed_map {m : Multigraph VertexId} {m' : Multigraph Value} {row : VertexId × Edge}
    (h : (m.map VertexId.toValue).linkKeyed row.1.toValue row.2.target.toValue row.2.properties =
      .ok m') : m' = (linkRow m row).map VertexId.toValue := by
  unfold Multigraph.linkKeyed at h
  obtain ⟨_, _, h⟩ := bind_eq_ok.mp h
  rw [Multigraph.checkNode_toValue, Multigraph.checkNode_toValue] at h
  change (if _ then _ else _) = _ at h
  split at h
  case isTrue =>
    cases h
    exact Multigraph.map_link VertexId.toValue_beq_toValue ..
  case isFalse => cases h

theorem foldl_addNode {m : Multigraph VertexId} {ids : List VertexId}
    (h : (m.nodes ++ ids).Nodup) :
    ids.foldl (fun m id => m.addNode id.toValue) (m.map VertexId.toValue) =
      Multigraph.map VertexId.toValue { m with nodes := m.nodes ++ ids } := by
  induction ids generalizing m with
  | nil => simp
  | cons id ids ih =>
      have hnew : id ∉ m.nodes := fun hmem =>
        (List.nodup_append.mp h).2.2 id hmem id List.mem_cons_self rfl
      rw [List.append_cons] at h
      rw [List.foldl_cons, Multigraph.map_addNode VertexId.toValue_beq_toValue, Multigraph.addNode,
        if_neg (mt List.contains_iff_mem.mp hnew), ih h, List.append_assoc]
      rfl

theorem toMultigraph_eq {m : Multigraph Value} (h : g.toMultigraph = .ok m) :
    m = g.copied.map VertexId.toValue := by
  have hnodes : g.ids.foldl (fun m id => m.addNode id.toValue) (.empty true true) =
      g.unlinked.map VertexId.toValue := foldl_addNode (m := .empty true true) g.distinct
  unfold toMultigraph at h
  rw [hnodes] at h
  unfold copied
  generalize g.rows = rows at h
  generalize g.unlinked = start at h
  induction rows generalizing start with
  | nil =>
      cases h
      rfl
  | cons row rows ih =>
      rw [List.foldlM_cons] at h
      obtain ⟨next, hnext, hrest⟩ := bind_eq_ok.mp h
      rw [linkKeyed_map hnext] at hrest
      exact ih _ hrest

/-- What a copy keeps to, however many rows have been copied. -/
structure Copies (g : PropertyGraph) (m : Multigraph VertexId) : Prop where
  directed : m.directed = true
  parallel : m.parallel = true
  nodes : m.nodes = g.ids
  ends : ∀ link ∈ m.links, link.tail ∈ g.ids ∧ link.head ∈ g.ids
  names : ∀ link ∈ m.links, ∀ property ∈ link.properties, property.1 ∉ "key" :: reservedNames

/-- Whether a link takes one of the properties as its key. -/
def Keyed (properties : Properties) : Prop := "key" ∈ Assoc.keys properties

/-- What is told of some rows by a copy of them. -/
structure Tells (rows : List (VertexId × Edge)) (m : Multigraph VertexId) : Prop where
  between : ∀ u v, (∀ row ∈ rows, joins u v row → ¬Keyed row.2.properties) → m.Numbered u v ∧
    (m.between u v).map Link.properties = (rows.filter (joins u v)).map fun row => row.2.properties
  length_le : m.links.length ≤ rows.length
  length : (∀ row ∈ rows, ¬Keyed row.2.properties) → m.links.length = rows.length

section Steps

variable {m : Multigraph VertexId} {rows : List (VertexId × Edge)} {row : VertexId × Edge}

theorem linkRow_of_not_keyed (h : ¬Keyed row.2.properties) :
    linkRow m row = m.link row.1 row.2.target .null row.2.properties := by
  have hkept : kept row.2.properties = row.2.properties := by
    unfold kept
    rw [List.filter_eq_self]
    intro property hproperty
    rw [bne_iff_ne]
    exact fun hkey => h (List.mem_map.mpr ⟨property, hproperty, hkey⟩)
  rw [linkRow, hkept, Assoc.get?_eq_none h, Option.getD_none]

theorem Copies.linkRow_cases (h : Copies g m) (hrow : row ∈ g.rows) :
    (∃ key, linkRow m row = m.appended
      { tail := row.1, head := row.2.target, key, properties := kept row.2.properties }) ∨
    ∃ update : Link VertexId → Link VertexId,
      (∀ link, update link = link ∨ m.leads row.1 row.2.target link = true ∧ update link =
        { link with properties := Assoc.merge link.properties (kept row.2.properties) }) ∧
      linkRow m row = m.updated update :=
  Multigraph.link_cases (h.nodes ▸ tail_mem_ids hrow) (h.nodes ▸ head_mem_ids hrow)

theorem Copies.linkRow (h : Copies g m) (hg : g.Formed) (hrow : row ∈ g.rows) :
    Copies g (linkRow m row) := by
  have hnames : ∀ property ∈ kept row.2.properties, property.1 ∉ "key" :: reservedNames := by
    intro property hproperty
    obtain ⟨hmem, hkey⟩ := List.mem_filter.mp hproperty
    have hfree := checkNames_eq_ok.mp (hg.names row hrow) property hmem
    simp only [List.mem_cons, not_or]
    exact ⟨bne_iff_ne.mp hkey, hfree⟩
  rcases h.linkRow_cases hrow with ⟨key, heq⟩ | ⟨update, hupdate, heq⟩
  · rw [heq]
    refine ⟨h.directed, h.parallel, h.nodes, fun link hlink => ?_, fun link hlink => ?_⟩
    all_goals rcases List.mem_append.mp hlink with hold | hnew
    · exact h.ends link hold
    · rw [List.mem_singleton.mp hnew]
      exact ⟨tail_mem_ids hrow, head_mem_ids hrow⟩
    · exact h.names link hold
    · rw [List.mem_singleton.mp hnew]
      exact hnames
  · rw [heq]
    refine ⟨h.directed, h.parallel, h.nodes, fun link hlink => ?_, fun link hlink => ?_⟩
    all_goals
      obtain ⟨old, hold, rfl⟩ := List.mem_map.mp hlink
      rcases hupdate old with hsame | ⟨-, hmerged⟩
    · rw [hsame]
      exact h.ends old hold
    · rw [hmerged]
      exact h.ends old hold
    · rw [hsame]
      exact h.names old hold
    · rw [hmerged]
      intro property hproperty
      rcases Assoc.mem_of_mem_merge hproperty with hthere | hmore
      · exact h.names old hold property hthere
      · exact hnames property hmore

/-- A link between other nodes changes nothing between these. -/
theorem Copies.between_linkRow (h : Copies g m) (hrow : row ∈ g.rows) (hother : ¬joins u v row) :
    (PropertyGraph.linkRow m row).between u v = m.between u v := by
  simp only [joins, decide_eq_true_eq] at hother
  rcases h.linkRow_cases hrow with ⟨key, heq⟩ | ⟨update, hupdate, heq⟩
  · rw [heq, Multigraph.between_eq (by exact h.directed), Multigraph.between_eq h.directed]
    simp [Multigraph.appended, hother]
  · rw [heq]
    refine Multigraph.between_updated h.directed (fun link => ?_) fun link htail hhead => ?_
    · rcases hupdate link with hsame | ⟨-, hmerged⟩
      · rw [hsame]
        exact ⟨rfl, rfl⟩
      · rw [hmerged]
        exact ⟨rfl, rfl⟩
    · refine (hupdate link).resolve_right fun hmerged => hother ?_
      have hleads := hmerged.1
      simp only [Multigraph.leads, h.directed, Bool.not_true, Bool.false_and, Bool.or_false,
        Bool.and_eq_true, beq_iff_eq] at hleads
      exact ⟨hleads.1.symm.trans htail, hleads.2.symm.trans hhead⟩

/-- Without a key the new link comes after the ones that are told of. -/
theorem Tells.linkRow_eq (h : Tells rows m) (hm : Copies g m) (hrow : row ∈ g.rows)
    (hunkeyed : ∀ row' ∈ rows ++ [row], joins row.1 row.2.target row' →
      ¬Keyed row'.2.properties) :
    PropertyGraph.linkRow m row =
      m.appended (m.next row.1 row.2.target row.2.properties) := by
  have htail : row.1 ∈ m.nodes := hm.nodes ▸ tail_mem_ids hrow
  have hhead : row.2.target ∈ m.nodes := hm.nodes ▸ head_mem_ids hrow
  have hnumbered := (h.between row.1 row.2.target fun row' hrow' =>
    hunkeyed row' (List.mem_append_left _ hrow')).1
  rw [linkRow_of_not_keyed (hunkeyed row (by simp) (by simp [joins]))]
  exact hnumbered.link hm.parallel htail hhead _

theorem Tells.linkRow (h : Tells rows m) (hm : Copies g m) (hrow : row ∈ g.rows) :
    Tells (rows ++ [row]) (linkRow m row) := by
  constructor
  · intro u v hunkeyed
    have hold := h.between u v fun row' hrow' => hunkeyed row' (List.mem_append_left _ hrow')
    by_cases hjoins : joins u v row
    · obtain ⟨rfl, rfl⟩ := of_decide_eq_true hjoins
      rw [h.linkRow_eq hm hrow hunkeyed, List.filter_append, List.map_append]
      refine ⟨hold.1.appended hm.directed _, ?_⟩
      have hself : [row].filter (joins row.1 row.2.target) = [row] :=
        List.filter_eq_self.mpr (by simp [joins])
      rw [Multigraph.between_appended_next hm.directed, List.map_append, hold.2, hself]
      rfl
    · have hbetween := hm.between_linkRow hrow hjoins
      have hfilter : (rows ++ [row]).filter (joins u v) = rows.filter (joins u v) := by
        simp [hjoins]
      unfold Multigraph.Numbered
      rw [hbetween, hfilter]
      exact hold
  · rw [List.length_append, List.length_singleton]
    rcases hm.linkRow_cases hrow with ⟨key, heq⟩ | ⟨update, -, heq⟩
    · rw [heq, Multigraph.appended, List.length_append]
      exact Nat.add_le_add_right h.length_le 1
    · rw [heq, Multigraph.updated, List.length_map]
      exact Nat.le_succ_of_le h.length_le
  · intro hunkeyed
    have hold := h.length fun row' hrow' => hunkeyed row' (List.mem_append_left _ hrow')
    rw [h.linkRow_eq hm hrow fun row' hrow' _ => hunkeyed row' hrow', Multigraph.appended,
      List.length_append, List.length_append, hold]
    rfl

theorem copied_tells (hg : g.Formed) : Copies g g.copied ∧ Tells g.rows g.copied := by
  suffices hfrom : ∀ rest done : List (VertexId × Edge), ∀ m, (∀ row ∈ rest, row ∈ g.rows) →
      Copies g m → Tells done m →
      Copies g (rest.foldl PropertyGraph.linkRow m) ∧
        Tells (done ++ rest) (rest.foldl PropertyGraph.linkRow m) by
    have hcopies : Copies g g.unlinked := ⟨rfl, rfl, rfl, by simp [unlinked], by simp [unlinked]⟩
    have htells : Tells [] g.unlinked :=
      ⟨by simp [unlinked, Multigraph.Numbered, Multigraph.between], by simp [unlinked],
        by simp [unlinked]⟩
    exact hfrom g.rows [] g.unlinked (fun _ => id) hcopies htells
  intro rest
  induction rest with
  | nil =>
      intro done m _ hcopies htells
      rw [List.append_nil]
      exact ⟨hcopies, htells⟩
  | cons row rest ih =>
      intro done m hrows hcopies htells
      have hrow := hrows row List.mem_cons_self
      rw [List.foldl_cons, List.append_cons]
      exact ih _ _ (fun row' hrow' => hrows row' (List.mem_cons_of_mem _ hrow'))
        (hcopies.linkRow hg hrow) (htells.linkRow hcopies hrow)

end Steps

section Reading

theorem ids_addVertex_of_not_mem (hv : v ∉ g.ids) : (g.addVertex v).ids = g.ids ++ [v] := by
  unfold addVertex edges?
  rw [Assoc.get?_eq_none hv]
  exact (Assoc.keys_put ..).trans (if_neg hv)

theorem addVertex_of_mem (hv : v ∈ g.ids) : g.addVertex v = g := by
  obtain ⟨edges, hedges⟩ := exists_edges g hv
  unfold addVertex
  rw [hedges]

theorem ids_connect_of_mem {properties : Properties} (hu : u ∈ g.ids) (hv : v ∈ g.ids) :
    (g.connect u v properties).ids = g.ids := by
  unfold connect
  simp only [addVertex_of_mem hu, addVertex_of_mem hv]
  exact (Assoc.keys_put ..).trans (if_pos hu)

/-- Vertices that are all new are added in order. -/
theorem foldlM_addValue {ids : List VertexId} (hnodup : (g.ids ++ ids).Nodup)
    (hnamed : ∀ v ∈ ids, v ≠ .utf8 "") :
    ∃ g', (ids.map VertexId.toValue).foldlM (fun g node => committed (g.addValue node)) g = .ok g' ∧
      g'.ids = g.ids ++ ids := by
  induction ids generalizing g with
  | nil => exact ⟨g, rfl, (List.append_nil _).symm⟩
  | cons v ids ih =>
      have hnew : v ∉ g.ids := fun hmem =>
        (List.nodup_append.mp hnodup).2.2 v hmem v List.mem_cons_self rfl
      have hnext : committed (g.addValue v.toValue) = .ok (g.addVertex v) := by
        rw [addValue, VertexId.ofValue_eq_ok.mpr ⟨rfl, hnamed v List.mem_cons_self⟩]
        rfl
      rw [List.append_cons, ← ids_addVertex_of_not_mem hnew] at hnodup
      obtain ⟨g', hdone, hids⟩ := ih hnodup fun v hv => hnamed v (List.mem_cons_of_mem _ hv)
      refine ⟨g', ?_, ?_⟩
      · rw [List.map_cons, List.foldlM_cons, hnext]
        exact hdone
      · rw [hids, ids_addVertex_of_not_mem hnew, List.append_assoc, List.singleton_append]

/-- Links between vertices that are there are added, and no vertex more. -/
theorem foldlM_addLink {links : List (Link VertexId)} (hnamed : ∀ v ∈ g.ids, v ≠ .utf8 "")
    (hends : ∀ link ∈ links, link.tail ∈ g.ids ∧ link.head ∈ g.ids)
    (hnames : ∀ link ∈ links, checkNames reservedNames link.properties = .ok ()) :
    ∃ g', (links.map (Link.map VertexId.toValue)).foldlM (addLink true) g = .ok g' ∧
      g'.ids = g.ids := by
  induction links generalizing g with
  | nil => exact ⟨g, rfl, rfl⟩
  | cons link links ih =>
      obtain ⟨htail, hhead⟩ := hends link List.mem_cons_self
      have hnext : addLink true g (link.map VertexId.toValue) =
          .ok (g.connect link.tail link.head link.properties) := by
        have hadd := addEdge_of_ok (g := g) (hnames link List.mem_cons_self)
          (VertexId.ofValue_eq_ok.mpr ⟨rfl, hnamed _ htail⟩)
          (VertexId.ofValue_eq_ok.mpr ⟨rfl, hnamed _ hhead⟩)
        rw [addVertex_of_mem htail, addVertex_of_mem hhead] at hadd
        rw [addLink, Link.map, hadd]
        rfl
      have hids : (g.connect link.tail link.head link.properties).ids = g.ids :=
        ids_connect_of_mem htail hhead
      obtain ⟨g', hdone, hids'⟩ := ih (g := g.connect link.tail link.head link.properties)
        (fun v hv => hnamed v (hids ▸ hv))
        (fun link' hlink => by rw [hids]; exact hends link' (List.mem_cons_of_mem _ hlink))
        (fun link' hlink => hnames link' (List.mem_cons_of_mem _ hlink))
      refine ⟨g', ?_, hids'.trans hids⟩
      rw [List.map_cons, List.foldlM_cons, hnext]
      exact hdone

variable {m : Multigraph VertexId}

/-- A link as the row that it stands for. -/
def rowOf (link : Link VertexId) : VertexId × Edge :=
  (link.tail, { target := link.head, properties := link.properties })

theorem Copies.listing_perm (hm : Copies g m) : m.listing.Perm m.links :=
  Multigraph.listing_perm hm.directed (hm.nodes ▸ g.distinct) fun link hlink =>
    hm.nodes ▸ (hm.ends link hlink).1

theorem listing_map_toValue (m : Multigraph VertexId) :
    (m.map VertexId.toValue).listing = m.listing.map (Link.map VertexId.toValue) :=
  Multigraph.listing_map VertexId.toValue_beq_toValue m

/-- A copy can be read, and nothing of it is new but the edges. -/
theorem exists_ofMultigraph (hg : g.Formed) (hm : Copies g m) :
    ∃ g', ofMultigraph (m.map VertexId.toValue) = .ok g' ∧ g'.ids = g.ids := by
  have hdistinct : (empty.ids ++ g.ids).Nodup := g.distinct
  obtain ⟨start, hstart, hids⟩ := foldlM_addValue hdistinct hg.named
  have hids : start.ids = g.ids := hids
  have hends : ∀ link ∈ m.listing, link.tail ∈ start.ids ∧ link.head ∈ start.ids := by
    intro link hlink
    rw [hids]
    exact hm.ends link (hm.listing_perm.mem_iff.mp hlink)
  have hnames : ∀ link ∈ m.listing, checkNames reservedNames link.properties = .ok () := by
    intro link hlink
    refine checkNames_eq_ok.mpr fun property hproperty hreserved => ?_
    exact hm.names link (hm.listing_perm.mem_iff.mp hlink) property hproperty
      (List.mem_cons_of_mem _ hreserved)
  obtain ⟨g', hdone, hids'⟩ := foldlM_addLink (hids.symm ▸ hg.named) hends hnames
  refine ⟨g', ?_, hids'.trans hids⟩
  unfold ofMultigraph
  rw [listing_map_toValue]
  refine bind_eq_ok.mpr ⟨start, ?_, ?_⟩
  · rw [← hm.nodes] at hstart
    exact hstart
  · rw [← hm.directed] at hdone
    exact hdone

/-- What is read of a copy records its links. -/
theorem records_of_copies {g' : PropertyGraph} (hm : Copies g m)
    (hread : ofMultigraph (m.map VertexId.toValue) = .ok g') :
    Records g' (m.listing.map fun link =>
      (link.tail.toValue, link.head.toValue, link.properties)) := by
  have hdirected : (m.map VertexId.toValue).directed = true := hm.directed
  have hrecords := Records.ofMultigraph hread
  rw [listing_map_toValue, hdirected, List.flatMap_map] at hrecords
  rw [List.map_eq_flatMap]
  exact hrecords

/-- A copy is read back with the same vertices and with an edge for every link. -/
theorem ofMultigraph_map (hg : g.Formed) (hm : Copies g m) :
    ∃ g', ofMultigraph (m.map VertexId.toValue) = .ok g' ∧ g'.ids = g.ids ∧
      g'.edgeCount = m.links.length ∧
      ∀ u v, g'.between u v = (m.between u v).map Link.properties := by
  obtain ⟨g', hread, hids⟩ := exists_ofMultigraph hg hm
  have hrecords := records_of_copies hm hread
  refine ⟨g', hread, hids, ?_, fun u v => ?_⟩
  · rw [hrecords.count, List.length_map, hm.listing_perm.length_eq]
  · have hout : g'.out u = (m.listing.map rowOf).filterMap fun row =>
        if u = row.1 then some row.2 else none := by
      rw [hrecords.out, List.filterMap_map, List.filterMap_map]
      apply List.filterMap_congr
      intro link hlink
      obtain ⟨htail, hhead⟩ := hm.ends link (hm.listing_perm.mem_iff.mp hlink)
      have htail := VertexId.ofValue_eq_ok.mpr ⟨rfl, hg.named _ htail⟩
      have hhead := VertexId.ofValue_eq_ok.mpr ⟨rfl, hg.named _ hhead⟩
      simp only [Function.comp_apply, leaving, htail, hhead]
      by_cases hu : u = link.tail
      · rw [if_pos hu.symm]
        exact (if_pos hu).symm
      · rw [if_neg (Ne.symm hu)]
        exact (if_neg hu).symm
    have hjoins : ∀ link, (joins u v ∘ rowOf) link = decide (link.tail = u ∧ link.head = v) :=
      fun _ => rfl
    rw [between_eq_rows hout, List.filter_map, List.map_map, funext hjoins,
      Multigraph.filter_listing hm.directed (hm.nodes ▸ g.distinct)
        fun link hlink => hm.nodes ▸ (hm.ends link hlink).1,
      Multigraph.between_eq hm.directed]
    rfl

/-- **Copies.** A graph that can be copied comes back from its copy with the same vertices in the
same order and with no edge more, and between two vertices the edges come back with their
properties, in their order, exactly if none of them has a property that the copy takes as a key. -/
theorem copy_keeps_unkeyed_edges {m : Multigraph Value} (hmade : g.Made)
    (hcopy : g.toMultigraph = .ok m) :
    ∃ g', ofMultigraph m = .ok g' ∧ g'.ids = g.ids ∧ g'.edgeCount ≤ g.edgeCount ∧
      ((∀ row ∈ g.rows, ¬Keyed row.2.properties) → g'.edgeCount = g.edgeCount) ∧
      ∀ u v, g'.between u v = g.between u v ↔
        ∀ properties ∈ g.between u v, ¬Keyed properties := by
  have hg := hmade.formed
  obtain ⟨hcopies, htells⟩ := copied_tells hg
  rw [toMultigraph_eq hcopy]
  obtain ⟨g', hread, hids, hcount, hbetween⟩ := ofMultigraph_map hg hcopies
  refine ⟨g', hread, hids, hcount ▸ htells.length_le, fun h => hcount ▸ htells.length h, ?_⟩
  intro u v
  have hrows : g.between u v = (g.rows.filter (joins u v)).map fun row => row.2.properties :=
    between_eq_rows (filterMap_rows g u).symm
  constructor
  · intro hsame properties hproperties hkeyed
    rw [← hsame, hbetween] at hproperties
    obtain ⟨link, hlink, rfl⟩ := List.mem_map.mp hproperties
    obtain ⟨property, hproperty, hkey⟩ := List.mem_map.mp hkeyed
    have hfree := hcopies.names link (List.mem_of_mem_filter hlink) property hproperty
    exact hfree (hkey ▸ List.mem_cons_self)
  · intro hunkeyed
    rw [hbetween, hrows]
    refine (htells.between u v fun row hrow hjoins => hunkeyed _ ?_).2
    rw [hrows]
    exact List.mem_map_of_mem (List.mem_filter.mpr ⟨hrow, hjoins⟩)

/-- Two parallel edges with one back between them, and an edge with a property named `key`. -/
def streetCalls : List GraphCall :=
  [.edge (.text "a") (.text "b") [("w", .int 1)], .edge (.text "b") (.text "a") [],
    .edge (.text "a") (.text "b") [("w", .int 2)],
    .edge (.text "b") (.int 7) [("key", .text "x"), ("w", .int 3)]]

theorem copy_keeps_unkeyed_edges_streets :
    ∃ m g', (Journal.ofCalls streetCalls).graph.toMultigraph = .ok m ∧ ofMultigraph m = .ok g' ∧
      g'.ids = [.utf8 "a", .utf8 "b", .long 7] ∧
      g'.between (.utf8 "a") (.utf8 "b") = [[("w", .int 1)], [("w", .int 2)]] ∧
      g'.between (.utf8 "b") (.long 7) ≠ [[("key", .text "x"), ("w", .int 3)]] := by
  have hmade : (Journal.ofCalls streetCalls).graph.Made := by
    refine ⟨streetCalls, ?_, rfl⟩
    simp [streetCalls, GraphCall.Mapped, Assoc.keys]
  have hcopied : ((Journal.ofCalls streetCalls).graph.toMultigraph).isOk = true := rfl
  cases hcopy : (Journal.ofCalls streetCalls).graph.toMultigraph with
  | error fault =>
      rw [hcopy] at hcopied
      cases hcopied
  | ok m =>
      obtain ⟨g', hread, hids, -, -, hbetween⟩ := copy_keeps_unkeyed_edges hmade hcopy
      have htwo : (Journal.ofCalls streetCalls).graph.between (.utf8 "a") (.utf8 "b") =
          [[("w", .int 1)], [("w", .int 2)]] := rfl
      have hone : (Journal.ofCalls streetCalls).graph.between (.utf8 "b") (.long 7) =
          [[("key", .text "x"), ("w", .int 3)]] := rfl
      refine ⟨m, g', rfl, hread, hids, ?_, ?_⟩
      · rw [← htwo, hbetween, htwo]
        simp [Keyed, Assoc.keys]
      · rw [← hone, ne_eq, hbetween, hone]
        simp [Keyed, Assoc.keys]

/-- Two parallel edges with the same property named `key`. -/
def twinCalls : List GraphCall :=
  [.edge (.text "a") (.text "b") [("key", .text "x"), ("w", .int 1)],
    .edge (.text "a") (.text "b") [("key", .text "x"), ("w", .int 2)]]

theorem copy_loses_twin : (Journal.ofCalls twinCalls).graph.edgeCount = 2 ∧
    ((Journal.ofCalls twinCalls).graph.toMultigraph >>= ofMultigraph).map edgeCount = .ok 1 :=
  ⟨rfl, rfl⟩

end Reading

end PropertyGraph

end BulkPaths
