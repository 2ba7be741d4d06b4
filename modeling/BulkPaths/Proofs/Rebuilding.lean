import BulkPaths.Proofs.Construction

/-!
# Graphs rebuilt from their rows

A file holds the edges of a graph with their tails, vertex by vertex, and reading adds them one by
one. The order of the vertices may change on the way, since a head can become a vertex before its
own row comes; the edges at each vertex keep their order.
-/

namespace BulkPaths.PropertyGraph

variable {g : PropertyGraph} {v tail head : VertexId} {edge : Edge} {properties : Properties}

/-- The edges at a vertex are the rows that begin with it, in their order. -/
theorem filterMap_rows (g : PropertyGraph) (v : VertexId) :
    g.rows.filterMap (fun row => if v = row.1 then some row.2 else none) = g.out v := by
  unfold rows out edges?
  have hdistinct := g.distinct
  generalize g.adjacency = entries at hdistinct ⊢
  induction entries with
  | nil => rfl
  | cons entry rest ih =>
      obtain ⟨u, edges⟩ := entry
      rw [Assoc.keys, List.map_cons, List.nodup_cons] at hdistinct
      rw [List.flatMap_cons, List.filterMap_append, ih hdistinct.2, List.filterMap_map]
      by_cases hu : v = u
      · subst hu
        have hnone := Assoc.get?_eq_none hdistinct.1
        simp [Assoc.get?, hnone]
      · simp [Assoc.get?, hu, Ne.symm hu]

theorem mem_rows : (v, edge) ∈ g.rows ↔ edge ∈ g.out v := by
  rw [← filterMap_rows, List.mem_filterMap]
  constructor
  · intro h
    exact ⟨_, h, if_pos rfl⟩
  · rintro ⟨⟨u, edge'⟩, hmem, hsome⟩
    by_cases hu : v = u
    · rw [if_pos hu] at hsome
      cases hu
      cases hsome
      exact hmem
    · rw [if_neg hu] at hsome
      cases hsome

theorem tail_mem_ids (h : (v, edge) ∈ g.rows) : v ∈ g.ids := by
  obtain ⟨⟨u, edges⟩, hentry, hedge⟩ := List.mem_flatMap.mp h
  obtain ⟨_, _, heq⟩ := List.mem_map.mp hedge
  cases heq
  exact List.mem_map.mpr ⟨_, hentry, rfl⟩

theorem head_mem_ids (h : (v, edge) ∈ g.rows) : edge.target ∈ g.ids := by
  obtain ⟨⟨u, edges⟩, hentry, hedge⟩ := List.mem_flatMap.mp h
  obtain ⟨_, hmem, heq⟩ := List.mem_map.mp hedge
  cases heq
  exact g.closed _ hentry _ hmem

theorem checkNames_eq_ok {reserved : List String} :
    checkNames reserved properties = .ok () ↔ ∀ property ∈ properties, property.1 ∉ reserved := by
  unfold checkNames
  cases hfound : properties.find? fun property => reserved.contains property.1 with
  | none =>
      rw [List.find?_eq_none] at hfound
      simpa using hfound
  | some property =>
      have hreserved := List.find?_some hfound
      simp only [reduceCtorEq, false_iff, not_forall, not_not]
      exact ⟨property, List.mem_of_find?_eq_some hfound, by simpa using hreserved⟩

theorem mem_rows_connect {row : VertexId × Edge} : row ∈ (g.connect tail head properties).rows ↔
    row ∈ g.rows ∨ row = (tail, { target := head, properties }) := by
  obtain ⟨v, edge⟩ := row
  rw [mem_rows, mem_rows, out_connect, List.mem_append, Prod.mk.injEq]
  by_cases hv : v = tail <;> simp [hv]

/-- The rows added to an empty graph, with properties that may be told otherwise. -/
def rebuilt (g : PropertyGraph) (retell : Properties → Properties) : PropertyGraph :=
  empty.connectAll (g.rows.map fun (tail, edge) => (tail, edge.target, retell edge.properties))

variable {retell : Properties → Properties}

theorem out_rebuilt : (g.rebuilt retell).out v =
    (g.out v).map fun edge => { edge with properties := retell edge.properties } := by
  unfold rebuilt
  have hempty : empty.out v = [] := rfl
  rw [out_connectAll, hempty, List.nil_append, ← filterMap_rows, List.filterMap_map,
    List.map_filterMap]
  apply List.filterMap_congr
  intro row _
  by_cases hv : v = row.1 <;> simp [hv]

theorem mem_ids_rebuilt :
    v ∈ (g.rebuilt retell).ids ↔ ∃ row ∈ g.rows, v = row.1 ∨ v = row.2.target := by
  have hempty : v ∉ empty.ids := List.not_mem_nil
  unfold rebuilt
  simp [mem_ids_connectAll, hempty]

/-- What every graph keeps to: no identifier is empty, and the properties of an edge are a mapping
with names that could be given. -/
structure Formed (g : PropertyGraph) : Prop where
  named : ∀ v ∈ g.ids, v ≠ .utf8 ""
  names : ∀ row ∈ g.rows, checkNames reservedNames row.2.properties = .ok ()
  mappings : ∀ row ∈ g.rows, (Assoc.keys row.2.properties).Nodup

end PropertyGraph

namespace Multigraph

variable {N : Type} [BEq N]

/-- What is listed is a link of the multigraph, perhaps turned around. -/
theorem exists_link_of_mem_listFrom {m : Multigraph N} {seen nodes : List N} {link : Link N}
    (h : link ∈ m.listFrom seen nodes) : ∃ made ∈ m.links, link.properties = made.properties := by
  induction nodes generalizing seen with
  | nil => cases h
  | cons node rest ih =>
      rcases List.mem_append.mp h with hnode | hrest
      · obtain ⟨other, _, hlink⟩ := List.mem_flatMap.mp hnode
        obtain ⟨made, hmade, rfl⟩ := List.mem_map.mp hlink
        exact ⟨made, List.mem_of_mem_filter hmade, rfl⟩
      · exact ih hrest

end Multigraph

/-- The properties that a call gives are mappings: no name stands twice. -/
def GraphCall.Mapped : GraphCall → Prop
  | .vertex _ => True
  | .edge _ _ properties => (Assoc.keys properties).Nodup
  | .edges _ given => ∀ edge ∈ given, (Assoc.keys edge.2.2).Nodup
  | .links m => ∀ link ∈ m.links, (Assoc.keys link.properties).Nodup

namespace Journal

variable {j : Journal} {c : GraphCall} {given : GivenEdge}

theorem nodup_of_mem_call (hj : ∀ given ∈ j.added, (Assoc.keys given.2.2).Nodup) (hc : c.Mapped)
    (h : given ∈ (j.call c).added) : (Assoc.keys given.2.2).Nodup := by
  cases c with
  | vertex id => exact hj given h
  | edge tail head properties =>
      simp only [call] at h
      split at h
      · rcases List.mem_append.mp h with hold | hnew
        · exact hj given hold
        · rw [List.mem_singleton.mp hnew]
          exact hc
      · exact hj given h
  | edges vertices edges =>
      simp only [call] at h
      split at h
      · exact hc given h
      · exact hj given h
  | links m =>
      simp only [call] at h
      split at h
      · obtain ⟨link, hlink, hways⟩ := List.mem_flatMap.mp h
        obtain ⟨made, hmade, heq⟩ := Multigraph.exists_link_of_mem_listFrom hlink
        have hgiven : given.2.2 = link.properties := by
          unfold PropertyGraph.ways at hways
          split at hways
          all_goals simp at hways
          · rw [hways]
          · rcases hways with rfl | rfl <;> rfl
        rw [hgiven, heq]
        exact hc made hmade
      · exact hj given h

theorem nodup_of_mem_added {calls : List GraphCall} (hcalls : ∀ c ∈ calls, c.Mapped)
    (h : given ∈ (ofCalls calls).added) : (Assoc.keys given.2.2).Nodup := by
  suffices hfrom : ∀ j : Journal, (∀ given ∈ j.added, (Assoc.keys given.2.2).Nodup) →
      ∀ given ∈ (calls.foldl call j).added, (Assoc.keys given.2.2).Nodup from
    hfrom empty (by simp [empty]) given h
  clear h
  intro j hj
  induction calls generalizing j with
  | nil => exact hj
  | cons c calls ih =>
      have hstep : ∀ given ∈ (j.call c).added, (Assoc.keys given.2.2).Nodup := fun given =>
        nodup_of_mem_call hj (hcalls c List.mem_cons_self)
      exact ih (fun c hc => hcalls c (List.mem_cons_of_mem _ hc)) (j.call c) hstep

theorem formed_ofCalls {calls : List GraphCall} (hcalls : ∀ c ∈ calls, c.Mapped) :
    (ofCalls calls).graph.Formed := by
  have hrecords := records_ofCalls calls
  have hgiven : ∀ row ∈ (ofCalls calls).graph.rows, ∃ given ∈ (ofCalls calls).added,
      row.2.properties = given.2.2 := by
    rintro ⟨v, edge⟩ hrow
    rw [PropertyGraph.mem_rows, hrecords.out] at hrow
    obtain ⟨given, hmem, hleaving⟩ := List.mem_filterMap.mp hrow
    refine ⟨given, hmem, ?_⟩
    unfold PropertyGraph.leaving at hleaving
    split at hleaving
    · split at hleaving
      · cases hleaving
        rfl
      · cases hleaving
    · cases hleaving
  constructor
  · exact hrecords.named
  · intro row hrow
    obtain ⟨given, hmem, heq⟩ := hgiven row hrow
    rw [heq]
    exact hrecords.names given hmem
  · intro row hrow
    obtain ⟨given, hmem, heq⟩ := hgiven row hrow
    rw [heq]
    exact nodup_of_mem_added hcalls hmem

end Journal

/-- The graphs that calls make. -/
def PropertyGraph.Made (g : PropertyGraph) : Prop :=
  ∃ calls : List GraphCall, (∀ c ∈ calls, c.Mapped) ∧ (Journal.ofCalls calls).graph = g

theorem PropertyGraph.Made.formed {g : PropertyGraph} (h : g.Made) : g.Formed := by
  obtain ⟨calls, hcalls, rfl⟩ := h
  exact Journal.formed_ofCalls hcalls

end BulkPaths
