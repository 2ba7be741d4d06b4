import BulkPaths.Remains
import BulkPaths.Proofs.Construction
import BulkPaths.Proofs.WholeWeights

/-!
# Owners

The mail of a barrier goes from hand to hand: for each message the owner of its vertex is looked up
in a table, and the owner among the workers. Both look-ups could fail, and so could the one with
which a worker finds the vertex of a message among its own. They do not, because the table is made
of the vertices, messages are sent along edges, and edges of a graph lead to its vertices.
-/

namespace BulkPaths

variable {W : Type}

namespace OwnerTable

variable {table : OwnerTable} {count : Nat} {workers : List (Worker W)}

theorem receive_hand {done : Mailbox W} {delivery : VertexId × Message W} {worker : Worker W}
    (hnew : delivery.1 ∉ Assoc.keys done) (hindex : delivery.1.owner count = worker.index) :
    (State.hand count done worker).receive delivery =
      State.hand count (done ++ [delivery]) worker := by
  have hmissing : delivery.1 ∉
      Assoc.keys (done.filter fun delivery => delivery.1.owner count == worker.index) :=
    fun hmem => hnew ((List.filter_sublist.map Prod.fst).subset hmem)
  simp [Worker.receive, State.hand, Assoc.put_of_not_mem _ hmissing, hindex]

theorem hand_of_ne {done : Mailbox W} {delivery : VertexId × Message W} {worker : Worker W}
    (hindex : delivery.1.owner count ≠ worker.index) :
    State.hand count (done ++ [delivery]) worker = State.hand count done worker := by
  simp [State.hand, hindex]

theorem route_eq {done : Mailbox W} {delivery : VertexId × Message W}
    (hindices : workers.map Worker.index = List.range count) (hcount : 0 < count)
    (hknown : Assoc.get? delivery.1 table = some (delivery.1.owner count))
    (hnew : delivery.1 ∉ Assoc.keys done) :
    table.route (workers.map (State.hand count done)) delivery =
      .ok (workers.map (State.hand count (done ++ [delivery]))) := by
  have hlength : workers.length = count := by
    rw [← List.length_map, hindices, List.length_range]
  have hindex : ∀ i, (h : i < workers.length) → workers[i].index = i := by
    intro i h
    have hget : (workers.map Worker.index)[i]? = (List.range count)[i]? := by rw [hindices]
    rw [List.getElem?_map, List.getElem?_eq_getElem h, List.getElem?_range (hlength ▸ h)] at hget
    exact Option.some.inj hget
  have howner : delivery.1.owner count < workers.length := hlength ▸ delivery.1.owner_lt hcount
  simp only [route, hknown, List.getElem?_map, List.getElem?_eq_getElem howner, Option.map_some]
  congr 1
  apply List.ext_getElem (by simp)
  intro i hi hi'
  rw [List.length_map] at hi'
  rw [List.getElem_set]
  split
  case isTrue heq =>
    subst heq
    rw [receive_hand hnew (hindex _ howner).symm, List.getElem_map]
  case isFalse hne =>
    rw [List.getElem_map, List.getElem_map, hand_of_ne]
    rwa [hindex i hi']

theorem deliver_eq {done box : Mailbox W}
    (hindices : workers.map Worker.index = List.range count) (hcount : 0 < count)
    (hknown : ∀ v ∈ Assoc.keys box, Assoc.get? v table = some (v.owner count))
    (hdistinct : (Assoc.keys (done ++ box)).Nodup) :
    table.deliver box (workers.map (State.hand count done)) =
      .ok (workers.map (State.hand count (done ++ box))) := by
  induction box generalizing done with
  | nil =>
      rw [List.append_nil]
      rfl
  | cons delivery box ih =>
      have hnew : delivery.1 ∉ Assoc.keys done := by
        rw [Assoc.keys_append, List.nodup_append] at hdistinct
        exact fun hmem => hdistinct.2.2 _ hmem _ List.mem_cons_self rfl
      rw [List.append_cons] at hdistinct ⊢
      refine bind_eq_ok.mpr ⟨_, route_eq hindices hcount (hknown _ (by simp [Assoc.keys])) hnew, ?_⟩
      exact ih (fun v hv => hknown v (List.mem_cons_of_mem _ hv)) hdistinct

end OwnerTable

namespace State

/-- Between two supersteps: which worker has which vertices, and for which of them it has mail. -/
structure Staffed (g : PropertyGraph) (count : Nat) (table : OwnerTable) (s : State W) : Prop where
  indices : s.workers.map Worker.index = List.range count
  /-- Every vertex is among those of one worker, the one that the table names. -/
  placed : ∀ v ∈ g.ids, ∃ i < count, Assoc.get? v table = some i ∧
    ∀ worker ∈ s.workers, v ∈ worker.owned ↔ worker.index = i
  owned : ∀ worker ∈ s.workers, worker.owned.Nodup ∧ worker.owned ⊆ g.ids
  /-- A worker finds the vertices that it has mail for among its own. -/
  mail : ∀ worker ∈ s.workers, ∀ delivery ∈ worker.inbox,
    delivery.1 ∈ worker.owned ∧ ∃ edges, g.edges? delivery.1 = some edges

variable {g : PropertyGraph} {count index : Nat} {box : Mailbox W} {s : State W}

theorem Routed.staffed (h : s.Routed g count box) (hcount : 0 < count) :
    s.Staffed g count (g.owners count) where
  indices := h.indices
  placed v hv := by
    refine ⟨v.owner count, v.owner_lt hcount, g.get?_owners count hv, fun worker hworker => ?_⟩
    rw [h.owned worker hworker, List.mem_filter, beq_iff_eq]
    exact ⟨fun hmem => hmem.2.symm, fun hindex => ⟨hv, hindex.symm⟩⟩
  owned worker hworker := by
    rw [h.owned worker hworker]
    exact ⟨g.distinct.filter _, List.filter_subset_self _⟩
  mail worker hworker delivery hdelivery := by
    rw [h.inboxes worker hworker] at hdelivery
    obtain ⟨hmem, hindex⟩ := List.mem_filter.mp hdelivery
    have hknown : delivery.1 ∈ g.ids := h.known _ (List.mem_map_of_mem hmem)
    rw [h.owned worker hworker]
    exact ⟨List.mem_filter.mpr ⟨hknown, hindex⟩, g.exists_edges hknown⟩

variable [PathWeight W] [LawfulPathWeight W] {job : Job W} {round : Round W}

/-- What the workers of a round have sent is handed over without a look-up that fails. -/
theorem Sound.deliver_eq (hsound : s.Sound g job count) (hcount : 0 < count)
    (hround : s.round g job index = .ok round) :
    (g.owners count).deliver (delivered round.workers) (round.workers.map Worker.drained) =
      .ok (round.workers.map (hand round.workers.length (delivered round.workers))) := by
  obtain ⟨box, hrouted⟩ := hsound.routed
  obtain ⟨shifts, hworks, rfl⟩ := round_ok (hrouted.nodup_due index) hround
  obtain ⟨hnext, _⟩ := hworks.routed_settled hcount hsound s.aggregator.merged
  have hindices : (Round.ofShifts job s shifts).workers.map Worker.index = List.range count := by
    rw [← hrouted.indices, ← hworks.workers, Round.ofShifts, List.map_map, List.map_map]
    rfl
  have hlength : (Round.ofShifts job s shifts).workers.length = count := by
    rw [← List.length_map, hindices, List.length_range]
  have hdrained : (Round.ofShifts job s shifts).workers.map Worker.drained =
      (Round.ofShifts job s shifts).workers.map (hand count []) := by
    apply List.map_congr_left
    intro worker hworker
    obtain ⟨shift, _, rfl⟩ := List.mem_map.mp hworker
    rfl
  rw [hdrained, hlength]
  exact OwnerTable.deliver_eq hindices hcount
    (fun v hv => g.get?_owners count (hnext.known v hv)) hnext.distinct

end State

/-- A link without direction, an edge whose head is refused, one with a name that is refused, and a
loop. -/
def mixedCalls : List GraphCall :=
  [.links
    { directed := false
      parallel := false
      nodes := [.int 0, .text "a"]
      links := [{ tail := .int 0, head := .text "a", key := .int 0, properties := [] }] },
    .edge (.int 3) .null [], .edge (.int 4) (.int 0) [("self", .null)], .edge (.int 0) (.int 0) []]

end BulkPaths
