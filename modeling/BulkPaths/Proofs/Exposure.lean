import BulkPaths.Proofs.Distances
import BulkPaths.Proofs.Outcomes
import Mathlib.Order.Bounds.Basic

/-!
# Exposed edges

An edge is looked at when its tail passes on what it adopted. So an edge whose weight is refused
makes a run fail only if a walk of accepted edges leads to its tail, and one with a finite sum, as
nothing infinite is adopted. A run about all vertices fails in the superstep that counts the edges
of the shortest of these walks.
-/

namespace BulkPaths

open PathWeight LawfulPathWeight

variable {W : Type} [PathWeight W]

namespace Job

/-- A walk of `k` edges leads to the vertex, and its sum is finite. -/
def Reaches (job : Job W) (g : PropertyGraph) (k : Nat) (v : VertexId) : Prop :=
  ∃ path x, Walk (job.Hop g) job.source path v x ∧ path.length = k + 1 ∧ isFinite x

/-- The fault is that of an edge that leaves a vertex to which a walk of `k` edges leads. -/
def Exposes (job : Job W) (g : PropertyGraph) (k : Nat) (fault : Fault) : Prop :=
  ∃ v edges edge, g.edges? v = some edges ∧ edge ∈ edges ∧ job.weigh edge = .error fault ∧
    job.Reaches g k v

theorem reaches_source (job : Job W) (g : PropertyGraph) [LawfulPathWeight W] :
    job.Reaches g 0 job.source :=
  ⟨_, _, .here, rfl, zero_finite⟩

end Job

namespace Run

variable [LawfulPathWeight W] {g : PropertyGraph} {job : Job W} {limits : Limits} {j k : Nat}
  {s : State W} {v : VertexId} {fault : Fault}

theorem Boundary.reaches_of_better (h : Boundary g job limits k s) {m : Message W}
    (hm : s.waiting v = some m) (hbetter : less m.weight (s.value v).weight) :
    job.Reaches g (k + 1) v := by
  obtain ⟨hgrounded, hhops, _⟩ := h.tracked.adopted h.sound limits.staffed hm hbetter
  refine ⟨_, _, hgrounded.hop_walk, ?_, hgrounded.finite⟩
  rw [hgrounded.length, hhops]

/-- A run that fails in superstep `k` fails on an edge that a walk of `k` edges exposes. -/
theorem FailsIn.exposes (h : FailsIn g job limits k fault) : job.Exposes g k fault := by
  cases h with
  | first _ step =>
      obtain ⟨v, edges, edge, hedges, hedge, hweigh, ⟨_, rfl⟩ | ⟨m, hm, _⟩⟩ :=
        State.exists_edge_of_error limits.staffed sound_initial step
      · exact ⟨_, edges, edge, hedges, hedge, hweigh, job.reaches_source g⟩
      · rw [initial, State.waiting_start] at hm
        cases hm
  | later boundary _ step =>
      obtain ⟨v, edges, edge, hedges, hedge, hweigh, ⟨hzero, _⟩ | ⟨m, hm, hbetter⟩⟩ :=
        State.exists_edge_of_error limits.staffed boundary.sound step
      · cases hzero
      · exact ⟨v, edges, edge, hedges, hedge, hweigh, boundary.reaches_of_better hm hbetter⟩

namespace Boundary

/-- A vertex that passed on its value, as every reachable one has, exposed no edge. -/
theorem not_exposes_of_reachable (h : Boundary g job limits k s) (hall : job.targets = .all)
    (hreachable : ∀ v ∈ g.ids, job.Reaches g j v → (s.value v).reachable) :
    ¬job.Exposes g j fault := by
  rintro ⟨v, edges, edge, hedges, hedge, hweigh, hreaches⟩
  have hv := hreachable v (Assoc.mem_keys_of_get? hedges) hreaches
  obtain ⟨w, hw⟩ := h.relaxed.accepted (Job.open_all hall v) hv hedges edge hedge
  cases hweigh.symm.trans hw

theorem not_exposes (h : Boundary g job limits k s) (hall : job.targets = .all) (hj : j ≤ k) :
    ¬job.Exposes g j fault := by
  apply h.not_exposes_of_reachable hall
  rintro v hv ⟨path, x, hwalk, hlength, hfinite⟩
  exact h.reachable_of_atMost hwalk.proper hfinite
    (h.atMost_sum hall hv ⟨path, hwalk, by omega⟩)

theorem not_exposes_of_empty (h : Boundary g job limits k s) (hall : job.targets = .all)
    (hempty : s.pending = 0) : ¬job.Exposes g j fault := by
  apply h.not_exposes_of_reachable hall
  rintro v hv ⟨path, x, hwalk, _, hfinite⟩
  exact h.reachable_of_atMost hwalk.proper hfinite (h.atMost_sum_of_empty hall hempty hv hwalk)

end Boundary

/-- Without a bound a run about all vertices fails exactly in the first superstep in which an edge
can be exposed. -/
theorem exists_failsIn_iff (hall : job.targets = .all) (hdivided : g.Divisible limits.workers)
    (hbound : limits.maxSupersteps = 0) :
    (∃ fault, FailsIn g job limits k fault) ↔ IsLeast {j | ∃ fault, job.Exposes g j fault} k := by
  have hleast : ∀ {k fault}, FailsIn g job limits k fault →
      IsLeast {j | ∃ fault, job.Exposes g j fault} k := by
    intro k fault hfails
    refine ⟨⟨fault, hfails.exposes⟩, ?_⟩
    rintro j ⟨found, hexposes⟩
    by_contra hlate
    obtain ⟨i, s, hs, hj⟩ := hfails.exists_before (Nat.lt_of_not_le hlate)
    exact hs.not_exposes hall hj hexposes
  refine ⟨fun ⟨fault, hfails⟩ => hleast hfails, fun hk => ?_⟩
  obtain ⟨found, hexposes⟩ := hk.1
  rcases exists_end job hdivided with
    ⟨j, fault, hfails⟩ | ⟨j, s, hs, hhalts⟩ | ⟨j, s, _, hbounded⟩
  · rw [hk.unique (hleast hfails)]
    exact ⟨fault, hfails⟩
  · -- a run that came to its end has looked at every edge that a walk leads to
    exact absurd hexposes (hs.not_exposes_of_empty hall (hs.empty_of_halts hall hhalts))
  · exact absurd hbound hbounded.bound.1

end Run

end BulkPaths
