import BulkPaths.Proofs.Relaxation

/-!
# Weights are minima over walks

Of a job about all vertices, the weight of a vertex after superstep `k` is the minimum over the
walks of at most `k` edges, and when the run is over, over all walks.
-/

namespace BulkPaths

open PathWeight LawfulPathWeight

variable {W : Type} [PathWeight W]

/-- A sum of a walk from the source with at most `k` edges. -/
def Job.Sum (job : Job W) (g : PropertyGraph) (k : Nat) (v : VertexId) (x : W) : Prop :=
  ∃ path, Walk (job.Hop g) job.source path v x ∧ path.length ≤ k + 1

/-- The smallest of the sums; infinite if there is none or all of them overflow. -/
structure Minimum (sums : W → Prop) (x : W) : Prop where
  least : ∀ y, sums y → AtMost x y
  attained : sums x ∨ x = infinite

variable {g : PropertyGraph} {job : Job W} {limits : Limits} {k : Nat} {s : State W}
  {u v : VertexId} {w x : W}

theorem State.Tracked.reachable_or_infinite (h : s.Tracked g job k) (u : VertexId) :
    (s.value u).reachable ∨ (s.value u).weight = infinite := by
  rcases h.values u with hnone | hgrounded
  · rw [hnone]
    exact .inr rfl
  · exact .inl hgrounded.reachable

variable [LawfulPathWeight W]

/-- A lower bound of the sum at a vertex gives one of the sum with one more edge. -/
theorem State.Tracked.atMost_add (h : s.Tracked g job k) {bound : W} (hbound : Proper bound)
    (hu : Proper (s.value u).weight) (hx : Proper x) (hw : less zero w)
    (hlower : AtMost (s.value u).weight x)
    (hedge : (s.value u).reachable → AtMost bound (add (s.value u).weight w)) :
    AtMost bound (add x w) := by
  rcases h.reachable_or_infinite u with hreachable | hinfinite
  · exact (hedge hreachable).trans (add_mono hu hx hw hw hlower (.refl w))
  · rw [hinfinite] at hlower
    rw [eq_infinite_of_atMost hx hlower, add_infinite hw]
    exact atMost_infinite hbound

namespace Run.Boundary

theorem reachable_iff_finite (h : Boundary g job limits k s) (v : VertexId) :
    (s.value v).reachable ↔ isFinite (s.value v).weight := by
  rcases h.tracked.values v with hnone | hgrounded
  · rw [hnone]
    simp [PathValue.unreached, infinite_not_finite]
  · simp [hgrounded.reachable, hgrounded.finite]

/-- A vertex whose weight is at most that of something finite has been reached. -/
theorem reachable_of_atMost (h : Boundary g job limits k s) {v : VertexId} {x : W} (hx : Proper x)
    (hfinite : isFinite x) (hle : AtMost (s.value v).weight x) : (s.value v).reachable := by
  rw [h.reachable_iff_finite, finite_iff (h.sound.values v)]
  intro hinfinite
  rw [hinfinite] at hle
  rw [eq_infinite_of_atMost hx hle, infinite_not_finite] at hfinite
  cases hfinite

theorem sum_attained (h : Boundary g job limits k s) (v : VertexId) :
    job.Sum g k v (s.value v).weight ∨ (s.value v).weight = infinite := by
  rcases h.tracked.values v with hnone | hgrounded
  · rw [hnone]
    exact .inr rfl
  · refine .inl ⟨_, hgrounded.hop_walk, ?_⟩
    rw [hgrounded.length]
    exact Nat.succ_le_succ hgrounded.hops

/-- No walk of at most `k` edges has a smaller sum. -/
theorem atMost_sum (h : Boundary g job limits k s) (hall : job.targets = .all) {v : VertexId}
    (hv : v ∈ g.ids) {x : W} (hsum : job.Sum g k v x) : AtMost (s.value v).weight x := by
  induction h generalizing v x with
  | first divided step =>
      obtain ⟨path, hwalk, hlength⟩ := hsum
      cases hwalk with
      | here =>
          rw [(first divided step).tracked.source hv]
          exact .refl _
      | step before last =>
          have hpos := before.length_pos
          rw [List.length_append, List.length_singleton] at hlength
          omega
  | @next k s s' before goes step ih =>
      obtain ⟨path, hwalk, hlength⟩ := hsum
      have hafter := before.next goes step
      cases hwalk with
      | here =>
          rw [hafter.tracked.source hv]
          exact .refl _
      | @step path u v x w walked last =>
          -- the tail may have been quiet in superstep `k`: then it has relaxed the edge before
          obtain ⟨turns, hstep, _⟩ := State.superstep_ok limits.staffed before.sound step
          rw [List.length_append, List.length_singleton] at hlength
          have hlower := ih last.tail_mem_ids ⟨path, walked, by omega⟩
          apply before.tracked.atMost_add (hafter.sound.values v) (before.sound.values u)
            walked.proper last.positive hlower
          intro hreachable
          exact before.relaxed.value_next before.tracked before.sound hstep (Job.open_all hall u)
            hreachable last

theorem atMost_sum_of_empty (h : Boundary g job limits k s) (hall : job.targets = .all)
    (hempty : s.pending = 0) (hv : v ∈ g.ids) {path : List VertexId}
    (hwalk : Walk (job.Hop g) job.source path v x) : AtMost (s.value v).weight x := by
  induction hwalk with
  | here =>
      rw [h.tracked.source hv]
      exact .refl _
  | @step path u v x w walked last ih =>
      apply h.tracked.atMost_add (h.sound.values v) (h.sound.values u) walked.proper last.positive
        (ih last.tail_mem_ids)
      intro hreachable
      rcases Nat.lt_or_eq_of_le (h.tracked.hops_le u) with hold | hnew
      · exact h.relaxed.settled (Job.open_all hall u) hreachable hold last
      · obtain ⟨m, hm, _⟩ := h.relaxed.fresh (Job.open_all hall u) hreachable hnew last
        rw [State.pending_eq_zero.mp hempty v] at hm
        cases hm

end Run.Boundary

namespace Run

/-- A job about all vertices runs until nothing is pending. -/
theorem exists_boundary_of_all (hall : job.targets = .all) {result : Result W}
    (h : (ofJob g job limits).outcome = .ok result) :
    ∃ k s, Boundary g job limits k s ∧ s.pending = 0 ∧ result = Run.result g job s := by
  obtain ⟨k, s, boundary, halts, hresult⟩ := exists_boundary_of_result h
  exact ⟨k, s, boundary, boundary.empty_of_halts hall halts, hresult⟩

/-- After superstep `k` weights are minima over walks of at most `k` edges, and a vertex is
reachable if its minimum is finite; such a vertex has had all its edges accepted. The weights of the
result are minima over all walks. -/
theorem weights_are_minima (hall : job.targets = .all) :
    (∀ k s, Boundary g job limits k s → ∀ v ∈ g.ids,
      Minimum (job.Sum g k v) (s.value v).weight ∧
        ((s.value v).reachable ↔ isFinite (s.value v).weight) ∧
        ((s.value v).reachable → ∀ edges, g.edges? v = some edges →
          ∀ edge ∈ edges, ∃ w, job.weigh edge = .ok w)) ∧
      ∀ result, (ofJob g job limits).outcome = .ok result →
        result.values.map Prod.fst = g.ids ∧
          ∀ entry ∈ result.values, Minimum (fun x => ∃ k, job.Sum g k entry.1 x) entry.2.weight ∧
            (entry.2.reachable ↔ isFinite entry.2.weight) := by
  refine ⟨?_, ?_⟩
  · intro k s h v hv
    refine ⟨⟨fun x => h.atMost_sum hall hv, h.sum_attained v⟩, h.reachable_iff_finite v, ?_⟩
    intro hreachable edges hedges
    exact h.relaxed.accepted (Job.open_all hall v) hreachable hedges
  · intro result hresult
    obtain ⟨k, s, h, hempty, rfl⟩ := exists_boundary_of_all hall hresult
    refine ⟨by simp [Run.result, Function.comp_def], ?_⟩
    intro entry hentry
    obtain ⟨v, hv, rfl⟩ := List.mem_map.mp hentry
    refine ⟨⟨?_, ?_⟩, h.reachable_iff_finite v⟩
    · rintro x ⟨_, path, hwalk, _⟩
      exact h.atMost_sum_of_empty hall hempty hv hwalk
    · exact (h.sum_attained v).imp_left fun hsum => ⟨k, hsum⟩

theorem weights_are_minima_diamond :
    ∃ result s, (ofJob diamond diamondJob diamondLimits).outcome = .ok result ∧
      Boundary diamond diamondJob diamondLimits 2 s ∧
      (∀ v ∈ diamond.ids, Minimum (diamondJob.Sum diamond 2 v) (s.value v).weight) ∧
      ∀ entry ∈ result.values,
        Minimum (fun x => ∃ k, diamondJob.Sum diamond k entry.1 x) entry.2.weight := by
  obtain ⟨result, hresult, _⟩ := diamond_run
  obtain ⟨s, hs⟩ := diamond_boundary
  have hall : diamondJob.targets = .all := rfl
  obtain ⟨hwithin, hfinal⟩ := @weights_are_minima Float _ diamond diamondJob diamondLimits _ hall
  exact ⟨result, s, hresult, hs, fun v hv => (hwithin 2 s hs v hv).1,
    fun entry hentry => ((hfinal result hresult).2 entry hentry).1⟩

end Run

end BulkPaths
