import BulkPaths.Proofs.Termination

/-!
# Outcomes

A run goes from barrier to barrier until it halts, is stopped by its bound, or fails in a superstep.
Where that happens decides the outcome, and a second run that can be kept in step with it ends in
the same superstep.
-/

namespace BulkPaths

variable {W : Type}

namespace State

/-- Nothing is left to do, or enough has been done. -/
def Halts (limits : Limits) (s : State W) : Prop :=
  s.pending = 0 ∨ (limits.stopEarly && s.aggregator.converged) = true

/-- There is something left to do that the bound does not allow. -/
structure Bounded (limits : Limits) (k : Nat) (s : State W) : Prop where
  pending : s.pending ≠ 0
  wanted : (limits.stopEarly && s.aggregator.converged) = false
  bound : limits.maxSupersteps ≠ 0 ∧ limits.maxSupersteps < k + 1

theorem halts_or (limits : Limits) (k : Nat) (s : State W) :
    s.Halts limits ∨ s.Bounded limits k ∨ s.Continues limits k := by
  by_cases hhalts : s.Halts limits
  · exact .inl hhalts
  obtain ⟨hpending, hwanted⟩ := not_or.mp hhalts
  rw [Bool.not_eq_true] at hwanted
  by_cases hbound : limits.maxSupersteps ≠ 0 ∧ limits.maxSupersteps < k + 1
  · exact .inr (.inl ⟨hpending, hwanted, hbound⟩)
  · exact .inr (.inr ⟨hpending, hwanted, hbound⟩)

end State

theorem Run.exists_result {α : Type} {outcome : Except Fault (Result W)} {view : Result W → α}
    {x : α} (h : outcome.toOption.map view = some x) :
    ∃ result, outcome = .ok result ∧ view result = x := by
  cases outcome with
  | error fault => cases h
  | ok result => exact ⟨result, rfl, Option.some.inj h⟩

variable [PathWeight W]

namespace Run

/-- The run fails in superstep `k`. -/
inductive FailsIn (g : PropertyGraph) (job : Job W) (limits : Limits) : Nat → Fault → Prop
  | first {aborted : Aborted W} (divided : g.Divisible limits.workers)
      (step : (initial g job limits).superstep g job 0 = .error aborted) :
      FailsIn g job limits 0 aborted.fault
  | later {k : Nat} {s : State W} {aborted : Aborted W} (boundary : Boundary g job limits k s)
      (goes : s.Continues limits k) (step : s.superstep g job (k + 1) = .error aborted) :
      FailsIn g job limits (k + 1) aborted.fault

variable {g g' : PropertyGraph} {job job' : Job W} {limits limits' : Limits} {k : Nat}
  {s t : State W} {fault : Fault}

theorem Boundary.divided (h : Boundary g job limits k s) : g.Divisible limits.workers := by
  induction h with
  | first divided _ => exact divided
  | next _ _ _ ih => exact ih

theorem FailsIn.divided (h : FailsIn g job limits k fault) : g.Divisible limits.workers := by
  cases h with
  | first divided => exact divided
  | later boundary => exact boundary.divided

theorem FailsIn.exists_before {j : Nat} (h : FailsIn g job limits k fault) (hj : j < k) :
    ∃ i s, Boundary g job limits i s ∧ j ≤ i := by
  cases h with
  | first => exact absurd hj (Nat.not_lt_zero j)
  | later boundary _ _ => exact ⟨_, _, boundary, Nat.le_of_lt_succ hj⟩

theorem mem_result_values {v : VertexId} {value : PathValue W} :
    (v, value) ∈ (result g job s).values ↔ v ∈ g.ids ∧ value = s.value v := by
  constructor
  · intro hmem
    obtain ⟨u, hu, heq⟩ := List.mem_map.mp hmem
    cases heq
    exact ⟨hu, rfl⟩
  · rintro ⟨hv, rfl⟩
    exact List.mem_map_of_mem hv

theorem keys_result_values : Assoc.keys (result g job s).values = g.ids := by
  simp [result, Assoc.keys, Function.comp_def]

theorem nodup_keys_result_values : (Assoc.keys (result g job s).values).Nodup := by
  rw [keys_result_values]
  exact g.distinct

theorem get?_result_values {v : VertexId} (hv : v ∈ g.ids) :
    Assoc.get? v (result g job s).values = some (s.value v) :=
  Assoc.get?_of_mem nodup_keys_result_values (mem_result_values.mpr ⟨hv, rfl⟩)

theorem exists_first (hdivided : g.Divisible limits.workers)
    (hworks : ∀ k fault, ¬FailsIn g job limits k fault) :
    ∃ s, (initial g job limits).superstep g job 0 = .ok s := by
  cases hstep : (initial g job limits).superstep g job 0 with
  | error aborted => exact absurd (.first hdivided hstep) (hworks 0 _)
  | ok s => exact ⟨s, rfl⟩

theorem Boundary.exists_next (h : Boundary g job limits k s) (goes : s.Continues limits k)
    (hworks : ∀ k fault, ¬FailsIn g job limits k fault) :
    ∃ s', s.superstep g job (k + 1) = .ok s' := by
  cases hstep : s.superstep g job (k + 1) with
  | error aborted => exact absurd (.later h goes hstep) (hworks (k + 1) _)
  | ok s' => exact ⟨s', rfl⟩

/-- Runs keep step where the second can follow whatever superstep the first one takes. -/
theorem Boundary.exists_counterpart {related : State W → State W → Prop}
    (hdivided : g'.Divisible limits'.workers)
    (hfirst : ∀ {s}, (initial g job limits).superstep g job 0 = .ok s →
      ∃ t, (initial g' job' limits').superstep g' job' 0 = .ok t ∧ related s t)
    (hnext : ∀ {k s s' t}, Boundary g job limits k s → Boundary g' job' limits' k t →
      related s t → s.Continues limits k → s.superstep g job (k + 1) = .ok s' →
      t.Continues limits' k ∧ ∃ t', t.superstep g' job' (k + 1) = .ok t' ∧ related s' t')
    (h : Boundary g job limits k s) : ∃ t, Boundary g' job' limits' k t ∧ related s t := by
  induction h with
  | first _ step =>
      obtain ⟨t, hstep, hrelated⟩ := hfirst step
      exact ⟨t, .first hdivided hstep, hrelated⟩
  | next before goes step ih =>
      obtain ⟨t, ht, hrelated⟩ := ih
      obtain ⟨hgoes, t', hstep, hrelated'⟩ := hnext before ht hrelated goes step
      exact ⟨t', ht.next hgoes hstep, hrelated'⟩

variable [LawfulPathWeight W]

theorem Boundary.loop_of_continues (h : Boundary g job limits k s) (goes : s.Continues limits k) :
    loop g job limits (fuelFor g - k) k s =
      match s.superstep g job (k + 1) with
      | .error aborted => (s, some aborted)
      | .ok after => loop g job limits (fuelFor g - (k + 1)) (k + 1) after := by
  obtain ⟨fuel, hfuel⟩ : ∃ fuel, fuelFor g - k = fuel + 1 :=
    Nat.exists_eq_succ_of_ne_zero (Nat.sub_ne_zero_of_lt h.lt_fuel)
  have hrest : fuelFor g - (k + 1) = fuel := by omega
  have unrolled : loop g job limits (fuel + 1) k s = _ := loop_eq (fuel + 1)
  rw [if_neg goes.pending, if_neg (by simp [goes.wanted]), if_neg goes.allowed] at unrolled
  rw [hfuel, hrest]
  exact unrolled

/-- From a barrier on a run is the loop with the fuel that is left. -/
theorem Boundary.ofJob_eq (h : Boundary g job limits k s) :
    ofJob g job limits = finish g job (loop g job limits (fuelFor g - k) k s) := by
  induction h with
  | first divided step =>
      unfold initial at step
      simp only [ofJob, divided.ownerTable_eq, step, Nat.sub_zero]
  | next before goes step ih => rw [ih, before.loop_of_continues goes, step]

namespace Boundary

theorem outcome_of_halts (h : Boundary g job limits k s) (hhalts : s.Halts limits) :
    (ofJob g job limits).outcome = .ok (result g job s) := by
  rw [h.ofJob_eq, loop_eq]
  by_cases hempty : s.pending = 0
  · rw [if_pos hempty]
    rfl
  · rw [if_neg hempty, if_pos (hhalts.resolve_left hempty)]
    rfl

theorem outcome_of_bounded (h : Boundary g job limits k s) (hbounded : s.Bounded limits k) :
    (ofJob g job limits).outcome = .error (.noConvergence limits.maxSupersteps s.pending) := by
  rw [h.ofJob_eq, loop_eq, if_neg hbounded.pending, if_neg (by simp [hbounded.wanted]),
    if_pos hbounded.bound]
  rfl

end Boundary

namespace FailsIn

theorem outcome (h : FailsIn g job limits k fault) :
    (ofJob g job limits).outcome = .error fault := by
  cases h with
  | first divided step =>
      unfold initial at step
      simp only [ofJob, divided.ownerTable_eq, step, finish]
  | later boundary goes step =>
      rw [boundary.ofJob_eq, boundary.loop_of_continues goes, step]
      rfl

theorem rejects (h : FailsIn g job limits k fault) : job.Rejects g fault := by
  cases h with
  | first _ step => exact State.superstep_error limits.staffed sound_initial step
  | later boundary _ step => exact State.superstep_error limits.staffed boundary.sound step

end FailsIn

/-- Once the vertices are divided a run fails in a superstep, halts at a barrier, or is stopped
there by its bound. -/
theorem exists_end (job : Job W) (hdivided : g.Divisible limits.workers) :
    (∃ k fault, FailsIn g job limits k fault) ∨
      (∃ k s, Boundary g job limits k s ∧ s.Halts limits) ∨
      ∃ k s, Boundary g job limits k s ∧ s.Bounded limits k := by
  have houtcome := outcome_ofJob g job limits
  generalize (ofJob g job limits).outcome = outcome at houtcome
  cases houtcome with
  | undivided cause => exact absurd cause hdivided.not_indivisible
  | failedFirst _ step => exact .inl ⟨0, _, .first hdivided step⟩
  | failed boundary goes step => exact .inl ⟨_, _, .later boundary goes step⟩
  | finished boundary halts => exact .inr (.inl ⟨_, _, boundary, halts⟩)
  | @bounded k s boundary left bound =>
      rcases s.halts_or limits k with hhalts | hbounded | hgoes
      · exact .inr (.inl ⟨k, s, boundary, hhalts⟩)
      · exact .inr (.inr ⟨k, s, boundary, hbounded⟩)
      · exact absurd bound hgoes.allowed
  | unsettled boundary _ => exact absurd boundary.lt_fuel (Nat.lt_irrefl _)

/-- An error is that of a superstep, of the bound, or of vertices that cannot be divided. -/
theorem error_cases (h : (ofJob g job limits).outcome = .error fault) :
    (∃ k, FailsIn g job limits k fault) ∨
      (∃ k s, Boundary g job limits k s ∧ s.Bounded limits k ∧
        fault = .noConvergence limits.maxSupersteps s.pending) ∨
      g.Indivisible limits.workers fault := by
  rcases g.divisible_or limits.workers with hdivided | ⟨found, hcause⟩
  case inr =>
    rw [outcome_of_undivided hcause] at h
    exact .inr (.inr (Except.error.inj h ▸ hcause))
  rcases exists_end job hdivided with
    ⟨k, found, hfails⟩ | ⟨k, s, hs, hhalts⟩ | ⟨k, s, hs, hbounded⟩
  · rw [hfails.outcome] at h
    exact .inl ⟨k, Except.error.inj h ▸ hfails⟩
  · rw [hs.outcome_of_halts hhalts] at h
    cases h
  · rw [hs.outcome_of_bounded hbounded] at h
    exact .inr (.inl ⟨k, s, hs, hbounded, (Except.error.inj h).symm⟩)

/-- Without a bound a run that does not fail goes on until it halts. -/
theorem exists_halting (job : Job W) (hdivided : g.Divisible limits.workers)
    (hbound : limits.maxSupersteps = 0) (hworks : ∀ k fault, ¬FailsIn g job limits k fault) :
    ∃ k s, Boundary g job limits k s ∧ s.Halts limits := by
  rcases exists_end job hdivided with ⟨k, fault, hfails⟩ | hhalts | ⟨k, s, _, hbounded⟩
  · exact absurd hfails (hworks k fault)
  · exact hhalts
  · exact absurd hbound hbounded.bound.1

theorem exists_boundary_of_supersteps
    (h : (ofJob g job limits).outcome.toOption.map Result.supersteps = some (k + 1)) :
    ∃ s, Boundary g job limits k s := by
  obtain ⟨result, hresult, hsupersteps⟩ := exists_result h
  obtain ⟨j, s, boundary, _, rfl⟩ := exists_boundary_of_result hresult
  have hlength : j + 1 = k + 1 := boundary.length_history.symm.trans hsupersteps
  obtain rfl := Nat.succ.inj hlength
  exact ⟨s, boundary⟩

end Run

end BulkPaths
