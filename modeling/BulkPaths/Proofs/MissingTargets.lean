import BulkPaths.Proofs.Rearrangement

/-!
# Missing targets

Only a vertex that finds all targets in its replica keeps what it hears to itself, and a replica
holds no more than is merged at the next barrier. So nobody is muted before the superstep that
completes the merged set, and as long as a target is missing the run is in step with that of the job
about all vertices: that run cannot fail either, and takes the same supersteps.
-/

namespace BulkPaths

open PathWeight

variable {W : Type} [PathWeight W]

/-- Who keeps to itself what it hears has found all targets. -/
theorem Job.mem_enrolled_of_mutes {job : Job W} {call : Call W} {replica : IdSet}
    (h : job.mutes call replica = true) :
    job.targets ≠ .all ∧ ∀ v ∈ job.targets.ids, v ∈ job.enrolled call replica := by
  simp only [mutes, silences, Bool.and_eq_true] at h
  obtain ⟨hcalled, htarget, hreached⟩ := h
  cases htargets : job.targets with
  | all => simp [htargets, Targets.allReached] at hreached
  | single target =>
      refine ⟨Targets.noConfusion, fun v hv => ?_⟩
      obtain rfl := List.mem_singleton.mp hv
      simp only [htargets, Targets.allReached, beq_iff_eq] at hreached
      obtain ⟨m, hm⟩ := Option.isSome_iff_exists.mp hcalled
      simp only [enrolled, hm, htargets, Targets.mem_enroll]
      exact .inr ⟨hreached.symm, List.mem_singleton_self v⟩
  | multiple ids =>
      refine ⟨Targets.noConfusion, fun v hv => ?_⟩
      simp only [htargets, Targets.allReached, Bool.and_eq_true, IdSet.subset,
        List.all_eq_true] at hreached
      exact List.contains_iff_mem.mp (hreached.2 v hv)

namespace State

variable {g : PropertyGraph} {job : Job W} {count index : Nat} {s s' t t' : State W}
  {turns turns' : List (Turn W)}

theorem converged_iff_subset (h : s.Sound g job count) :
    s.aggregator.converged ↔
      job.targets ≠ .all ∧ ∀ v ∈ job.targets.ids, v ∈ s.aggregator.merged := by
  rw [Aggregator.converged_iff, h.clean.same]
  rfl

theorem mutes_all (htargets : job.targets = .all) (call : Call W) (replica : IdSet) :
    job.mutes call replica = false := by
  simp [Job.mutes, Job.silences, htargets, Targets.allReached]

namespace Superstep

theorem mutes_of_missing (h : s.Superstep g job index s' turns) (hs' : s'.Sound g job count)
    (hmissing : s'.aggregator.converged = false) :
    ∀ turn ∈ turns, job.mutes turn.call turn.replica = false := by
  intro turn hturn
  rw [← Bool.not_eq_true]
  intro hmuted
  -- who is muted has all targets in a replica, and they are merged at the barrier
  obtain ⟨hexplicit, hall⟩ := Job.mem_enrolled_of_mutes hmuted
  have hconverged : s'.aggregator.converged := by
    refine (converged_iff_subset hs').mpr ⟨hexplicit, fun v hv => ?_⟩
    exact (h.reached v).mpr (((h.replicas turn hturn).enrolled hturn).new v (hall v hv))
  rw [hmissing] at hconverged
  cases hconverged

theorem missing_before (h : s.Superstep g job index s' turns) (hs : s.Sound g job count)
    (hs' : s'.Sound g job count) (hmissing : s'.aggregator.converged = false) :
    s.aggregator.converged = false := by
  rw [← Bool.not_eq_true] at hmissing ⊢
  intro hconverged
  obtain ⟨hexplicit, hall⟩ := (converged_iff_subset hs).mp hconverged
  exact hmissing ((converged_iff_subset hs').mpr
    ⟨hexplicit, fun v hv => (h.reached v).mpr (.inl (hall v hv))⟩)

end Superstep

/-- The same values and the same work, whatever has been reached. -/
structure Level (s t : State W) : Prop extends s.Alike t where
  counters : s.counters = t.counters
  work : s.history.map Stats.work = t.history.map Stats.work

theorem Same.level (h : s.Same t) : s.Level t :=
  { h.toAlike with counters := h.counters, work := by rw [h.history] }

namespace Superstep

/-- Where nobody is muted a superstep is that of the job about all vertices. -/
theorem level (h : s.Superstep g job index s' turns)
    (h' : t.Superstep g (job.aimed .all) index t' turns')
    (habreast : Abreast job g count (job.aimed .all) g count s t) (hs' : s'.Sound g job count)
    (ht' : t'.Sound g (job.aimed .all) count) (hlevel : s.Level t)
    (hmutes : ∀ turn ∈ turns, job.mutes turn.call turn.replica = false)
    [LawfulPathWeight W] : s'.Level t' := by
  have hboth : ∀ turn ∈ turns, ∀ turn' ∈ turns', turn.call = turn'.call →
      job.mutes turn.call turn.replica = (job.aimed .all).mutes turn'.call turn'.replica := by
    intro turn hturn turn' _ _
    rw [hmutes turn hturn, mutes_all rfl]
  have halike := h.alike_of_twin h' habreast hboth
  have hpending := pending_eq_of_waiting hs' ht' halike.waiting
  have hwork := h.work_eq_of_twin h' habreast hboth hpending
  refine { halike with counters := ?_, work := ?_ }
  · have hadd : ∀ (counters : Counters) (stats : Stats),
        counters.add stats = counters.add stats.work := fun _ _ => rfl
    rw [h.counters, h'.counters, hlevel.counters, hadd, hwork, ← hadd]
  · simp only [h.history, h'.history, List.map_append, List.map_singleton, hlevel.work, hwork]

theorem exists_level [LawfulPathWeight W] (h : s.Superstep g job index s' turns)
    (habreast : Abreast job g count (job.aimed .all) g count s t) (hs' : s'.Sound g job count)
    (hlevel : s.Level t) (hmissing : s'.aggregator.converged = false) :
    ∃ t', t.superstep g (job.aimed .all) index = .ok t' ∧ s'.Level t' := by
  have hmutes := h.mutes_of_missing hs' hmissing
  cases hother : t.superstep g (job.aimed .all) index with
  | ok t' =>
      obtain ⟨turns', hstep', ht'⟩ := superstep_ok habreast.staffed' habreast.sound' hother
      exact ⟨t', rfl, h.level hstep' habreast hs' ht' hlevel hmutes⟩
  | error aborted =>
      -- the call that fails has been answered in the first superstep, where nobody is muted either
      obtain ⟨call, hcall, replica, hact⟩ := exists_call_of_error habreast.sound' hother
      obtain ⟨turn, hturn, rfl⟩ :=
        h.exists_turn ((habreast.due_perm index).mem_iff.mpr hcall)
      have hboth : job.mutes turn.call turn.replica =
          (job.aimed .all).mutes turn.call replica := by
        rw [hmutes turn hturn, mutes_all rfl]
      obtain ⟨_, hact', _⟩ := Job.act_ok_of_twin habreast.twin hboth (h.acted turn hturn)
      rw [habreast.value] at hact'
      cases hact.symm.trans hact'

end Superstep

end State

/-- What a result says of the vertices and of the work that it took. -/
def Result.work (result : Result W) : List (VertexId × PathValue W) × Nat × Counters :=
  (result.values, result.supersteps, result.counters)

namespace Run

variable {g : PropertyGraph} {job job' : Job W} {limits : Limits} {k : Nat} {s t : State W}

theorem work_result_of_level (h : s.Level t) :
    (result g job s).work = (result g job' t).work := by
  have hvalues : (fun v => (v, s.value v)) = fun v => (v, t.value v) := by
    funext v
    rw [h.value]
  have hmap : g.ids.map (fun v => (v, s.value v)) = g.ids.map fun v => (v, t.value v) := by
    rw [hvalues]
  have hlength : s.history.length = t.history.length := by
    simpa using congrArg List.length h.work
  exact Prod.ext hmap (Prod.ext hlength h.counters)

theorem twin_all (g : PropertyGraph) (halone : job.targets ≠ .single job.source) :
    job.Twin g (job.aimed .all) g :=
  .aimed job g ⟨fun h => absurd h halone, fun h => nomatch h⟩

variable [LawfulPathWeight W]

theorem Boundary.continues_all (hs : Boundary g job limits k s)
    (ht : Boundary g (job.aimed .all) limits k t) (halike : s.Alike t)
    (goes : s.Continues limits k) : t.Continues limits k := by
  refine ⟨?_, ht.wanted_of_all rfl, goes.allowed⟩
  rw [← State.pending_eq_of_waiting hs.sound ht.sound halike.waiting]
  exact goes.pending

/-- Up to every barrier at which a target is missing the run about all vertices keeps step. -/
theorem Boundary.exists_level_of_missing (halone : job.targets ≠ .single job.source)
    (h : Boundary g job limits k s) (hmissing : s.aggregator.converged = false) :
    ∃ t, Boundary g (job.aimed .all) limits k t ∧ s.Level t := by
  have htwin := twin_all g halone
  induction h with
  | first divided step =>
      obtain ⟨turns, hstep, hs⟩ := State.superstep_ok limits.staffed sound_initial step
      obtain ⟨t, hother, hlevel⟩ :=
        hstep.exists_level (abreast_initial htwin) hs same_initial.level hmissing
      exact ⟨t, .first divided hother, hlevel⟩
  | @next k s s' before goes step ih =>
      obtain ⟨turns, hstep, hs'⟩ := State.superstep_ok limits.staffed before.sound step
      obtain ⟨t, ht, hlevel⟩ := ih (hstep.missing_before before.sound hs' hmissing)
      obtain ⟨t', hother, hlevel'⟩ := hstep.exists_level
        (before.abreast ht htwin hlevel.toAlike) hs' hlevel hmissing
      exact ⟨t', ht.next (before.continues_all ht hlevel.toAlike goes) hother, hlevel'⟩

theorem Boundary.missing_le (h : Boundary g job limits k s)
    (hmissing : s.aggregator.converged = false) {j : Nat} (ht : Boundary g job limits j t)
    (hj : j ≤ k) : t.aggregator.converged = false := by
  induction h with
  | first divided step =>
      obtain rfl := Nat.le_zero.mp hj
      obtain rfl := ht.unique (.first divided step)
      exact hmissing
  | next before goes step ih =>
      obtain ⟨turns, hstep, hs'⟩ := State.superstep_ok limits.staffed before.sound step
      rcases Nat.le_succ_iff.mp hj with hle | rfl
      · exact ih (hstep.missing_before before.sound hs' hmissing) hle
      · obtain rfl := ht.unique (before.next goes step)
        exact hmissing

theorem Boundary.exists_level_le (halone : job.targets ≠ .single job.source)
    (h : Boundary g job limits k s) (hmissing : s.aggregator.converged = false) {j : Nat}
    (ht : Boundary g (job.aimed .all) limits j t) (hj : j ≤ k) :
    ∃ s', Boundary g job limits j s' ∧ s'.Level t := by
  obtain ⟨s', hs'⟩ := h.exists_le hj
  obtain ⟨t', ht', hlevel⟩ :=
    hs'.exists_level_of_missing halone (h.missing_le hmissing hs' hj)
  obtain rfl := ht'.unique ht
  exact ⟨s', hs', hlevel⟩

/-- A run in which a target is missing to the end does the work of one about all vertices. -/
theorem work_outcome_of_missing (halone : job.targets ≠ .single job.source)
    (hworks : ∀ k fault, ¬FailsIn g job limits k fault)
    (hmissing : ∀ k s, Boundary g job limits k s → s.aggregator.converged = false) :
    (ofJob g job limits).outcome.map Result.work =
      (ofJob g (job.aimed .all) limits).outcome.map Result.work := by
  rcases g.divisible_or limits.workers with hdivided | ⟨fault, hcause⟩
  case inr => rw [outcome_of_undivided hcause, outcome_of_undivided hcause]
  have hboundary : ∀ {k s}, Boundary g job limits k s →
      ∃ t, Boundary g (job.aimed .all) limits k t ∧ s.Level t ∧ s.pending = t.pending := by
    intro k s hs
    obtain ⟨t, ht, hlevel⟩ := hs.exists_level_of_missing halone (hmissing k s hs)
    exact ⟨t, ht, hlevel, State.pending_eq_of_waiting hs.sound ht.sound hlevel.waiting⟩
  rcases exists_end job hdivided with
    ⟨k, fault, hfails⟩ | ⟨k, s, hs, hhalts⟩ | ⟨k, s, hs, hbounded⟩
  · exact absurd hfails (hworks k fault)
  · obtain ⟨t, ht, hlevel, hpending⟩ := hboundary hs
    have hempty : s.pending = 0 := by
      refine hhalts.resolve_right fun henough => ?_
      rw [hmissing k s hs, Bool.and_false] at henough
      cases henough
    rw [hs.outcome_of_halts hhalts, ht.outcome_of_halts (.inl (hpending.symm.trans hempty))]
    exact congrArg Except.ok (work_result_of_level hlevel)
  · obtain ⟨t, ht, hlevel, hpending⟩ := hboundary hs
    have hbounded' : t.Bounded limits k :=
      ⟨hpending ▸ hbounded.pending, ht.wanted_of_all rfl, hbounded.bound⟩
    rw [hs.outcome_of_bounded hbounded, ht.outcome_of_bounded hbounded', hpending]

end Run

end BulkPaths
