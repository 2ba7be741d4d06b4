import BulkPaths.Proofs.RejectedEdges

/-!
# Bounded runs

A bound counts the supersteps after the first. A run that ends by itself in one of the supersteps
that are allowed does not notice its bound, whether it returns or fails; any other one is stopped at
the barrier of the last superstep that is allowed, and reports what was delivered there.
-/

namespace BulkPaths

variable {W : Type}

def Limits.upTo (limits : Limits) (bound : Nat) : Limits := { limits with maxSupersteps := bound }

theorem State.Continues.upTo {limits : Limits} {bound k : Nat} {s : State W}
    (h : s.Continues limits k) (hk : k < bound) : s.Continues (limits.upTo bound) k where
  pending := h.pending
  wanted := h.wanted
  allowed hlate := Nat.not_lt_of_le hk hlate.2

variable [PathWeight W] {g : PropertyGraph} {job : Job W} {limits : Limits} {bound j k : Nat}
  {s t : State W} {fault : Fault} {ending : Except Fault (Result W)}

namespace Run

theorem Boundary.upTo (h : Boundary g job limits k s) (hk : k ≤ bound) :
    Boundary g job (limits.upTo bound) k s := by
  induction h with
  | first divided step => exact .first divided step
  | next _ goes step ih => exact (ih (Nat.le_of_succ_le hk)).next (goes.upTo hk) step

/-- The run ends by itself in superstep `k`. -/
inductive EndsIn (g : PropertyGraph) (job : Job W) (limits : Limits) (k : Nat) :
    Except Fault (Result W) → Prop
  | returns {s : State W} (boundary : Boundary g job limits k s) (halts : s.Halts limits) :
      EndsIn g job limits k (.ok (result g job s))
  | fails {fault : Fault} (failed : FailsIn g job limits k fault) :
      EndsIn g job limits k (.error fault)

variable [LawfulPathWeight W]

theorem EndsIn.outcome (h : EndsIn g job limits k ending) :
    (ofJob g job limits).outcome = ending := by
  cases h with
  | returns boundary halts => exact boundary.outcome_of_halts halts
  | fails failed => exact failed.outcome

theorem exists_endsIn (job : Job W) (hdivided : g.Divisible limits.workers)
    (hbound : limits.maxSupersteps = 0) : ∃ k ending, EndsIn g job limits k ending := by
  rcases exists_end job hdivided with
    ⟨k, fault, hfails⟩ | ⟨k, s, hs, hhalts⟩ | ⟨k, s, _, hbounded⟩
  · exact ⟨k, _, .fails hfails⟩
  · exact ⟨k, _, .returns hs hhalts⟩
  · exact absurd hbound hbounded.bound.1

omit [LawfulPathWeight W] in
theorem EndsIn.divided (h : EndsIn g job limits k ending) : g.Divisible limits.workers := by
  cases h with
  | returns boundary _ => exact boundary.divided
  | fails failed => exact failed.divided

theorem EndsIn.supersteps_eq (h : EndsIn g job limits k ending) {result : Result W}
    (hresult : (ofJob g job limits).outcome = .ok result) : result.supersteps = k + 1 := by
  have houtcome := h.outcome.symm.trans hresult
  cases h with
  | returns boundary _ =>
      cases houtcome
      exact boundary.length_history
  | fails => cases houtcome

omit [LawfulPathWeight W] in
theorem EndsIn.exists_before (h : EndsIn g job limits k ending) (hj : j < k) :
    ∃ s, Boundary g job limits j s := by
  cases h with
  | returns boundary _ => exact boundary.exists_le (Nat.le_of_lt hj)
  | fails failed =>
      obtain ⟨i, s, boundary, hle⟩ := failed.exists_before hj
      exact boundary.exists_le hle

/-- A bound that is not reached before the end changes nothing at all. -/
theorem EndsIn.ofJob_upTo (h : EndsIn g job limits k ending) (hk : k ≤ bound) :
    ofJob g job (limits.upTo bound) = ofJob g job limits := by
  cases h with
  | @returns s boundary halts =>
      rw [boundary.ofJob_eq, (boundary.upTo hk).ofJob_eq, loop_eq, loop_eq]
      by_cases hempty : s.pending = 0
      · rw [if_pos hempty, if_pos hempty]
      · have hearly := halts.resolve_left hempty
        have hearly' : ((limits.upTo bound).stopEarly && s.aggregator.converged) = true := hearly
        rw [if_neg hempty, if_neg hempty, if_pos hearly, if_pos hearly']
  | fails failed =>
      cases failed with
      | first divided step =>
          unfold initial at step
          simp only [ofJob, Limits.upTo, divided.ownerTable_eq, step]
      | later boundary goes step =>
          have hbefore := boundary.upTo (Nat.le_of_succ_le hk)
          rw [boundary.ofJob_eq, boundary.loop_of_continues goes, hbefore.ofJob_eq,
            hbefore.loop_of_continues (goes.upTo hk), step]

namespace Boundary

/-- The last entry of the history tells what was delivered at the barrier. -/
theorem delivered (h : Boundary g job limits k s) :
    s.history[k]?.map Stats.delivered = some s.pending := by
  have hlast : ∀ {index turns} {s s' : State W}, s.history.length = index →
      s'.history = s.history ++ [State.stats index turns s'] →
        s'.history[index]?.map Stats.delivered = some s'.pending := by
    intro index turns s s' hlength hhistory
    rw [hhistory, ← hlength, List.getElem?_concat_length]
    rfl
  induction h using Boundary.induct with
  | first _ hstep => exact hlast rfl hstep.history
  | next before hstep _ => exact hlast before.length_history hstep.history

theorem history_prefix (h : Boundary g job limits k s) (ht : Boundary g job limits j t)
    (hj : j ≤ k) : t.history <+: s.history := by
  induction h with
  | first divided step =>
      obtain rfl := Nat.le_zero.mp hj
      obtain rfl := ht.unique (.first divided step)
      exact List.prefix_rfl
  | @next k s s' before goes step ih =>
      rcases Nat.le_succ_iff.mp hj with hle | rfl
      · obtain ⟨turns, hstep, _⟩ := State.superstep_ok limits.staffed before.sound step
        rw [hstep.history]
        exact (ih hle).trans (List.prefix_append ..)
      · obtain rfl := ht.unique (before.next goes step)
        exact List.prefix_rfl

end Boundary

/-- A run that does not end by itself within its bound is stopped at the barrier of the last
superstep that the bound allows. -/
theorem exists_stopped (hdivided : g.Divisible limits.workers) (hbound : limits.maxSupersteps = 0)
    (hpos : 1 ≤ bound) (hlate : ∀ k ≤ bound, ∀ ending, ¬EndsIn g job limits k ending) :
    ∃ s, Boundary g job limits bound s ∧
      (ofJob g job (limits.upTo bound)).outcome = .error (.noConvergence bound s.pending) := by
  obtain ⟨k, ending, hends⟩ := exists_endsIn job hdivided hbound
  have hk : bound < k := by
    by_contra hearly
    exact hlate k (Nat.le_of_not_lt hearly) ending hends
  obtain ⟨s, hs⟩ := hends.exists_before hk
  rcases s.halts_or limits bound with hhalts | hbounded | hgoes
  · exact absurd (.returns hs hhalts) (hlate bound (Nat.le_refl bound) _)
  · exact absurd hbound hbounded.bound.1
  · have hstopped : s.Bounded (limits.upTo bound) bound :=
      ⟨hgoes.pending, hgoes.wanted, Nat.ne_of_gt hpos, Nat.lt_succ_self bound⟩
    exact ⟨s, hs, (hs.upTo (Nat.le_refl bound)).outcome_of_bounded hstopped⟩

/-- A run with a bound against the one without. If that ends by itself in a superstep that is
allowed, both are the same in all that they leave behind. If it does not, the bounded run fails, and
says how many messages were delivered at the barrier of the last superstep that is allowed. If the
vertices cannot be divided among the workers, both fail before that. -/
theorem bounded_run_refines (hbound : limits.maxSupersteps = 0) (hpos : 1 ≤ bound) :
    (∀ k ≤ bound, ∀ ending, EndsIn g job limits k ending →
      (ofJob g job limits).outcome = ending ∧
        ofJob g job (limits.upTo bound) = ofJob g job limits) ∧
    (g.Divisible limits.workers → (∀ k ≤ bound, ∀ ending, ¬EndsIn g job limits k ending) →
      ∃ s fault, Boundary g job limits bound s ∧
        (ofJob g job (limits.upTo bound)).outcome = .error fault ∧ fault.kind = .algorithm ∧
        fault.message = "no convergence within " ++ toString bound ++ " supersteps (" ++
          toString s.pending ++ " messages pending)" ∧
        s.history[bound]?.map Stats.delivered = some s.pending ∧
        ∀ result, (ofJob g job limits).outcome = .ok result →
          result.history[bound]? = s.history[bound]?) ∧
    ∀ fault, g.Indivisible limits.workers fault →
      (ofJob g job limits).outcome = .error fault ∧
        (ofJob g job (limits.upTo bound)).outcome = .error fault := by
  refine ⟨fun k hk ending hends => ⟨hends.outcome, hends.ofJob_upTo hk⟩,
    fun hdivided hlate => ?_,
    fun fault hcause => ⟨outcome_of_undivided hcause, outcome_of_undivided hcause⟩⟩
  obtain ⟨s, hs, hstopped⟩ := exists_stopped hdivided hbound hpos hlate
  refine ⟨s, _, hs, hstopped, rfl, rfl, hs.delivered, fun result hresult => ?_⟩
  obtain ⟨k, t, ht, hhalts, rfl⟩ := exists_boundary_of_result hresult
  have hk : bound ≤ k := by
    by_contra hearly
    exact hlate k (Nat.le_of_not_le hearly) _ (.returns ht hhalts)
  -- the barrier of the bound lies on the way of the unbounded run
  have hlength : bound < s.history.length := by
    rw [hs.length_history]
    exact Nat.lt_succ_self bound
  obtain ⟨rest, hrest⟩ := ht.history_prefix hs hk
  change t.history[bound]? = s.history[bound]?
  rw [← hrest]
  exact List.getElem?_append_left hlength

theorem bounded_run_refines_diamond : ∃ (pending : Nat) (fault : Fault),
    (ofJob diamond diamondJob (EngineConfig.standard.limits.upTo 1)).outcome = .error fault ∧
      fault.kind = .algorithm ∧
      fault.message = "no convergence within " ++ toString 1 ++ " supersteps (" ++
        toString pending ++ " messages pending)" := by
  obtain ⟨result, hresult, hsupersteps⟩ : ∃ result,
      (ofJob diamond diamondJob EngineConfig.standard.limits).outcome = .ok result ∧
        result.supersteps = 3 := exists_result (by decide +kernel)
  obtain ⟨_, hstopped, _⟩ :=
    @bounded_run_refines Float _ diamond diamondJob EngineConfig.standard.limits 1 _ rfl
      (Nat.le_refl 1)
  have hlate : ∀ k ≤ 1, ∀ ending,
      ¬EndsIn diamond diamondJob EngineConfig.standard.limits k ending := by
    intro k hk ending hends
    have hlength := hends.supersteps_eq hresult
    omega
  obtain ⟨s, fault, _, houtcome, hkind, hmessage, _⟩ :=
    hstopped ⟨by decide, diamond_printable⟩ hlate
  exact ⟨s.pending, fault, houtcome, hkind, hmessage⟩

/-- With too many workers the bound is never asked. -/
theorem crowded_run_is_not_bounded : crowded.limits.maxSupersteps = 0 ∧
    (∀ k ≤ 1, ∀ ending, ¬EndsIn diamond diamondJob crowded.limits k ending) ∧
    ∃ fault, (ofJob diamond diamondJob (crowded.limits.upTo 1)).outcome = .error fault ∧
      fault.kind ≠ .algorithm := by
  have hcause : diamond.Indivisible crowded.workers .workersOutOfRange :=
    PropertyGraph.indivisible_workerLimit diamond_printable
  refine ⟨rfl, fun k _ ending hends => ?_, _, outcome_of_undivided hcause, ?_⟩
  · exact absurd hcause hends.divided.not_indivisible
  · decide

end Run

end BulkPaths
