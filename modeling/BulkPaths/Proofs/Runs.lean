import BulkPaths.Proofs.Divisions
import BulkPaths.Proofs.Renewals

/-!
# Runs

A run is the chain of the states at its barriers. It goes on while messages are pending, unless it
is told to stop early or reaches its bound; where it ends decides the outcome.
-/

namespace BulkPaths

variable {W : Type} [PathWeight W]

/-- The run goes on after the barrier of superstep `k`. -/
structure State.Continues (limits : Limits) (k : Nat) (s : State W) : Prop where
  pending : s.pending ≠ 0
  wanted : (limits.stopEarly && s.aggregator.converged) = false
  allowed : ¬(limits.maxSupersteps ≠ 0 ∧ limits.maxSupersteps < k + 1)

namespace Run

def initial (g : PropertyGraph) (job : Job W) (limits : Limits) : State W :=
  .start g job.targets limits.workers (opening g job)

/-- The state after superstep `k` of a run. -/
inductive Boundary (g : PropertyGraph) (job : Job W) (limits : Limits) : Nat → State W → Prop
  | first {s : State W} (divided : g.Divisible limits.workers)
      (step : (initial g job limits).superstep g job 0 = .ok s) : Boundary g job limits 0 s
  | next {k : Nat} {s s' : State W} (before : Boundary g job limits k s)
      (goes : s.Continues limits k) (step : s.superstep g job (k + 1) = .ok s') :
      Boundary g job limits (k + 1) s'

/-- A state from which superstep `k` starts, or would start if the run went on. -/
inductive Ready (g : PropertyGraph) (job : Job W) (limits : Limits) : Nat → State W → Prop
  | first (divided : g.Divisible limits.workers) : Ready g job limits 0 (initial g job limits)
  | later {k : Nat} {s : State W} (boundary : Boundary g job limits k s) :
      Ready g job limits (k + 1) s

/-- How a run ends whose fuel lasts for superstep `last` at most. -/
inductive Ended (g : PropertyGraph) (job : Job W) (limits : Limits) (last : Nat) :
    State W × Option (Aborted W) → Prop
  | settled {k : Nat} {s : State W} (boundary : Boundary g job limits k s)
      (empty : s.pending = 0) : Ended g job limits last (s, none)
  | early {k : Nat} {s : State W} (boundary : Boundary g job limits k s) (left : s.pending ≠ 0)
      (enough : (limits.stopEarly && s.aggregator.converged) = true) :
      Ended g job limits last
        ({ s with events := s.events ++ [.targetsReached k s.pending] }, none)
  | bounded {k : Nat} {s : State W} (boundary : Boundary g job limits k s) (left : s.pending ≠ 0)
      (bound : limits.maxSupersteps ≠ 0 ∧ limits.maxSupersteps < k + 1) :
      Ended g job limits last
        (s, some (s.fail (.noConvergence limits.maxSupersteps s.pending)))
  | failed {k : Nat} {s : State W} {aborted : Aborted W} (boundary : Boundary g job limits k s)
      (goes : s.Continues limits k) (step : s.superstep g job (k + 1) = .error aborted) :
      Ended g job limits last (s, some aborted)
  | unsettled {s : State W} (boundary : Boundary g job limits last s)
      (goes : s.Continues limits last) : Ended g job limits last (s, some (s.fail .unsettled))

variable {g : PropertyGraph} {job : Job W} {limits : Limits} {k : Nat} {s : State W}

theorem value_initial (v : VertexId) : (initial g job limits).value v = .unreached :=
  State.value_start job.targets (opening g job) v

theorem loopBy_eq (routing : State.Routing W) (fuel : Nat) :
    loopBy routing g job limits fuel k s =
      if s.pending = 0 then (s, none)
      else if limits.stopEarly && s.aggregator.converged then
        ({ s with events := s.events ++ [.targetsReached k s.pending] }, none)
      else if limits.maxSupersteps ≠ 0 ∧ limits.maxSupersteps < k + 1 then
        (s, some (s.fail (.noConvergence limits.maxSupersteps s.pending)))
      else
        match fuel with
        | 0 => (s, some (s.fail .unsettled))
        | fuel + 1 =>
          match s.superstepBy routing g job (k + 1) with
          | .error aborted => (s, some aborted)
          | .ok next => loopBy routing g job limits fuel (k + 1) next := by
  cases fuel <;> rfl

theorem loop_eq (fuel : Nat) :
    loop g job limits fuel k s =
      if s.pending = 0 then (s, none)
      else if limits.stopEarly && s.aggregator.converged then
        ({ s with events := s.events ++ [.targetsReached k s.pending] }, none)
      else if limits.maxSupersteps ≠ 0 ∧ limits.maxSupersteps < k + 1 then
        (s, some (s.fail (.noConvergence limits.maxSupersteps s.pending)))
      else
        match fuel with
        | 0 => (s, some (s.fail .unsettled))
        | fuel + 1 =>
          match s.superstep g job (k + 1) with
          | .error aborted => (s, some aborted)
          | .ok next => loop g job limits fuel (k + 1) next :=
  loopBy_eq State.byHash fuel

theorem loop_ended (fuel : Nat) {k : Nat} {s : State W} (hboundary : Boundary g job limits k s) :
    Ended g job limits (k + fuel) (loop g job limits fuel k s) := by
  rw [loop_eq]
  split
  case isTrue hempty => exact .settled hboundary hempty
  case isFalse hleft =>
    split
    case isTrue henough => exact .early hboundary hleft henough
    case isFalse hwanted =>
      split
      case isTrue hbound => exact .bounded hboundary hleft hbound
      case isFalse hallowed =>
        have hgoes : s.Continues limits k := ⟨hleft, by simpa using hwanted, hallowed⟩
        cases fuel with
        | zero => exact .unsettled hboundary hgoes
        | succ fuel =>
            dsimp only
            split
            case h_1 hstep => exact .failed hboundary hgoes hstep
            case h_2 hstep =>
              have hlater := loop_ended fuel (hboundary.next hgoes hstep)
              rwa [Nat.add_right_comm] at hlater

inductive Outcome (g : PropertyGraph) (job : Job W) (limits : Limits) :
    Except Fault (Result W) → Prop
  | undivided {fault : Fault} (cause : g.Indivisible limits.workers fault) :
      Outcome g job limits (.error fault)
  | failedFirst {aborted : Aborted W} (divided : g.Divisible limits.workers)
      (step : (initial g job limits).superstep g job 0 = .error aborted) :
      Outcome g job limits (.error aborted.fault)
  | finished {k : Nat} {s : State W} (boundary : Boundary g job limits k s)
      (halts : s.pending = 0 ∨ (limits.stopEarly && s.aggregator.converged) = true) :
      Outcome g job limits (.ok (result g job s))
  | bounded {k : Nat} {s : State W} (boundary : Boundary g job limits k s) (left : s.pending ≠ 0)
      (bound : limits.maxSupersteps ≠ 0 ∧ limits.maxSupersteps < k + 1) :
      Outcome g job limits (.error (.noConvergence limits.maxSupersteps s.pending))
  | failed {k : Nat} {s : State W} {aborted : Aborted W} (boundary : Boundary g job limits k s)
      (goes : s.Continues limits k) (step : s.superstep g job (k + 1) = .error aborted) :
      Outcome g job limits (.error aborted.fault)
  | unsettled {s : State W} (boundary : Boundary g job limits (fuelFor g) s)
      (goes : s.Continues limits (fuelFor g)) : Outcome g job limits (.error .unsettled)

theorem Ended.outcome {done : State W × Option (Aborted W)}
    (h : Ended g job limits (fuelFor g) done) :
    Outcome g job limits (finish g job done).outcome := by
  cases h with
  | settled boundary empty => exact .finished boundary (.inl empty)
  | @early k s boundary _ enough =>
      have hfinished := Outcome.finished boundary (.inr enough)
      exact hfinished
  | bounded boundary left bound => exact .bounded boundary left bound
  | failed boundary goes step => exact .failed boundary goes step
  | unsettled boundary goes => exact .unsettled boundary goes

theorem outcome_of_undivided {fault : Fault} (h : g.Indivisible limits.workers fault) :
    (ofJob g job limits).outcome = .error fault := by
  rw [ofJob, h.ownerTable_eq]

theorem outcome_ofJob (g : PropertyGraph) (job : Job W) (limits : Limits) :
    Outcome g job limits (ofJob g job limits).outcome := by
  rcases g.divisible_or limits.workers with hdivided | ⟨fault, hcause⟩
  case inr =>
    rw [outcome_of_undivided hcause]
    exact .undivided hcause
  case inl =>
    rw [ofJob, hdivided.ownerTable_eq]
    cases hstep : (initial g job limits).superstep g job 0 with
    | error aborted =>
        unfold initial at hstep
        simp only [hstep, finish]
        exact .failedFirst hdivided hstep
    | ok first =>
        have hended := loop_ended (fuelFor g) (.first hdivided hstep)
        unfold initial at hstep
        rw [Nat.zero_add] at hended
        simp only [hstep]
        exact hended.outcome

/-- A result is read off the state at a barrier. -/
theorem exists_boundary_of_result {result : Result W}
    (h : (ofJob g job limits).outcome = .ok result) :
    ∃ k s, Boundary g job limits k s ∧
      (s.pending = 0 ∨ (limits.stopEarly && s.aggregator.converged) = true) ∧
        result = Run.result g job s := by
  have houtcome := outcome_ofJob g job limits
  rw [h] at houtcome
  cases houtcome with
  | finished boundary halts => exact ⟨_, _, boundary, halts, rfl⟩

namespace Boundary

theorem unique {s' : State W} (h : Boundary g job limits k s) (h' : Boundary g job limits k s') :
    s = s' := by
  induction h generalizing s' with
  | first _ step =>
      cases h' with
      | first _ step' => exact Except.ok.inj (step.symm.trans step')
  | next _ _ step ih =>
      cases h' with
      | next before' _ step' =>
          obtain rfl := ih before'
          exact Except.ok.inj (step.symm.trans step')

theorem exists_le (h : Boundary g job limits k s) {j : Nat} (hj : j ≤ k) :
    ∃ t, Boundary g job limits j t := by
  induction h with
  | first divided step =>
      obtain rfl := Nat.le_zero.mp hj
      exact ⟨_, .first divided step⟩
  | next before goes step ih =>
      rcases Nat.le_succ_iff.mp hj with hle | rfl
      · exact ih hle
      · exact ⟨_, before.next goes step⟩

end Boundary

section Lawful

variable [LawfulPathWeight W]

theorem sound_initial : (initial g job limits).Sound g job limits.workers :=
  State.sound_start (opening g job)

namespace Boundary

theorem sound (h : Boundary g job limits k s) : s.Sound g job limits.workers := by
  induction h with
  | first _ step =>
      obtain ⟨_, _, hsound⟩ := State.superstep_ok limits.staffed sound_initial step
      exact hsound
  | next _ _ step ih =>
      obtain ⟨_, _, hsound⟩ := State.superstep_ok limits.staffed ih step
      exact hsound

/-- What the first superstep establishes and every later one preserves holds at every barrier. -/
theorem induct {motive : ∀ k s, Boundary g job limits k s → Prop}
    (first : ∀ {s turns} h, (initial g job limits).Superstep g job 0 s turns → motive 0 s h)
    (next : ∀ {k s s' turns h'} h, s.Superstep g job (k + 1) s' turns → motive k s h →
      motive (k + 1) s' h') (h : Boundary g job limits k s) : motive k s h := by
  induction h with
  | first _ step =>
      obtain ⟨turns, hstep, _⟩ := State.superstep_ok limits.staffed sound_initial step
      exact first _ hstep
  | next before _ step ih =>
      obtain ⟨turns, hstep, _⟩ := State.superstep_ok limits.staffed before.sound step
      exact next before hstep ih

theorem length_history (h : Boundary g job limits k s) : s.history.length = k + 1 := by
  induction h using induct with
  | first _ hstep =>
      rw [hstep.history]
      rfl
  | next _ hstep ih =>
      rw [hstep.history, List.length_append, ih]
      rfl

theorem merged_of_all (h : Boundary g job limits k s) (hall : job.targets = .all) :
    s.aggregator.merged = [] := by
  apply List.eq_nil_iff_forall_not_mem.mpr
  intro v hv
  have htarget := h.sound.clean.merged v hv
  rw [hall] at htarget
  cases htarget

/-- A run about all vertices never stops early. -/
theorem wanted_of_all (h : Boundary g job limits k s) (hall : job.targets = .all) :
    (limits.stopEarly && s.aggregator.converged) = false := by
  rw [State.converged_all hall h.sound, Bool.and_false]

theorem empty_of_halts (h : Boundary g job limits k s) (hall : job.targets = .all)
    (hhalts : s.pending = 0 ∨ (limits.stopEarly && s.aggregator.converged) = true) :
    s.pending = 0 := by
  rw [h.wanted_of_all hall] at hhalts
  exact hhalts.resolve_right Bool.false_ne_true

end Boundary

theorem Ready.sound (h : Ready g job limits k s) : s.Sound g job limits.workers := by
  cases h with
  | first => exact sound_initial
  | later boundary => exact boundary.sound

end Lawful

end Run

end BulkPaths
