import BulkPaths.Proofs.TargetsReached
import Mathlib.Order.Bounds.Defs

/-!
# Stopping early

A run that stops once all targets have been reached does so at the barrier of superstep `K`, the
largest distance of a target. Only in that superstep is anybody muted, and what is sent in it is not
delivered any more: the values are minima over walks of at most `K` edges, as if the run were about
all vertices. It is a run about all vertices if there is a target that no walk leads to.
-/

namespace BulkPaths

open PathWeight LawfulPathWeight

namespace PropertyGraph

/-- The least number of edges, at least one, of a walk to the vertex. -/
def Distance (g : PropertyGraph) (source v : VertexId) (d : Nat) : Prop :=
  IsLeast {k | 1 ≤ k ∧ g.Leads source k v} d

/-- The largest distance of one of the vertices. -/
def Farthest (g : PropertyGraph) (source : VertexId) (ids : IdSet) (d : Nat) : Prop :=
  IsGreatest {k | ∃ v ∈ ids, g.Distance source v k} d

end PropertyGraph

variable {W : Type} [PathWeight W] {g : PropertyGraph} {job : Job W} {k : Nat} {s s' : State W}

theorem State.Relaxed.of_alike {job' : Job W} {t : State W} (h : t.Relaxed g job' k)
    (halike : s.Alike t) : s.Relaxed g job' k where
  fresh := by
    intro u v w
    rw [halike.value u, halike.waiting v]
    exact h.fresh
  settled := by
    intro u v w
    rw [halike.value u, halike.value v]
    exact h.settled
  accepted := by
    intro u edges
    rw [halike.value u]
    exact h.accepted

namespace Run

variable [LawfulPathWeight W] {limits : Limits} {u v : VertexId} {x : W}

namespace Boundary

section Missing

variable (before : Boundary g job limits k s) (hmissing : s.aggregator.converged = false)
  (halone : job.targets ≠ .single job.source)

include before hmissing halone

/-- Vertices that are fewer edges away than supersteps were taken have had their edges accepted. -/
theorem accepted_of_leads (hfinite : NoOverflow g job limits k) {d : Nat}
    (hleads : g.Leads job.source d u) (hd : d ≤ k) {edges : List Edge}
    (hedges : g.edges? u = some edges) : ∀ edge ∈ edges, ∃ w, job.weigh edge = .ok w := by
  intro edge hedge
  obtain ⟨t, ht, _⟩ := before.exists_level_of_missing halone hmissing
  have hsource := (hleads.step hedges hedge).source_mem_ids
  have hu := ht.reachable_of_leads rfl (hfinite.of_missing halone before hmissing) hsource hleads hd
  exact ht.relaxed.accepted (Job.open_all rfl u) hu hedges edge hedge

theorem minimum_succ (h : Boundary g job limits (k + 1) s') (hv : v ∈ g.ids) :
    Minimum (job.Sum g (k + 1) v) (s'.value v).weight := by
  refine ⟨?_, h.sum_attained v⟩
  rintro y ⟨path, hwalk, hlength⟩
  obtain ⟨t, ht, hlevel⟩ := before.exists_level_of_missing halone hmissing
  cases hwalk with
  | here =>
      rw [h.tracked.source hv]
      exact .refl _
  | @step path u v x w walked last =>
      have hproper := h.sound.values v
      cases h with
      | next before' _ step =>
          obtain rfl := before.unique before'
          obtain ⟨turns, hstep, _⟩ := State.superstep_ok limits.staffed before.sound step
          rw [List.length_append, List.length_singleton] at hlength
          have hlower : AtMost (s.value u).weight x := by
            rw [hlevel.value]
            exact ht.atMost_sum rfl last.tail_mem_ids ⟨path, walked, by omega⟩
          apply before.tracked.atMost_add hproper (before.sound.values u) walked.proper
            last.positive hlower
          intro hreachable
          -- the superstep may mute vertices, but the edge is relaxed by what was sent before
          have hrelaxed : s.Relaxed g (job.aimed .all) k := ht.relaxed.of_alike hlevel.toAlike
          exact hrelaxed.value_next before.tracked before.sound hstep (Job.open_all rfl u)
            hreachable last

theorem farthest_succ (hfinite : NoOverflow g job limits k) (hids : job.targets.ids ≠ [])
    (h : Boundary g job limits (k + 1) s')
    (hall : ∀ v ∈ job.targets.ids, v ∈ s'.aggregator.merged) :
    g.Farthest job.source job.targets.ids (k + 1) := by
  constructor
  · -- a target that was missing has its first message in superstep `k + 1`
    obtain ⟨v, htarget, hnew⟩ : ∃ v ∈ job.targets.ids, v ∉ s.aggregator.merged := by
      by_contra! hnone
      have hexplicit : job.targets ≠ .all := by
        intro hall
        rw [hall] at hids
        exact hids rfl
      rw [(State.converged_iff_subset before.sound).mpr ⟨hexplicit, hnone⟩] at hmissing
      cases hmissing
    have hlate : ¬Notified g job limits k v := fun hnotified =>
      hnew (before.mem_merged.mpr ⟨htarget, hnotified⟩)
    refine ⟨v, htarget, ⟨Nat.le_add_left 1 k, ?_⟩, ?_⟩
    · have hnotified := (h.mem_merged.mp (hall v htarget)).2
      have hmail := (before.notified_succ.mp hnotified).resolve_left hlate
      obtain ⟨m, hm⟩ := Option.isSome_iff_exists.mp hmail
      exact before.tracked.leads hm
    · rintro d ⟨hpos, hleads⟩
      by_contra hless
      obtain ⟨d, rfl⟩ := Nat.exists_eq_add_of_le' hpos
      have hnotified :=
        before.notified_of_missing halone hmissing hfinite hleads (by omega)
      exact hlate (hnotified.mono (by omega))
  · rintro d ⟨v, htarget, hdistance⟩
    obtain ⟨j, hj, hleads⟩ := (h.mem_merged.mp (hall v htarget)).2.exists_leads
    exact (hdistance.2 ⟨Nat.le_add_left 1 j, hleads⟩).trans hj

end Missing

end Boundary

theorem Boundary.missing_of_not_leads (h : Boundary g job limits k s) (hv : v ∈ job.targets.ids)
    (hnone : ∀ d, ¬g.Leads job.source (d + 1) v) : s.aggregator.converged = false := by
  rw [← Bool.not_eq_true]
  intro hconverged
  have hmerged := ((State.converged_iff_subset h.sound).mp hconverged).2 v hv
  obtain ⟨j, _, hleads⟩ := (h.mem_merged.mp hmerged).2.exists_leads
  exact hnone j hleads

/-- The superstep before the one in which a run that stops early has reached a target. -/
theorem Boundary.exists_missing (h : Boundary g job limits k s') (hearly : limits.stopEarly = true)
    (hv : v ∈ s'.aggregator.merged) :
    ∃ j s, k = j + 1 ∧ Boundary g job limits j s ∧ s.aggregator.converged = false := by
  obtain ⟨_, i, hi, _⟩ := h.mem_merged.mp hv
  cases h with
  | first => exact absurd hi (Nat.not_lt_zero i)
  | @next j s _ before goes _ =>
      have hwanted := goes.wanted
      rw [hearly, Bool.true_and] at hwanted
      exact ⟨j, s, rfl, before, hwanted⟩

/-- A run that stops early, without a bound, takes `K + 1` supersteps, where `K` is the largest
distance of a target, and its weights are minima over walks of at most `K` edges, all of which are
accepted. If there is a target that no walk leads to, it has the values and supersteps of the run
about all vertices. -/
theorem early_stop (hdivided : g.Divisible limits.workers) (hids : job.targets.ids ≠ [])
    (halone : job.targets ≠ .single job.source) (hearly : limits.stopEarly = true)
    (hbound : limits.maxSupersteps = 0) (hworks : ∀ k fault, ¬FailsIn g job limits k fault)
    (hfinite : ∀ k, NoOverflow g job limits k) :
    ((∀ v ∈ job.targets.ids, ∃ d, g.Leads job.source (d + 1) v) →
      ∃ K result, g.Farthest job.source job.targets.ids K ∧
        (ofJob g job limits).outcome = .ok result ∧ result.supersteps = K + 1 ∧
        result.values.map Prod.fst = g.ids ∧
        (∀ entry ∈ result.values, Minimum (job.Sum g K entry.1) entry.2.weight) ∧
        ∀ d < K, ∀ u edges, g.Leads job.source d u → g.edges? u = some edges →
          ∀ edge ∈ edges, ∃ w, job.weigh edge = .ok w) ∧
    ((∃ v ∈ job.targets.ids, ∀ d, ¬g.Leads job.source (d + 1) v) →
      ∃ result all, (ofJob g job limits).outcome = .ok result ∧
        (ofJob g (job.aimed .all) limits).outcome = .ok all ∧
        result.values = all.values ∧ result.supersteps = all.supersteps) := by
  obtain ⟨K, s', h, hhalts⟩ := exists_halting job hdivided hbound hworks
  have houtcome := h.outcome_of_halts hhalts
  refine ⟨fun hled => ?_, fun ⟨v, htarget, hnone⟩ => ?_⟩
  · have hall : ∀ v ∈ job.targets.ids, v ∈ s'.aggregator.merged := fun v hv =>
      (h.mem_merged_of_halts hhalts (hfinite K)).mpr ⟨hv, halone, hled v hv⟩
    obtain ⟨v, hv⟩ := List.exists_mem_of_ne_nil _ hids
    obtain ⟨k, s, rfl, before, hmissing⟩ := h.exists_missing hearly (hall v hv)
    refine ⟨k + 1, result g job s',
      before.farthest_succ hmissing halone (hfinite k) hids h hall, houtcome, h.length_history,
      by simp [result, Function.comp_def], ?_, ?_⟩
    · intro entry hentry
      obtain ⟨v, hv, rfl⟩ := List.mem_map.mp hentry
      exact before.minimum_succ hmissing halone h hv
    · intro d hd u edges hleads hedges
      exact before.accepted_of_leads hmissing halone (hfinite k) hleads (by omega) hedges
  · have hwork := work_outcome_of_missing halone hworks fun _ _ hs =>
      hs.missing_of_not_leads htarget hnone
    rw [houtcome] at hwork
    cases hother : (ofJob g (job.aimed .all) limits).outcome with
    | error fault =>
        rw [hother] at hwork
        cases hwork
    | ok all =>
        rw [hother] at hwork
        obtain ⟨hvalues, hrest⟩ := Prod.mk.inj (Except.ok.inj hwork)
        exact ⟨_, all, houtcome, rfl, hvalues, (Prod.mk.inj hrest).1⟩

theorem diamond_leads : diamond.Leads (.long 0) 1 (.long 1) := by
  have hout : ∃ edges, diamond.edges? (.long 0) = some edges ∧
      ∃ edge ∈ edges, edge.target = .long 1 := by decide +kernel
  obtain ⟨edges, hedges, edge, hedge, htarget⟩ := hout
  rw [← htarget]
  exact .step .here hedges hedge

def earlyLimits : Limits :=
  { workers := 2, staffed := Nat.two_pos, maxSupersteps := 0, stopEarly := true }

theorem early_stop_diamond :
    let job := diamondJob.aimed (.single (.long 1))
    ∃ K result, diamond.Farthest (.long 0) [.long 1] K ∧
      (ofJob diamond job earlyLimits).outcome = .ok result ∧ result.supersteps = K + 1 ∧
      ∀ entry ∈ result.values, Minimum (job.Sum diamond K entry.1) entry.2.weight := by
  intro job
  obtain ⟨hreached, _⟩ := @early_stop Float _ diamond job _ earlyLimits
    ⟨by decide, diamond_printable⟩ (by decide) (by decide) rfl rfl diamond_accepts
    (noOverflow_of_trail (by decide +kernel))
  obtain ⟨K, result, hfarthest, houtcome, hsupersteps, _, hminimum, _⟩ := hreached fun v hv => by
    rw [List.mem_singleton.mp hv]
    exact ⟨0, diamond_leads⟩
  exact ⟨K, result, hfarthest, houtcome, hsupersteps, hminimum⟩

end Run

def neighbourConfig : Config := .counting (.long 0) (.single (.long 1))

/-- More workers than fit into 32 bits. -/
def overstaffed : EngineConfig :=
  { EngineConfig.standard with
    workers := workerLimit, staffed := by decide, stopWhenReached := .bool true }

/-- A run without a bound that is to stop early, about a target next to the source, fails before its
first superstep, although no edge is rejected. -/
theorem overstaffed_run_fails :
    overstaffed.limits.stopEarly = true ∧ overstaffed.limits.maxSupersteps = 0 ∧
      (∀ v ∈ neighbourConfig.targets.ids, ∃ d, diamond.Leads neighbourConfig.source (d + 1) v) ∧
      (∀ edge, ∃ w, neighbourConfig.job.weigh edge = .ok w) ∧
      (runShortestPaths diamond neighbourConfig overstaffed).outcome =
        .error .workersOutOfRange := by
  refine ⟨rfl, rfl, fun v hv => ?_, fun edge => ⟨_, rfl⟩, ?_⟩
  · rw [List.mem_singleton.mp hv]
    exact ⟨0, Run.diamond_leads⟩
  · exact Run.outcome_of_undivided (PropertyGraph.indivisible_workerLimit diamond_printable)

end BulkPaths
