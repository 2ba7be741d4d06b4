import BulkPaths.Proofs.Routes

/-!
# Runs end

While messages are pending after superstep `k` some vertex has a simple path of `k` edges, whose
vertices are all reachable. So there are at least `k + 1` of these, and a run ends before it has
more supersteps than that allows.
-/

namespace BulkPaths

open PathWeight LawfulPathWeight

variable {W : Type} [PathWeight W]

theorem PropertyGraph.length_ids (g : PropertyGraph) : g.ids.length = g.vertexCount :=
  List.length_map _

def Result.reachableCount (result : Result W) : Nat :=
  result.values.countP fun entry => entry.2.reachable

namespace State

def reachables (g : PropertyGraph) (s : State W) : List VertexId :=
  g.ids.filter fun v => (s.value v).reachable

variable {g : PropertyGraph} {job : Job W} {k count : Nat} {s s' : State W} {v : VertexId}

theorem reachableCount_result :
    (Run.result g job s).reachableCount = (s.reachables g).length := by
  unfold Result.reachableCount Run.result reachables
  rw [List.countP_map, List.countP_eq_length_filter]
  rfl

namespace Tracked

theorem path_subset (h : s.Tracked g job k) (hv : (s.value v).reachable) :
    (s.value v).path ⊆ s.reachables g := by
  intro u hu
  obtain ⟨hreachable, _⟩ := h.support v hv u hu
  exact List.mem_filter.mpr ⟨(h.grounded hreachable).known, hreachable⟩

/-- The vertices of a path are reachable, and it has one more of them than edges. -/
theorem hops_lt (h : s.Tracked g job k) (hv : (s.value v).reachable) :
    (s.value v).hops < (s.reachables g).length := by
  have hgrounded := h.grounded hv
  have hle := List.Nodup.length_le_of_subset hgrounded.simple (h.path_subset hv)
  rw [hgrounded.length] at hle
  exact hle

/-- While messages are pending there is a vertex whose value is of the last superstep. -/
theorem lt_reachables_of_pending (h : s.Tracked g job k) (hpending : s.pending ≠ 0) :
    k < (s.reachables g).length := by
  obtain ⟨v, hv⟩ := not_forall.mp (pending_eq_zero.not.mp hpending)
  obtain ⟨m, hm⟩ := Option.ne_none_iff_exists'.mp hv
  obtain ⟨u, _, hreachable, hhops, _⟩ := h.mail v m hm
  rw [← hhops]
  exact h.hops_lt hreachable

theorem source_mem_ids (h : s.Tracked g job k) (hv : (s.value v).reachable) :
    job.source ∈ g.ids := by
  have hsource := List.mem_of_head? (h.grounded hv).walk.head?
  exact (List.mem_filter.mp (h.path_subset hv hsource)).1

end Tracked

theorem length_reachables_le (g : PropertyGraph) (s : State W) :
    (s.reachables g).length ≤ g.vertexCount := by
  rw [← g.length_ids]
  exact List.length_filter_le _ _

namespace Superstep

variable {turns : List (Turn W)}

theorem length_reachables_mono (h : s.Superstep g job (k + 1) s' turns)
    (hsound : s.Sound g job count) : (s.reachables g).length ≤ (s'.reachables g).length := by
  unfold reachables
  rw [← List.countP_eq_length_filter, ← List.countP_eq_length_filter]
  exact List.countP_mono_left fun v _ hv => h.reachable_mono hsound hv

end Superstep

end State

namespace Run

variable [LawfulPathWeight W] {g : PropertyGraph} {job : Job W} {limits : Limits} {k : Nat}
  {s : State W} {v : VertexId} {m : Message W}

namespace Boundary

/-- There are at least as many reachable vertices as there were supersteps after the first. -/
theorem le_reachables (h : Boundary g job limits k s) : k ≤ (s.reachables g).length := by
  cases h with
  | first => exact Nat.zero_le _
  | @next k s s' before goes step =>
      obtain ⟨turns, hstep, _⟩ := State.superstep_ok limits.staffed before.sound step
      have hbefore := before.tracked.lt_reachables_of_pending goes.pending
      exact Nat.le_trans hbefore (hstep.length_reachables_mono before.sound)

theorem le_vertexCount (h : Boundary g job limits k s) : k ≤ g.vertexCount :=
  Nat.le_trans h.le_reachables (s.length_reachables_le g)

/-- The fuel of a run is never used up. -/
theorem lt_fuel (h : Boundary g job limits k s) : k < fuelFor g :=
  Nat.lt_succ_of_le h.le_vertexCount

/-- A path has no more vertices than the graph, so the last possible messages improve nothing. -/
theorem not_better (h : Boundary g job limits k s) (hk : g.vertexCount ≤ k + 1)
    (hm : s.waiting v = some m) : less m.weight (s.value v).weight = false := by
  by_contra hnot
  have hbetter : less m.weight (s.value v).weight := by simpa using hnot
  obtain ⟨hgrounded, hhops, hsupport⟩ := h.tracked.adopted h.sound limits.staffed hm hbetter
  have hsubset : (m.adopted v).path ⊆ g.ids := by
    intro u hu
    rcases List.mem_append.mp hu with hold | hnew
    · exact (h.tracked.grounded (hsupport u hold).1).known
    · rw [List.mem_singleton.mp hnew]
      exact hgrounded.known
  have hle := List.Nodup.length_le_of_subset hgrounded.simple hsubset
  rw [hgrounded.length, hhops, g.length_ids] at hle
  omega

theorem adoptions_eq_zero (h : Boundary g job limits k s) :
    ∀ stats ∈ s.history, g.vertexCount ≤ stats.superstep → stats.adoptions = 0 := by
  induction h using induct with
  | first _ hstep =>
      intro stats hstats _
      rw [hstep.history] at hstats
      rw [List.mem_singleton.mp hstats]
      apply hstep.adoptions_eq_zero sound_initial limits.staffed
      intro v _
      rfl
  | next before hstep ih =>
      intro stats hstats hlate
      rw [hstep.history] at hstats
      rcases List.mem_append.mp hstats with hold | hnew
      · exact ih stats hold hlate
      · rw [List.mem_singleton.mp hnew] at hlate ⊢
        apply hstep.adoptions_eq_zero before.sound limits.staffed
        intro v hrenewed
        cases hrenewed with
        | adopted hadopts =>
            have hbetter := hadopts.better
            rw [before.not_better hlate hadopts.waiting] at hbetter
            cases hbetter

/-- Without the source nothing is ever pending. -/
theorem eq_zero_of_missing (h : Boundary g job limits k s) (hsource : job.source ∉ g.ids) :
    k = 0 := by
  cases h with
  | first => rfl
  | next before goes _ =>
      have hpos := before.tracked.lt_reachables_of_pending goes.pending
      obtain ⟨u, hu⟩ := List.exists_mem_of_length_pos (Nat.zero_lt_of_lt hpos)
      exact absurd (before.tracked.source_mem_ids (List.mem_filter.mp hu).2) hsource

theorem reachables_pos (h : Boundary g job limits k s) (hsource : job.source ∈ g.ids) :
    1 ≤ (s.reachables g).length := by
  refine List.length_pos_of_mem (List.mem_filter.mpr ⟨hsource, ?_⟩)
  rw [h.tracked.source hsource]
  rfl

end Boundary

/-- Once its vertices are divided, a run fails only on the weight of an edge or on its bound, which
is then below the number of vertices. -/
theorem error_of_divided {fault : Fault} (hdivided : g.Divisible limits.workers)
    (hfault : (ofJob g job limits).outcome = .error fault) :
    job.Rejects g fault ∨ ∃ pending, fault = .noConvergence limits.maxSupersteps pending ∧
      limits.maxSupersteps ≠ 0 ∧ limits.maxSupersteps < g.vertexCount := by
  have houtcome := outcome_ofJob g job limits
  rw [hfault] at houtcome
  cases houtcome with
  | undivided cause => exact absurd cause hdivided.not_indivisible
  | failedFirst _ step => exact .inl (State.superstep_error limits.staffed sound_initial step)
  | failed boundary _ step =>
      exact .inl (State.superstep_error limits.staffed boundary.sound step)
  | unsettled boundary _ => exact absurd boundary.lt_fuel (Nat.lt_irrefl _)
  | @bounded k s boundary left bound =>
      -- more than `k` vertices have been reached while messages are pending after superstep `k`
      have hpending := boundary.tracked.lt_reachables_of_pending left
      have hlt := hpending.trans_le (s.length_reachables_le g)
      exact .inr ⟨s.pending, rfl, bound.1, Nat.lt_of_le_of_lt (Nat.le_of_lt_succ bound.2) hlt⟩

/-- A run ends after at most one superstep more than there are reachable vertices, and adopts
nothing from superstep `n` on, where `n` is the number of vertices. Once the vertices are divided
among the workers it fails only on the weight of an edge or on a bound below `n`; if they cannot be
divided it fails at once. -/
theorem run_ends :
    (∀ k s, Boundary g job limits k s → k ≤ g.vertexCount ∧
      (g.vertexCount ≤ k + 1 → ∀ v m, s.waiting v = some m →
        less m.weight (s.value v).weight = false)) ∧
      (∀ result, (ofJob g job limits).outcome = .ok result →
        result.supersteps ≤ result.reachableCount + 1 ∧
          (job.source ∈ g.ids → 1 ≤ result.reachableCount) ∧
          (job.source ∉ g.ids → result.supersteps = 1) ∧
          ∀ stats ∈ result.history, g.vertexCount ≤ stats.superstep → stats.adoptions = 0) ∧
      (g.Divisible limits.workers → ∀ fault, (ofJob g job limits).outcome = .error fault →
        job.Rejects g fault ∨
          ∃ pending, fault = .noConvergence limits.maxSupersteps pending ∧
            limits.maxSupersteps ≠ 0 ∧ limits.maxSupersteps < g.vertexCount) ∧
      ∀ fault, g.Indivisible limits.workers fault →
        (ofJob g job limits).outcome = .error fault := by
  refine ⟨?_, ?_, fun hdivided fault hfault => error_of_divided hdivided hfault,
    fun fault hcause => outcome_of_undivided hcause⟩
  · intro k s h
    exact ⟨h.le_vertexCount, fun hk v m hm => h.not_better hk hm⟩
  · intro result hresult
    obtain ⟨k, s, boundary, _, rfl⟩ := exists_boundary_of_result hresult
    have hsupersteps : (Run.result g job s).supersteps = k + 1 := boundary.length_history
    rw [State.reachableCount_result, hsupersteps]
    refine ⟨Nat.succ_le_succ boundary.le_reachables, boundary.reachables_pos, ?_,
      boundary.adoptions_eq_zero⟩
    intro hsource
    rw [boundary.eq_zero_of_missing hsource]

theorem run_ends_diamond : ∃ result, (ofJob diamond diamondJob diamondLimits).outcome = .ok result ∧
    1 ≤ result.reachableCount ∧ result.supersteps ≤ result.reachableCount + 1 ∧
      ∀ stats ∈ result.history, 4 ≤ stats.superstep → stats.adoptions = 0 := by
  obtain ⟨result, hresult, _⟩ := diamond_run
  obtain ⟨_, hends, _⟩ := @run_ends Float _ _ diamond diamondJob diamondLimits
  obtain ⟨hle, hpos, _, hquiet⟩ := hends result hresult
  exact ⟨result, hresult, hpos (by decide +kernel), hle, hquiet⟩

theorem diamond_not_rejects {targets : Targets} {fault : Fault} :
    ¬(diamondJob.aimed targets).Rejects diamond fault := by
  rintro ⟨_, _, _, _, _, hweigh⟩
  cases hweigh

/-- No edge is rejected and there is no bound, and yet the run never begins. -/
theorem crowded_run_never_begins : crowded.limits.maxSupersteps = 0 ∧
    (∀ fault, ¬diamondJob.Rejects diamond fault) ∧
      (ofJob diamond diamondJob crowded.limits).outcome = .error .workersOutOfRange :=
  ⟨rfl, fun _ => diamond_not_rejects,
    outcome_of_undivided (PropertyGraph.indivisible_workerLimit diamond_printable)⟩

end Run

end BulkPaths
