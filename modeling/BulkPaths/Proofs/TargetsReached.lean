import BulkPaths.Proofs.Arrivals
import BulkPaths.Proofs.IdFaults
import BulkPaths.Proofs.SeveralTargets

/-!
# Which targets are reached

A worker enrolls the targets that it calls with a message, and nobody else. So at every barrier the
merged set is that of the targets that were delivered a message, and replicas hold targets only.
When the run is over these are the targets that a walk leads to: while a target is missing nobody is
muted, and a run that goes on until nothing is pending has then told every vertex on its way.
-/

namespace BulkPaths

open PathWeight Mailbox

namespace Targets

theorem ids_ofIds (ids : IdSet) : (ofIds ids).ids = ids := by
  unfold ofIds
  split <;> rfl

theorem increasing_of_parse {raw : String} {targets : Targets} (h : parse raw = .ok targets) :
    targets.ids.Increasing := by
  rcases parse_eq_ok.mp h with ⟨-, rfl⟩ | ⟨-, found, -, rfl⟩
  · exact .nil
  · rw [ids_ofIds]
    exact IdSet.increasing_ofList found

/-- A replica that holds targets only. -/
structure Holds (targets : Targets) (replica : IdSet) : Prop where
  within : replica ⊆ targets.ids
  increasing : replica.Increasing

variable {targets : Targets} {replica ids : IdSet}

theorem Holds.enroll (h : targets.Holds replica) (id : VertexId) :
    targets.Holds (targets.enroll id replica) := by
  refine ⟨fun x hx => ?_, ?_⟩
  · exact (mem_enroll.mp hx).elim (h.within ·) And.right
  · unfold Targets.enroll
    split
    · exact h.increasing.insert id
    · exact h.increasing

/-- Of targets only a replica of all of them has as many members. -/
theorem allReached_iff (h : (multiple ids).Holds replica) (hids : ids.Increasing) (v : VertexId) :
    (multiple ids).allReached replica v ↔ ids ⊆ replica := by
  have hsubset : IdSet.subset ids replica ↔ ids ⊆ replica := by
    simp [IdSet.subset, List.subset_def]
  rw [allReached, Bool.and_eq_true, hsubset]
  refine ⟨And.right, fun hall => ⟨?_, hall⟩⟩
  have heq : replica = ids := h.increasing.ext hids fun x => ⟨(h.within ·), (hall ·)⟩
  rw [heq, beq_self_eq_true]

end Targets

variable {W : Type} [PathWeight W] {g : PropertyGraph} {job : Job W}

theorem Pass.foldlM_take_holds {worker : Nat} {pass pass' : Pass W} {calls : List (Call W)}
    (h : job.targets.Holds pass.replica)
    (hfold : calls.foldlM (take g job worker) pass = .ok pass') :
    job.targets.Holds pass'.replica := by
  induction calls generalizing pass with
  | nil =>
      cases hfold
      exact h
  | cons call calls ih =>
      rw [List.foldlM_cons] at hfold
      obtain ⟨next, hnext, hfold⟩ := bind_eq_ok.mp hfold
      rcases take_cases g job worker pass call with ⟨result, _, htake⟩ | ⟨_, htake, _⟩
      · obtain rfl := Except.ok.inj (hnext.symm.trans htake)
        refine ih ?_ hfold
        simp only [Pass.after, Turn.call, Job.enrolled]
        split
        · exact h
        · exact h.enroll call.1
      · cases hnext.symm.trans htake

theorem Job.messages_of_source_alone {v : VertexId} {value : PathValue W} {replica : IdSet}
    {result : StepResult W} (halone : job.targets = .single job.source)
    (h : job.act g (v, none) value replica = .ok result) : result.messages = [] := by
  unfold act at h
  cases hedges : g.edges? v with
  | none => simp [hedges] at h
  | some edges =>
      simp only [hedges] at h
      exact messages_of_init halone h

namespace State

variable {count index : Nat} {s s' : State W}

/-- A worker in the middle of a superstep: it has started from the merged set and taken the first of
its calls. -/
def Underway (g : PropertyGraph) (job : Job W) (index : Nat) (s : State W) (worker : Worker W)
    (pass : Pass W) : Prop :=
  ∃ start calls, start.replica = s.aggregator.merged ∧ calls <+: worker.due index ∧
    calls.foldlM (Pass.take g job worker.index) start = .ok pass

theorem Underway.holds {worker : Worker W} {pass : Pass W}
    (h : s.Underway g job index worker pass) (hs : s.Sound g job count) :
    job.targets.Holds pass.replica := by
  obtain ⟨start, calls, hstart, _, hfold⟩ := h
  refine Pass.foldlM_take_holds ?_ hfold
  rw [hstart]
  exact ⟨hs.clean.merged, hs.clean.increasing⟩

/-- The merge of a round never finds a stray. -/
theorem exists_barrier (hs : s.Sound g job count) {round : Round W}
    (hround : s.round g job index = .ok round) : ∃ s', s.barrier index round = .ok s' := by
  obtain ⟨_, hbarrier⟩ := exists_settled hs hround
  exact ⟨_, hbarrier⟩

variable [LawfulPathWeight W]

theorem replica_within (hcount : 0 < count) (hs : s.Sound g job count)
    (h : s.superstep g job index = .ok s') {worker : Worker W} (hworker : worker ∈ s'.workers) :
    worker.replica ⊆ job.targets.ids := by
  obtain ⟨shifts, hworks⟩ := exists_works hs h
  obtain ⟨_, hfound, hreplicas, _⟩ := hworks.superstep hcount hs
  obtain rfl := Except.ok.inj (h.symm.trans hfound)
  have hmem := List.mem_map_of_mem (f := Worker.replica) hworker
  rw [hreplicas] at hmem
  obtain ⟨shift, _, hreplica⟩ := List.mem_map.mp hmem
  rw [← hreplica]
  intro v hv
  exact (Job.mem_replicaAfter.mp hv).elim (hs.clean.merged v) And.left

omit [LawfulPathWeight W] in
theorem Superstep.waiting_of_source_alone {turns : List (Turn W)}
    (h : s.Superstep g job 0 s' turns) (hs : s.Sound g job count) (hcount : 0 < count)
    (halone : job.targets = .single job.source) (v : VertexId) : s'.waiting v = none := by
  cases hm : s'.waiting v with
  | none => rfl
  | some m =>
      have hcollects := h.waiting v
      rw [hm] at hcollects
      obtain ⟨turn, hturn, hmem⟩ := List.mem_flatMap.mp (mem_addressed.mp hcollects.mem_of_some)
      obtain ⟨_, hrouted⟩ := hs.routed
      have hnone : turn.message = none := ((hrouted.mem_due_zero hcount).mp (h.mem_due hturn)).2
      have hacted := h.acted turn hturn
      rw [show turn.call = (turn.vertex, none) from Prod.ext rfl hnone] at hacted
      rw [Job.messages_of_source_alone halone hacted] at hmem
      cases hmem

end State

namespace Run

variable [LawfulPathWeight W] {limits : Limits} {k : Nat} {s : State W} {v : VertexId}

/-- What has been gathered by the end of superstep `k`. -/
structure Gathered (g : PropertyGraph) (job : Job W) (limits : Limits) (k : Nat) (s : State W) :
    Prop where
  exact : ∀ v, v ∈ s.aggregator.merged ↔ v ∈ job.targets.ids ∧ Notified g job limits k v
  grows : ∀ j ≤ k, ∀ t, Boundary g job limits j t → t.aggregator.merged ⊆ s.aggregator.merged
  within : s.aggregator.merged ⊆ job.targets.ids
  empty : job.targets = .all → s.aggregator.merged = []
  replicas : ∀ worker ∈ s.workers, worker.replica ⊆ job.targets.ids

theorem Notified.exists_leads (h : Notified g job limits k v) :
    ∃ j < k, g.Leads job.source (j + 1) v := by
  obtain ⟨j, hj, t, ht, hmail⟩ := h
  obtain ⟨m, hm⟩ := Option.isSome_iff_exists.mp hmail
  exact ⟨j, hj, ht.tracked.leads hm⟩

namespace Boundary

omit [LawfulPathWeight W] in
theorem notified_succ (h : Boundary g job limits k s) :
    Notified g job limits (k + 1) v ↔ Notified g job limits k v ∨ (s.waiting v).isSome := by
  constructor
  · rintro ⟨j, hj, t, ht, hmail⟩
    rcases Nat.lt_succ_iff_lt_or_eq.mp hj with hlt | rfl
    · exact .inl ⟨j, hlt, t, ht, hmail⟩
    · obtain rfl := ht.unique h
      exact .inr hmail
  · rintro (hold | hmail)
    · exact hold.mono (Nat.le_succ k)
    · exact ⟨k, Nat.lt_succ_self k, s, h, hmail⟩

theorem mem_merged (h : Boundary g job limits k s) :
    v ∈ s.aggregator.merged ↔ v ∈ job.targets.ids ∧ Notified g job limits k v := by
  induction h using induct with
  | first _ hstep =>
      rw [hstep.reached]
      constructor
      · rintro (hold | ⟨_, hcalled⟩)
        · cases hold
        · exact absurd hcalled (hstep.not_called_zero sound_initial limits.staffed)
      · rintro ⟨_, j, hj, _⟩
        exact absurd hj (Nat.not_lt_zero j)
  | next before hstep ih =>
      rw [hstep.reached, ih, hstep.called_iff_waiting before.sound, ← and_or_left,
        before.notified_succ]

theorem gathered (h : Boundary g job limits k s) : Gathered g job limits k s where
  exact := fun _ => h.mem_merged
  grows := by
    intro j hj t ht v hv
    obtain ⟨htarget, hnotified⟩ := ht.mem_merged.mp hv
    exact h.mem_merged.mpr ⟨htarget, hnotified.mono hj⟩
  within := h.sound.clean.merged
  empty := h.merged_of_all
  replicas := by
    intro worker hworker
    cases h with
    | first _ step => exact State.replica_within limits.staffed sound_initial step hworker
    | next before _ step => exact State.replica_within limits.staffed before.sound step hworker

/-- A source that is asked about itself sends nothing. -/
theorem eq_zero_of_source_alone (h : Boundary g job limits k s)
    (halone : job.targets = .single job.source) : k = 0 := by
  induction h with
  | first => rfl
  | next before goes _ ih =>
      subst ih
      cases before with
      | first _ step =>
          obtain ⟨turns, hstep, _⟩ := State.superstep_ok limits.staffed sound_initial step
          have hempty := State.pending_eq_zero.mpr
            (hstep.waiting_of_source_alone sound_initial limits.staffed halone)
          exact absurd hempty goes.pending

theorem mem_merged_of_halts (h : Boundary g job limits k s) (hhalts : s.Halts limits)
    (hfinite : NoOverflow g job limits k) :
    v ∈ s.aggregator.merged ↔ v ∈ job.targets.ids ∧ job.targets ≠ .single job.source ∧
      ∃ d, g.Leads job.source (d + 1) v := by
  constructor
  · intro hv
    obtain ⟨htarget, hnotified⟩ := h.mem_merged.mp hv
    obtain ⟨j, hj, hleads⟩ := hnotified.exists_leads
    refine ⟨htarget, fun halone => ?_, j, hleads⟩
    obtain rfl := h.eq_zero_of_source_alone halone
    exact absurd hj (Nat.not_lt_zero j)
  · rintro ⟨htarget, halone, d, hleads⟩
    -- a run that halts with a target missing has nothing pending
    by_cases hconverged : s.aggregator.converged
    · exact ((State.converged_iff_subset h.sound).mp hconverged).2 v htarget
    · rw [Bool.not_eq_true] at hconverged
      have hempty : s.pending = 0 := hhalts.resolve_right (by simp [hconverged])
      exact h.mem_merged.mpr ⟨htarget,
        h.notified_of_missing_of_empty halone hconverged hfinite hempty hleads⟩

end Boundary

/-- At every barrier the merged set is that of the targets that were delivered a message. The merge
never fails, and workers ask replicas of targets whether they hold them all. A result has reached
the targets at the end of a walk with an edge, as long as no sum overflows; a source that is asked
about itself has not. -/
theorem reached_sets_are_exact {raw : String} (htargets : Targets.parse raw = .ok job.targets) :
    (∀ k s, Boundary g job limits k s → Gathered g job limits k s) ∧
    (∀ k s, Ready g job limits k s →
      (∀ round, s.round g job k = .ok round → ∃ s', s.barrier k round = .ok s') ∧
      ∀ worker ∈ s.workers, ∀ pass, s.Underway g job k worker pass →
        pass.replica ⊆ job.targets.ids ∧ ∀ ids, job.targets = .multiple ids → ∀ v,
          (job.targets.allReached (job.targets.enroll v pass.replica) v ↔
            ids ⊆ job.targets.enroll v pass.replica)) ∧
    ∀ result, (ofJob g job limits).outcome = .ok result → (∀ k, NoOverflow g job limits k) →
      ∀ v, v ∈ result.reached ↔ v ∈ job.targets.ids ∧ job.targets ≠ .single job.source ∧
        ∃ k, g.Leads job.source (k + 1) v := by
  refine ⟨fun k s h => h.gathered, fun k s h => ?_, fun result hresult hfinite v => ?_⟩
  · refine ⟨fun round => State.exists_barrier h.sound, fun worker _ pass hpass => ?_⟩
    have hholds := hpass.holds h.sound
    refine ⟨hholds.within, fun ids hmultiple v => ?_⟩
    have hids := Targets.increasing_of_parse htargets
    rw [hmultiple] at hholds hids ⊢
    exact Targets.allReached_iff (hholds.enroll v) hids v
  · obtain ⟨k, s, h, hhalts, rfl⟩ := exists_boundary_of_result hresult
    exact h.mem_merged_of_halts hhalts (hfinite k)

theorem noOverflow_of_trail (h : ∀ k ≤ g.vertexCount, ((trail g job limits k).toOption.elim true
    fun s => (s.workers.flatMap Worker.inbox).all fun delivery => isFinite delivery.2.weight) =
      true) (k : Nat) : NoOverflow g job limits k := by
  intro j _ s hs v m hm
  have hall := h j hs.le_vertexCount
  rw [hs.trail_eq] at hall
  exact List.all_eq_true.mp hall (v, m) (Assoc.mem_of_get? hm)

theorem reached_sets_are_exact_diamond :
    ∃ result, (ofJob diamond diamondSides diamondLimits).outcome = .ok result ∧
      (∃ s, Boundary diamond diamondSides diamondLimits 2 s ∧
        Gathered diamond diamondSides diamondLimits 2 s) ∧
      ∀ v, v ∈ result.reached ↔ v ∈ diamondSides.targets.ids ∧
        diamondSides.targets ≠ .single diamondSides.source ∧
        ∃ k, diamond.Leads (.long 0) (k + 1) v := by
  obtain ⟨hgathered, _, hreached⟩ := @reached_sets_are_exact Float _ diamond diamondSides _
    diamondLimits "1,3" (by rfl)
  obtain ⟨s, hs⟩ : ∃ s, Boundary diamond diamondSides diamondLimits 2 s :=
    exists_boundary_of_supersteps (by decide +kernel)
  obtain ⟨result, hresult, _⟩ : ∃ result,
      (ofJob diamond diamondSides diamondLimits).outcome = .ok result ∧ result.supersteps = 3 :=
    exists_result (by decide +kernel)
  exact ⟨result, hresult, ⟨s, hs, hgathered 2 s hs⟩,
    hreached result hresult (noOverflow_of_trail (by decide +kernel))⟩

end Run

end BulkPaths
