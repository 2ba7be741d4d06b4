import BulkPaths.Proofs.MissingTargets

/-!
# Several targets

Until the superstep that completes the merged set the run of a job about several targets is that of
a job about all vertices. In the superstep itself a target is muted only if the others were enrolled
before it, and that depends on who else its worker owns and in which order the mail came.
-/

namespace BulkPaths

open PathWeight

variable {W : Type} [PathWeight W]

namespace State

/-- The merged set is the set of the given targets. -/
def Complete (ids : IdSet) (s : State W) : Prop := ∀ v, v ∈ s.aggregator.merged ↔ v ∈ ids

variable {g g' : PropertyGraph} {job : Job W} {ids : IdSet} {count count' index : Nat}
  {s s' t t' : State W} {turns turns' : List (Turn W)}

theorem complete_iff (htargets : job.targets = .multiple ids) (h : s.Sound g job count) :
    s.Complete ids ↔ ∀ v ∈ ids, v ∈ s.aggregator.merged := by
  have hmerged := h.clean.merged
  rw [htargets] at hmerged
  exact ⟨fun hall v => (hall v).mpr, fun hall v => ⟨hmerged v, hall v⟩⟩

theorem converged_iff (htargets : job.targets = .multiple ids) (h : s.Sound g job count) :
    s.aggregator.converged ↔ s.Complete ids := by
  rw [complete_iff htargets h, converged_iff_subset h, htargets]
  simp [Targets.ids]

theorem missing_iff (htargets : job.targets = .multiple ids) (h : s.Sound g job count) :
    s.aggregator.converged = false ↔ ¬s.Complete ids := by
  rw [← converged_iff htargets h, Bool.not_eq_true]

/-- No target is missing any more, or no more than one of them is called. -/
def Orderless (ids : IdSet) (s : State W) (turns : List (Turn W)) : Prop :=
  s.Complete ids ∨ ∀ x ∈ ids, ∀ y ∈ ids, Turn.Called turns x → Turn.Called turns y → x = y

theorem Orderless.counterpart {ids : IdSet} (h : s.Orderless ids turns) (hsame : s.Same t)
    (hcalls : (turns.map Turn.call).Perm (turns'.map Turn.call)) : t.Orderless ids turns' := by
  unfold Orderless Complete at h ⊢
  simp only [Turn.called_iff, ← hcalls.mem_iff, ← hsame.merged] at h ⊢
  exact h

theorem Taken.mem_enrolled_iff (htargets : job.targets = .multiple ids)
    (h : s.Taken g job index turns) (horderless : s.Orderless ids turns) {turn : Turn W}
    (hturn : turn ∈ turns) (hcalled : turn.message.isSome) (hvertex : turn.vertex ∈ ids)
    (v : VertexId) :
    v ∈ job.enrolled turn.call turn.replica ↔ v ∈ s.aggregator.merged ∨ v = turn.vertex := by
  have hids : job.targets.ids = ids := by
    rw [htargets]
    rfl
  constructor
  · intro hv
    rcases ((h.replicas turn hturn).enrolled hturn).new v hv with hold | ⟨htarget, hv⟩
    · exact .inl hold
    · rw [hids] at htarget
      rcases horderless with hcomplete | halone
      · exact .inl ((hcomplete v).mpr htarget)
      · exact .inr (halone v htarget _ hvertex hv ⟨turn, hturn, rfl, hcalled⟩)
  · rintro (hold | rfl)
    · exact ((h.replicas turn hturn).enrolled hturn).old v hold
    · exact Job.mem_enrolled.mpr (.inr ⟨hids ▸ hvertex, rfl, hcalled⟩)

theorem Taken.enrolled_eq (htargets : job.targets = .multiple ids)
    (h : s.Taken g job index turns) (h' : t.Taken g' job index turns')
    (hs : s.Sound g job count) (ht : t.Sound g' job count') (hsame : s.Same t)
    (horderless : s.Orderless ids turns) (horderless' : t.Orderless ids turns')
    {turn turn' : Turn W} (hturn : turn ∈ turns) (hturn' : turn' ∈ turns')
    (hcall : turn.call = turn'.call) (hcalled : turn.message.isSome)
    (hvertex : turn.vertex ∈ ids) :
    job.enrolled turn.call turn.replica = job.enrolled turn'.call turn'.replica := by
  have hsameVertex : turn.vertex = turn'.vertex := congrArg Prod.fst hcall
  have hsameMessage : turn.message = turn'.message := congrArg Prod.snd hcall
  have hreplica := (h.replicas turn hturn).enrolled hturn
  have hreplica' := (h'.replicas turn' hturn').enrolled hturn'
  apply (hreplica.increasing hs.clean.increasing).ext (hreplica'.increasing ht.clean.increasing)
  intro v
  calc v ∈ job.enrolled turn.call turn.replica
      ↔ v ∈ s.aggregator.merged ∨ v = turn.vertex :=
        h.mem_enrolled_iff htargets horderless hturn hcalled hvertex v
    _ ↔ v ∈ t.aggregator.merged ∨ v = turn'.vertex := by rw [hsame.merged, hsameVertex]
    _ ↔ v ∈ job.enrolled turn'.call turn'.replica :=
        (h'.mem_enrolled_iff htargets horderless' hturn' (hsameMessage ▸ hcalled)
          (hsameVertex ▸ hvertex) v).symm

/-- Where only one target is called, the order does not show in any replica that matters. -/
theorem Superstep.mutes_eq (htargets : job.targets = .multiple ids)
    (h : s.Superstep g job index s' turns) (h' : t.Superstep g' job index t' turns')
    (habreast : Abreast job g count job g' count' s t) (hs' : s'.Sound g job count)
    (ht' : t'.Sound g' job count') (hsame : s.Same t)
    (hlast : s'.Complete ids → s.Orderless ids turns) :
    ∀ turn ∈ turns, ∀ turn' ∈ turns', turn.call = turn'.call →
      job.mutes turn.call turn.replica = job.mutes turn'.call turn'.replica := by
  intro turn hturn turn' hturn' hcall
  by_cases hnext : s'.Complete ids
  case neg =>
    have hnext' : ¬t'.Complete ids := by
      unfold Complete
      rw [← h.merged_eq_of_twin h' habreast hs' ht' hsame]
      exact hnext
    rw [h.mutes_of_missing hs' ((missing_iff htargets hs').mpr hnext) turn hturn,
      h'.mutes_of_missing ht' ((missing_iff htargets ht').mpr hnext') turn' hturn']
  by_cases hcalled : turn.message.isSome
  case neg =>
    rw [← hcall]
    simp [Job.mutes, Turn.call, hcalled]
  by_cases htarget : turn.vertex ∈ ids
  case neg =>
    rw [← hcall]
    simp [Job.mutes, Job.silences, Targets.contains, Targets.ids, htargets, Turn.call, htarget]
  have horderless := hlast hnext
  have horderless' := horderless.counterpart hsame (h.calls_perm h' habreast)
  have henrolled := Taken.enrolled_eq htargets h.toTaken h'.toTaken habreast.sound habreast.sound'
    hsame horderless horderless' hturn hturn' hcall hcalled htarget
  rw [Job.mutes, Job.mutes, henrolled, hcall]

theorem same_of_orderless [LawfulPathWeight W] (htargets : job.targets = .multiple ids)
    (habreast : Abreast job g count job g' count' s t) (hsame : s.Same t)
    (h : s.superstep g job index = .ok s') (h' : t.superstep g' job index = .ok t')
    (hlast : ∀ turns, s.Superstep g job index s' turns → s'.Complete ids →
      s.Orderless ids turns) : s'.Same t' := by
  obtain ⟨turns, hstep, hs'⟩ := superstep_ok habreast.staffed habreast.sound h
  obtain ⟨turns', hstep', ht'⟩ := superstep_ok habreast.staffed' habreast.sound' h'
  exact hstep.same_of_twin hstep' habreast hs' ht' hsame
    (hstep.mutes_eq htargets hstep' habreast hs' ht' hsame (hlast turns hstep))

end State

namespace Run

variable {g g' : PropertyGraph} {job job' : Job W} {ids : IdSet} {limits limits' : Limits} {k : Nat}
  {s t : State W}

variable [LawfulPathWeight W]

/-- The superstep that completes the merged set gives the same values as well, if the other run
gets through it. -/
theorem Boundary.exists_level (hall : ∀ k fault, ¬FailsIn g (job.aimed .all) limits k fault)
    (h : Boundary g (job.aimed (.multiple ids)) limits k s)
    (hbefore : ∀ j < k, ∀ t, Boundary g (job.aimed (.multiple ids)) limits j t →
      ¬t.Complete ids) :
    ∃ t, Boundary g (job.aimed .all) limits k t ∧ (∀ v, s.value v = t.value v) ∧
      (¬s.Complete ids → s.Level t) := by
  have halone : (job.aimed (.multiple ids)).targets ≠ .single job.source := Targets.noConfusion
  have htwin := twin_all g halone
  by_cases hcomplete : s.Complete ids
  case neg =>
    obtain ⟨t, ht, hlevel⟩ :=
      h.exists_level_of_missing halone ((State.missing_iff rfl h.sound).mpr hcomplete)
    exact ⟨t, ht, hlevel.value, fun _ => hlevel⟩
  case pos =>
    cases h with
    | first divided step =>
        obtain ⟨t, hother⟩ := exists_first divided hall
        obtain ⟨turns, hstep, _⟩ := State.superstep_ok limits.staffed sound_initial step
        obtain ⟨turns', hstep', _⟩ := State.superstep_ok limits.staffed sound_initial hother
        exact ⟨t, .first divided hother,
          hstep.value_eq_of_twin hstep' (abreast_initial htwin), absurd hcomplete⟩
    | @next k s _ before goes step =>
        have hmissing := (State.missing_iff rfl before.sound).mpr
          (hbefore k (Nat.lt_succ_self k) s before)
        obtain ⟨t, ht, hlevel⟩ := before.exists_level_of_missing halone hmissing
        have hgoes := before.continues_all ht hlevel.toAlike goes
        obtain ⟨t', hother⟩ := ht.exists_next hgoes hall
        obtain ⟨turns, hstep, _⟩ := State.superstep_ok limits.staffed before.sound step
        obtain ⟨turns', hstep', _⟩ := State.superstep_ok limits.staffed ht.sound hother
        exact ⟨t', ht.next hgoes hother,
          hstep.value_eq_of_twin hstep' (before.abreast ht htwin hlevel.toAlike),
          absurd hcomplete⟩

/-- While a target is missing a job about several targets is one about all vertices: the values are
the same up to the superstep that completes the merged set, the messages and the work in all
supersteps before it, and everything but the reached set in a run that never completes it. -/
theorem pruning_is_inert
    (hmultiple : ∀ k fault, ¬FailsIn g (job.aimed (.multiple ids)) limits k fault)
    (hall : ∀ k fault, ¬FailsIn g (job.aimed .all) limits k fault) :
    (∀ k s, Boundary g (job.aimed (.multiple ids)) limits k s →
      (∀ j < k, ∀ t, Boundary g (job.aimed (.multiple ids)) limits j t → ¬t.Complete ids) →
      ∃ t, Boundary g (job.aimed .all) limits k t ∧ (∀ v, s.value v = t.value v) ∧
        (¬s.Complete ids → (∀ v, s.waiting v = t.waiting v) ∧
          s.history.map Stats.work = t.history.map Stats.work)) ∧
    ((∀ k s, Boundary g (job.aimed (.multiple ids)) limits k s → ¬s.Complete ids) →
      (ofJob g (job.aimed (.multiple ids)) limits).outcome.map Result.work =
        (ofJob g (job.aimed .all) limits).outcome.map Result.work) := by
  refine ⟨fun k s h hbefore => ?_, fun hmissing => ?_⟩
  · obtain ⟨t, ht, hvalues, hlevel⟩ := h.exists_level hall hbefore
    exact ⟨t, ht, hvalues, fun hmissing => ⟨(hlevel hmissing).waiting, (hlevel hmissing).work⟩⟩
  · exact work_outcome_of_missing Targets.noConfusion hmultiple fun k s hs =>
      (State.missing_iff rfl hs.sound).mpr (hmissing k s hs)

theorem Boundary.exists_same_of_last (htwin : job.Twin g job g')
    (htargets : job.targets = .multiple ids) (hearly : limits.stopEarly = limits'.stopEarly)
    (hlast : ∀ k s s', Boundary g job limits k s → s.superstep g job (k + 1) = .ok s' →
      ¬s.Complete ids → s'.Complete ids → ∀ x ∈ ids, ∀ y ∈ ids, (s.waiting x).isSome →
        (s.waiting y).isSome → x = y)
    (hdivided' : g'.Divisible limits'.workers) {result' : Result W}
    (hresult' : (ofJob g' job limits').outcome = .ok result')
    (h : Boundary g job limits k s) : ∃ t, Boundary g' job limits' k t ∧ s.Same t := by
  have hworks : ∀ k fault, ¬FailsIn g' job limits' k fault := fun _ _ hfails => by
    cases hfails.outcome.symm.trans hresult'
  refine h.exists_counterpart hdivided' ?_ ?_
  · intro s step
    obtain ⟨t, hother⟩ := exists_first hdivided' hworks
    refine ⟨t, hother, State.same_of_orderless htargets (abreast_initial htwin) same_initial step
      hother fun turns hstep _ => ?_⟩
    -- nobody is called in the first superstep
    exact .inr fun x _ y _ hx => absurd hx (hstep.not_called_zero sound_initial limits.staffed)
  · intro k s s' t hs ht hsame goes step
    have hgoes : t.Continues limits' k := by
      rcases t.halts_or limits' k with hhalts | hbounded | hgoes
      · rw [State.Halts, ← hsame.pending hs.sound ht.sound, ← hsame.converged hs.sound ht.sound,
          ← hearly, goes.wanted] at hhalts
        exact absurd hhalts (not_or.mpr ⟨goes.pending, Bool.false_ne_true⟩)
      · cases (ht.outcome_of_bounded hbounded).symm.trans hresult'
      · exact hgoes
    obtain ⟨t', hother⟩ := ht.exists_next hgoes hworks
    refine ⟨hgoes, t', hother, State.same_of_orderless htargets
      (hs.abreast ht htwin hsame.toAlike) hsame step hother fun turns hstep hcomplete => ?_⟩
    by_cases hmissing : s.Complete ids
    · exact .inl hmissing
    · refine .inr fun x hx y hy hcalled hcalled' => ?_
      exact hlast k s s' hs step hmissing hcomplete x hx y hy
        ((hstep.called_iff_waiting hs.sound).mp hcalled)
        ((hstep.called_iff_waiting hs.sound).mp hcalled')

/-- The supersteps one after the other, whether or not the run goes on so far. -/
def trail (g : PropertyGraph) (job : Job W) (limits : Limits) : Nat → Except (Aborted W) (State W)
  | 0 => (initial g job limits).superstep g job 0
  | k + 1 => do
    let s ← trail g job limits k
    s.superstep g job (k + 1)

omit [LawfulPathWeight W] in
theorem Boundary.trail_eq (h : Boundary g job limits k s) : trail g job limits k = .ok s := by
  induction h with
  | first _ step => exact step
  | next _ _ step ih => rw [trail, ih, ← step]; rfl

def diamondSides : Job Float := diamondJob.aimed (.multiple [.long 1, .long 3])

theorem diamond_accepts {targets : Targets} {limits : Limits} (k : Nat) (fault : Fault) :
    ¬FailsIn diamond (diamondJob.aimed targets) limits k fault := by
  intro hfails
  obtain ⟨_, _, _, _, _, hweigh⟩ := hfails.rejects
  cases hweigh

theorem diamond_merged : ∀ k < 2, ∀ s, Boundary diamond diamondSides diamondLimits k s →
    .long 3 ∉ s.aggregator.merged := by
  have htrail : ∀ k < 2, ((trail diamond diamondSides diamondLimits k).toOption.elim true
      fun s => s.aggregator.merged.contains (.long 3)) = false := by decide +kernel
  intro k hk s hs
  have hmerged := htrail k hk
  rw [hs.trail_eq] at hmerged
  simpa [Except.toOption] using hmerged

theorem pruning_is_inert_diamond :
    ∃ s t, Boundary diamond diamondSides diamondLimits 2 s ∧
      Boundary diamond (diamondJob.aimed .all) diamondLimits 2 t ∧
      ∀ v, s.value v = t.value v := by
  obtain ⟨s, hs⟩ : ∃ s, Boundary diamond diamondSides diamondLimits 2 s :=
    exists_boundary_of_supersteps (by decide +kernel)
  obtain ⟨hvalues, _⟩ := pruning_is_inert
    (@diamond_accepts (.multiple [.long 1, .long 3]) diamondLimits) diamond_accepts
  obtain ⟨t, ht, hsame, _⟩ := hvalues 2 s hs fun j hj t ht hcomplete =>
    diamond_merged j hj t ht ((hcomplete _).mpr (by decide))
  exact ⟨s, t, hs, ht, hsame⟩

end Run

/-- About several targets, neither the order in which a graph was built nor the number of workers
makes a difference to runs that complete, if the superstep that completes the merged set calls no
more than one of the targets. -/
theorem runs_agree_of_last [NestingLimits] {g g' : PropertyGraph} {config : Config} {ids : IdSet}
    {engine engine' : EngineConfig} {result result' : Result Float} (hgraphs : g.Rearranged g')
    (htargets : config.targets = .multiple ids)
    (hearly : engine.stopWhenReached.isTrue = engine'.stopWhenReached.isTrue)
    (hlast : ∀ k s s', Run.Boundary g config.job engine.limits k s →
      s.superstep g config.job (k + 1) = .ok s' → ¬s.Complete ids → s'.Complete ids →
        ∀ x ∈ ids, ∀ y ∈ ids, (s.waiting x).isSome → (s.waiting y).isSome → x = y)
    (hresult : (runShortestPaths g config engine).outcome = .ok result)
    (hresult' : (runShortestPaths g' config engine').outcome = .ok result') :
    result.Same result' := by
  unfold runShortestPaths at hresult hresult'
  have htwin := hgraphs.twin config
  obtain ⟨k, s, hs, hhalts, rfl⟩ := Run.exists_boundary_of_result hresult
  obtain ⟨_, _, hboundary', _⟩ := Run.exists_boundary_of_result hresult'
  obtain ⟨t, ht, hsame⟩ :=
    hs.exists_same_of_last htwin htargets hearly hlast hboundary'.divided hresult'
  have hhalts' : t.Halts engine'.limits := by
    have hstop : engine.limits.stopEarly = engine'.limits.stopEarly := hearly
    rw [State.Halts, ← hsame.pending hs.sound ht.sound, ← hsame.converged hs.sound ht.sound,
      ← hstop]
    exact hhalts
  obtain rfl := Except.ok.inj ((ht.outcome_of_halts hhalts').symm.trans hresult')
  exact Run.result_same htwin hsame

def sidesConfig : Config := .counting (.long 0) (.multiple [.long 1, .long 3])

theorem diamond_apart (k : Nat) (s : State Float)
    (h : Run.Boundary diamond sidesConfig.job EngineConfig.standard.limits k s) :
    ((s.waiting (.long 1)).isSome && (s.waiting (.long 3)).isSome) = false := by
  have htrail : ∀ k ≤ 4, ((Run.trail diamond sidesConfig.job EngineConfig.standard.limits
      k).toOption.elim true fun s =>
        (s.waiting (.long 1)).isSome && (s.waiting (.long 3)).isSome) = false := by decide +kernel
  have hboth := htrail k h.le_vertexCount
  rwa [h.trail_eq] at hboth

theorem runs_agree_of_last_diamond :
    ∃ result result', (runShortestPaths diamond sidesConfig .standard).outcome = .ok result ∧
      (runShortestPaths diamondTurned sidesConfig twoWorkers).outcome = .ok result' ∧
      result.Same result' := by
  obtain ⟨result, hresult, _⟩ : ∃ result,
      (runShortestPaths diamond sidesConfig .standard).outcome = .ok result ∧
        result.supersteps = 3 := Run.exists_result (by decide +kernel)
  obtain ⟨result', hresult', _⟩ : ∃ result',
      (runShortestPaths diamondTurned sidesConfig twoWorkers).outcome = .ok result' ∧
        result'.supersteps = 3 := Run.exists_result (by decide +kernel)
  refine ⟨result, result', hresult, hresult', ?_⟩
  refine runs_agree_of_last diamond_rearranged rfl (by rfl) ?_ hresult hresult'
  intro k s s' hs _ _ _ x hx y hy hwaiting hwaiting'
  have hapart := diamond_apart k s hs
  rcases List.mem_pair.mp hx with rfl | rfl <;> rcases List.mem_pair.mp hy with rfl | rfl
  · rfl
  · simp [hwaiting, hwaiting'] at hapart
  · simp [hwaiting, hwaiting'] at hapart
  · rfl

/-- A direct edge of weight ten, and two edges of weight one by way of the other target. -/
def detour : PropertyGraph :=
  PropertyGraph.empty.connectAll
    [(.long 0, .long 4, [("w", .int 10)]), (.long 0, .long 1, [("w", .int 1)]),
      (.long 1, .long 4, [("w", .int 1)])]

def detourConfig : Config :=
  let config := Config.counting (.long 0) (.multiple [.long 1, .long 4])
  { config with weights := { config.weights with property := "w" } }

/-- A worker that visits `4` before `1` mutes `1`, and so `4` never hears of the detour; two workers
that own one of them each mute neither. -/
theorem detour_depends_on_workers :
    ∃ result result', (runShortestPaths detour detourConfig .standard).outcome = .ok result ∧
      (runShortestPaths detour detourConfig twoWorkers).outcome = .ok result' ∧
      detourConfig.targets.contains (.long 4) ∧
      (Assoc.get? (.long 4) result.values).map PathValue.weight = some 10 ∧
      (Assoc.get? (.long 4) result'.values).map PathValue.weight = some 2 := by
  obtain ⟨result, hresult, hweight⟩ : ∃ result,
      (runShortestPaths detour detourConfig .standard).outcome = .ok result ∧
        (Assoc.get? (.long 4) result.values).map PathValue.weight = some 10 :=
    Run.exists_result (by decide +kernel)
  obtain ⟨result', hresult', hweight'⟩ : ∃ result',
      (runShortestPaths detour detourConfig twoWorkers).outcome = .ok result' ∧
        (Assoc.get? (.long 4) result'.values).map PathValue.weight = some 2 :=
    Run.exists_result (by decide +kernel)
  exact ⟨result, result', hresult, hresult', by decide, hweight, hweight'⟩

end BulkPaths
