import BulkPaths.Proofs.Counterparts
import BulkPaths.Proofs.DoubleWeights
import BulkPaths.Proofs.Outcomes

/-!
# Rearranged graphs

The same graph, built in another order and divided among another number of workers. Of all that a
superstep does only the muting of a vertex can depend on the order, through the replica of its
worker. Where it does not, the runs take the same values through the same supersteps.
-/

namespace BulkPaths

open PathWeight

/-- Edges to the same vertex with the same properties. -/
structure Edge.Same (edge edge' : Edge) : Prop where
  target : edge.target = edge'.target
  property? : ∀ name, edge.property? name = edge'.property? name

namespace PropertyGraph

/-- The same vertices, each with the same edges, in whatever order. -/
structure Rearranged (g g' : PropertyGraph) : Prop where
  ids : ∀ v, v ∈ g.ids ↔ v ∈ g'.ids
  edges : ∀ {v edges edges'}, g.edges? v = some edges → g'.edges? v = some edges' →
    Multiset.Rel Edge.Same edges edges'

def out (g : PropertyGraph) (v : VertexId) : List Edge := (g.edges? v).getD []

def connectAll (g : PropertyGraph) (edges : List (VertexId × VertexId × Properties)) :
    PropertyGraph :=
  edges.foldl (fun g (tail, head, properties) => g.connect tail head properties) g

variable (g : PropertyGraph) (v tail head : VertexId) (properties : Properties)

theorem out_withEdges (edges : List Edge)
    (targets : ∀ edge ∈ edges, edge.target = tail ∨ edge.target ∈ g.ids) :
    (g.withEdges tail edges targets).out v = if v = tail then edges else g.out v := by
  unfold out edges? withEdges
  rw [Assoc.get?_put]
  split <;> rfl

theorem out_addVertex : (g.addVertex tail).out v = g.out v := by
  unfold addVertex
  split
  case h_1 => rfl
  case h_2 hnone =>
    rw [out_withEdges]
    split
    case isTrue heq =>
      subst heq
      simp [out, hnone]
    case isFalse => rfl

theorem out_connect : (g.connect tail head properties).out v =
    g.out v ++ if v = tail then [{ target := head, properties }] else [] := by
  have hold : ((g.addVertex tail).addVertex head).out v = g.out v := by
    rw [out_addVertex, out_addVertex]
  unfold connect
  rw [out_withEdges]
  split
  case isTrue heq =>
    subst heq
    rw [← hold]
    rfl
  case isFalse => rw [hold, List.append_nil]

theorem mem_ids_connect : v ∈ (g.connect tail head properties).ids ↔
    v ∈ g.ids ∨ v = tail ∨ v = head := by
  unfold connect
  rw [mem_ids_withEdges, mem_ids_addVertex, mem_ids_addVertex]
  tauto

theorem out_connectAll (edges : List (VertexId × VertexId × Properties)) :
    (g.connectAll edges).out v = g.out v ++ edges.filterMap fun edge =>
      if v = edge.1 then some { target := edge.2.1, properties := edge.2.2 } else none := by
  unfold connectAll
  induction edges generalizing g with
  | nil => exact (List.append_nil _).symm
  | cons edge edges ih =>
      rw [List.foldl_cons, ih, out_connect, List.append_assoc, List.filterMap_cons]
      split <;> simp_all

theorem mem_ids_connectAll (edges : List (VertexId × VertexId × Properties)) :
    v ∈ (g.connectAll edges).ids ↔ v ∈ g.ids ∨ ∃ edge ∈ edges, v = edge.1 ∨ v = edge.2.1 := by
  unfold connectAll
  induction edges generalizing g with
  | nil => simp
  | cons edge edges ih =>
      rw [List.foldl_cons, ih, mem_ids_connect, List.exists_mem_cons_iff, or_assoc]

/-- The order in which edges are added does not matter. -/
theorem rearranged_of_perm {edges edges' : List (VertexId × VertexId × Properties)}
    (h : edges.Perm edges') : (g.connectAll edges).Rearranged (g.connectAll edges') where
  ids v := by simp only [mem_ids_connectAll, h.mem_iff]
  edges := by
    intro v out out' hout hout'
    have hperm := (h.filterMap fun edge => if v = edge.1 then
      some ({ target := edge.2.1, properties := edge.2.2 } : Edge) else none).append_left (g.out v)
    rw [← out_connectAll, ← out_connectAll, PropertyGraph.out, PropertyGraph.out, hout, hout',
      Option.getD_some, Option.getD_some] at hperm
    rw [Multiset.coe_eq_coe.mpr hperm]
    exact Multiset.rel_refl_of_refl_on fun edge _ => ⟨rfl, fun _ => rfl⟩

end PropertyGraph

theorem EdgeWeight.weighFloat_same [NestingLimits] {edge edge' : Edge} (h : edge.Same edge')
    (weights : EdgeWeight) : weights.weighFloat edge = weights.weighFloat edge' := by
  unfold weighFloat weigh
  rw [h.property?, h.target]

theorem PropertyGraph.Rearranged.twin [NestingLimits] {g g' : PropertyGraph} (h : g.Rearranged g')
    (config : Config) : config.job.Twin g config.job g' where
  source := rfl
  alone := .rfl
  ids := h.ids
  offers := by
    intro v edges edges' hedges hedges'
    have hrel : Multiset.Rel (· = ·) (Multiset.map config.job.offer edges)
        (Multiset.map config.job.offer edges') := by
      refine Multiset.rel_map.mpr ((h.edges hedges hedges').mono ?_)
      intro edge _ edge' _ hsame
      have hweigh : config.job.weigh edge = config.job.weigh edge' :=
        config.weights.weighFloat_same hsame
      unfold Job.offer
      rw [hsame.target, hweigh]
    rw [Multiset.rel_eq, Multiset.map_coe, Multiset.map_coe] at hrel
    exact Multiset.coe_eq_coe.mp hrel

variable {W : Type} [PathWeight W]

/-- No replica decides whether a vertex is muted. -/
def Job.Blind (job : Job W) : Prop :=
  ∀ call replica replica', job.mutes call replica = job.mutes call replica'

theorem Job.blind_of_quantity {job : Job W} (h : job.targets.quantity ≠ .multiple) :
    job.Blind := by
  intro call replica replica'
  unfold mutes silences
  cases htargets : job.targets with
  | all => rfl
  | single target => rfl
  | multiple ids =>
      rw [htargets] at h
      exact absurd rfl h

namespace State

/-- Nothing that counts tells the states apart. -/
structure Same (s t : State W) : Prop extends s.Alike t where
  merged : s.aggregator.merged = t.aggregator.merged
  counters : s.counters = t.counters
  history : s.history = t.history

variable {g g' : PropertyGraph} {job : Job W} {count count' index : Nat} {s s' t t' : State W}
  {turns turns' : List (Turn W)}

namespace Same

theorem symm (h : s.Same t) : t.Same s where
  value v := (h.value v).symm
  waiting v := (h.waiting v).symm
  merged := h.merged.symm
  counters := h.counters.symm
  history := h.history.symm

theorem pending (h : s.Same t) (hs : s.Sound g job count) (ht : t.Sound g' job count') :
    s.pending = t.pending :=
  pending_eq_of_waiting hs ht h.waiting

theorem converged (h : s.Same t) (hs : s.Sound g job count) (ht : t.Sound g' job count') :
    s.aggregator.converged = t.aggregator.converged := by
  unfold Aggregator.converged
  rw [hs.clean.same, ht.clean.same, h.merged]

end Same

namespace Superstep

section Twin

variable (h : s.Superstep g job index s' turns) (h' : t.Superstep g' job index t' turns')
  (habreast : Abreast job g count job g' count' s t) (hs' : s'.Sound g job count)
  (ht' : t'.Sound g' job count') (hsame : s.Same t)

include h h' habreast hs' ht' hsame

theorem merged_eq_of_twin : s'.aggregator.merged = t'.aggregator.merged := by
  have hcalls := h.calls_perm h' habreast
  apply hs'.clean.increasing.ext ht'.clean.increasing
  intro v
  simp only [h.reached, h'.reached, hsame.merged, Turn.called_iff, hcalls.mem_iff]

theorem same_of_twin [LawfulPathWeight W]
    (hmutes : ∀ turn ∈ turns, ∀ turn' ∈ turns', turn.call = turn'.call →
      job.mutes turn.call turn.replica = job.mutes turn'.call turn'.replica) : s'.Same t' := by
  have halike := h.alike_of_twin h' habreast hmutes
  have hpending := pending_eq_of_waiting hs' ht' halike.waiting
  have hmerged := h.merged_eq_of_twin h' habreast hs' ht' hsame
  have hstats : stats index turns s' = stats index turns' t' := by
    have hwork := h.work_eq_of_twin h' habreast hmutes hpending
    simp only [stats, Stats.work, Stats.mk.injEq] at hwork ⊢
    simp only [hwork, hmerged, and_self]
  refine { halike with merged := hmerged, counters := ?_, history := ?_ }
  · rw [h.counters, h'.counters, hsame.counters, hstats]
  · rw [h.history, h'.history, hsame.history, hstats]

end Twin

end Superstep

variable [LawfulPathWeight W]

theorem exists_superstep_of_twin (hblind : job.Blind)
    (habreast : Abreast job g count job g' count' s t) (hsame : s.Same t)
    (h : s.superstep g job index = .ok s') :
    ∃ t', t.superstep g' job index = .ok t' ∧ s'.Same t' := by
  obtain ⟨turns, hstep, hs'⟩ := superstep_ok habreast.staffed habreast.sound h
  cases hother : t.superstep g' job index with
  | ok t' =>
      obtain ⟨turns', hstep', ht'⟩ := superstep_ok habreast.staffed' habreast.sound' hother
      refine ⟨t', rfl, hstep.same_of_twin hstep' habreast hs' ht' hsame ?_⟩
      intro turn _ turn' _ hcall
      rw [hcall]
      exact hblind _ _ _
  | error aborted =>
      -- the call that failed was made on the other side, where it succeeded
      obtain ⟨call, hcall, replica, hact⟩ := exists_call_of_error habreast.sound' hother
      obtain ⟨turn, hturn, rfl⟩ := hstep.exists_turn ((habreast.due_perm index).mem_iff.mpr hcall)
      obtain ⟨result, hact', _⟩ := Job.act_ok_of_twin habreast.twin
        (hblind turn.call turn.replica replica) (hstep.acted turn hturn)
      rw [hsame.value] at hact'
      cases hact.symm.trans hact'

end State

/-- The same answer for every vertex after the same work, if in another order. -/
structure Result.Same (result result' : Result W) : Prop where
  values : result.values.Perm result'.values
  supersteps : result.supersteps = result'.supersteps
  reached : result.reached = result'.reached
  counters : result.counters = result'.counters
  history : result.history = result'.history

namespace Run

variable {g g' : PropertyGraph} {job job' : Job W} {limits limits' : Limits} {k : Nat}
  {s t : State W} {fault : Fault}

theorem same_initial : (initial g job limits).Same (initial g' job' limits') where
  value v := by rw [value_initial, value_initial]
  waiting v := by rw [initial, initial, State.waiting_start, State.waiting_start]
  merged := rfl
  counters := rfl
  history := rfl

theorem abreast_initial [LawfulPathWeight W] (htwin : job.Twin g job' g') :
    State.Abreast job g limits.workers job' g' limits'.workers (initial g job limits)
      (initial g' job' limits') :=
  { same_initial.toAlike with
    twin := htwin
    sound := sound_initial
    sound' := sound_initial
    staffed := limits.staffed
    staffed' := limits'.staffed }

theorem Boundary.abreast [LawfulPathWeight W] (hs : Boundary g job limits k s)
    (ht : Boundary g' job' limits' k t) (htwin : job.Twin g job' g') (halike : s.Alike t) :
    State.Abreast job g limits.workers job' g' limits'.workers s t :=
  { halike with
    twin := htwin
    sound := hs.sound
    sound' := ht.sound
    staffed := limits.staffed
    staffed' := limits'.staffed }

theorem result_same (htwin : job.Twin g job g') (h : s.Same t) :
    (result g job s).Same (result g' job t) where
  values := by
    have hids : g.ids.Perm g'.ids :=
      (List.perm_ext_iff_of_nodup g.distinct g'.distinct).mpr htwin.ids
    have hvalues : (fun v => (v, s.value v)) = fun v => (v, t.value v) := by
      funext v
      rw [h.value]
    have hperm := hids.map fun v => (v, s.value v)
    nth_rewrite 2 [hvalues] at hperm
    exact hperm
  supersteps := congrArg List.length h.history
  reached := h.merged
  counters := h.counters
  history := h.history

/-- The settings of two runs of a job on twin graphs, which may differ in the number of workers. -/
structure Paired (job : Job W) (g : PropertyGraph) (limits : Limits) (g' : PropertyGraph)
    (limits' : Limits) : Prop where
  twin : job.Twin g job g'
  divided : g.Divisible limits.workers
  divided' : g'.Divisible limits'.workers
  stopEarly : limits.stopEarly = limits'.stopEarly
  maxSupersteps : limits.maxSupersteps = limits'.maxSupersteps

namespace Paired

theorem symm (h : Paired job g limits g' limits') : Paired job g' limits' g limits :=
  ⟨h.twin.symm, h.divided', h.divided, h.stopEarly.symm, h.maxSupersteps.symm⟩

variable [LawfulPathWeight W]

theorem halts_iff (h : Paired job g limits g' limits') (hs : Boundary g job limits k s)
    (ht : Boundary g' job limits' k t) (hsame : s.Same t) :
    s.Halts limits ↔ t.Halts limits' := by
  unfold State.Halts
  rw [hsame.pending hs.sound ht.sound, hsame.converged hs.sound ht.sound, h.stopEarly]

theorem bounded_iff (h : Paired job g limits g' limits') (hs : Boundary g job limits k s)
    (ht : Boundary g' job limits' k t) (hsame : s.Same t) :
    s.Bounded limits k ↔ t.Bounded limits' k := by
  have hpending := hsame.pending hs.sound ht.sound
  have hconverged := hsame.converged hs.sound ht.sound
  constructor
  · rintro ⟨hleft, hwanted, hbound⟩
    exact ⟨hpending ▸ hleft, hconverged ▸ h.stopEarly ▸ hwanted, h.maxSupersteps ▸ hbound⟩
  · rintro ⟨hleft, hwanted, hbound⟩
    exact ⟨hpending ▸ hleft, hconverged ▸ h.stopEarly ▸ hwanted, h.maxSupersteps ▸ hbound⟩

theorem continues (h : Paired job g limits g' limits') (hs : Boundary g job limits k s)
    (ht : Boundary g' job limits' k t) (hsame : s.Same t) (hgoes : s.Continues limits k) :
    t.Continues limits' k := by
  rcases t.halts_or limits' k with hhalts | hbounded | hgoes'
  · rcases (h.halts_iff hs ht hsame).mpr hhalts with hempty | henough
    · exact absurd hempty hgoes.pending
    · rw [hgoes.wanted] at henough
      cases henough
  · exact absurd ((h.bounded_iff hs ht hsame).mpr hbounded).bound hgoes.allowed
  · exact hgoes'

theorem exists_same (h : Paired job g limits g' limits') (hblind : job.Blind)
    (hs : Boundary g job limits k s) : ∃ t, Boundary g' job limits' k t ∧ s.Same t := by
  refine hs.exists_counterpart h.divided' ?_ ?_
  · intro s hstep
    exact State.exists_superstep_of_twin hblind (abreast_initial h.twin) same_initial hstep
  · intro k s s' t hs ht hsame hgoes hstep
    have habreast := hs.abreast ht h.twin hsame.toAlike
    exact ⟨h.continues hs ht hsame hgoes,
      State.exists_superstep_of_twin hblind habreast hsame hstep⟩

theorem exists_failure (h : Paired job g limits g' limits') (hblind : job.Blind)
    (hfails : FailsIn g job limits k fault) : ∃ fault', FailsIn g' job limits' k fault' := by
  cases hfails with
  | first _ step =>
      cases hother : (initial g' job limits').superstep g' job 0 with
      | error aborted => exact ⟨_, .first h.divided' hother⟩
      | ok t =>
          obtain ⟨s, hstep, _⟩ := State.exists_superstep_of_twin hblind
            (abreast_initial h.symm.twin) same_initial hother
          cases step.symm.trans hstep
  | @later k s aborted boundary goes step =>
      obtain ⟨t, ht, hsame⟩ := h.exists_same hblind boundary
      have hgoes := h.continues boundary ht hsame goes
      -- had the other run got through, this one would have followed it
      cases hother : t.superstep g' job (k + 1) with
      | error aborted => exact ⟨_, .later ht hgoes hother⟩
      | ok t' =>
          have habreast := ht.abreast boundary h.symm.twin hsame.symm.toAlike
          obtain ⟨s', hstep, _⟩ := State.exists_superstep_of_twin hblind habreast hsame.symm hother
          cases step.symm.trans hstep

end Paired

end Run

def twoWorkers : EngineConfig := { EngineConfig.standard with workers := 2, staffed := Nat.two_pos }

/-- The diamond, with the edges of each of its sides next to each other. -/
def diamondTurned : PropertyGraph :=
  PropertyGraph.empty.connectAll
    [(.long 0, .long 2, []), (.long 2, .long 3, []), (.long 0, .long 1, []),
      (.long 1, .long 3, [])]

theorem diamond_rearranged : diamond.Rearranged diamondTurned := by
  have hdiamond : diamond = PropertyGraph.empty.connectAll
      [(.long 0, .long 1, []), (.long 0, .long 2, []), (.long 1, .long 3, []),
        (.long 2, .long 3, [])] := rfl
  rw [hdiamond]
  apply PropertyGraph.rearranged_of_perm
  refine (List.Perm.swap _ _ _).trans (List.Perm.cons _ ?_)
  exact @List.perm_append_comm _ [_, _] [_]

/-- The same settings with only one superstep after the first. -/
def EngineConfig.once (engine : EngineConfig) : EngineConfig := { engine with maxSupersteps := 1 }

end BulkPaths
