import BulkPaths.Proofs.Lockstep
import BulkPaths.Proofs.MissingTargets
import BulkPaths.Proofs.WholeWeights

/-!
# A single target is a dead end

A single target keeps to itself whatever it hears, and that is all that the target does to a run. A
vertex without outgoing edges does the same. So the run towards a target is the run about all
vertices on the graph without the exits of the target: step by step, through cycles that lead back
to the target, and up to the edge on which either of them fails.
-/

namespace BulkPaths

open PathWeight

namespace PropertyGraph

/-- The graph without the outgoing edges of a vertex. -/
def withoutExits (g : PropertyGraph) (v : VertexId) : PropertyGraph where
  adjacency := Assoc.mapValues (fun u edges => if u = v then [] else edges) g.adjacency
  distinct := by
    rw [Assoc.keys_mapValues]
    exact g.distinct
  closed := by
    intro row hrow edge hedge
    rw [Assoc.keys_mapValues]
    obtain ⟨old, hold, rfl⟩ := List.mem_map.mp hrow
    dsimp only at hedge
    split at hedge
    · cases hedge
    · exact g.closed old hold edge hedge

variable (g : PropertyGraph) (v u : VertexId)

theorem ids_withoutExits : (g.withoutExits v).ids = g.ids := by
  simp only [ids, withoutExits, Assoc.keys_mapValues]

theorem edges?_withoutExits :
    (g.withoutExits v).edges? u = (g.edges? u).map fun edges => if u = v then [] else edges := by
  simp only [edges?, withoutExits, Assoc.get?_mapValues]

end PropertyGraph

variable {W : Type} [PathWeight W]

namespace Job

variable {job : Job W} {g : PropertyGraph} {target : VertexId} {call : Call W}

theorem mutes_single {m : Message W} (hm : call.2 = some m) (replica : IdSet) :
    (job.aimed (.single target)).mutes call replica = (call.1 == target) := by
  simp [mutes, silences, aimed, hm, Targets.contains, Targets.ids, Targets.allReached]

/-- The target is as silent as a vertex without edges. -/
theorem outlets_withoutExits {m : Message W} (hm : call.2 = some m) (replica replica' : IdSet) :
    (job.aimed (.single target)).outlets g call replica =
      (job.aimed .all).outlets (g.withoutExits target) call replica' := by
  unfold outlets
  rw [g.edges?_withoutExits, mutes_single hm, State.mutes_all rfl, Option.map_map]
  congr 1
  funext edges
  by_cases htarget : call.1 = target <;> simp [htarget]

end Job

namespace Run

variable {g : PropertyGraph} {job : Job W} {limits : Limits} {target : VertexId}
  [LawfulPathWeight W]

theorem synced_withoutExits (g : PropertyGraph) (htarget : target ≠ job.source)
    (hlate : limits.stopEarly = false) :
    Synced g (job.aimed (.single target)) (g.withoutExits target) (job.aimed .all) limits where
  ids := (g.ids_withoutExits target).symm
  wanted _ := by rw [hlate, Bool.false_and]
  wanted' _ := by rw [hlate, Bool.false_and]
  answers := by
    intro k s t hs ht hstep call hcall replica replica'
    obtain ⟨_, hrouted⟩ := hs.sound.routed
    have hknown := hrouted.mem_ids_of_due limits.staffed hcall
    refine Job.shown_act ?_ ?_ hknown ?_ ?_ ?_
    · simpa using htarget
    · simp
    · rwa [g.ids_withoutExits]
    · intro _ hsource
      have hother : call.1 ≠ target := hsource ▸ htarget.symm
      rw [g.edges?_withoutExits]
      simp [hother]
    · intro m hm _
      exact Job.outlets_withoutExits hm replica replica'

/-- Without early stop a run towards another vertex than the source is the run about all vertices on
the graph without the exits of that target. Both fail in the same superstep with the same fault, or
both return the same values, supersteps, counters and history, apart from what was reached. -/
theorem single_target_is_dead_end (htarget : target ≠ job.source)
    (hlate : limits.stopEarly = false) :
    (ofJob g (job.aimed (.single target)) limits).outcome.map Result.record =
        (ofJob (g.withoutExits target) (job.aimed .all) limits).outcome.map Result.record ∧
      ∀ k fault, FailsIn g (job.aimed (.single target)) limits k fault ↔
        FailsIn (g.withoutExits target) (job.aimed .all) limits k fault := by
  have hsynced := synced_withoutExits g htarget hlate
  exact ⟨hsynced.record_outcome, fun k fault => hsynced.failsIn_iff⟩

theorem single_target_is_dead_end_diamond : .long 1 ≠ diamondJob.source ∧
    ∃ result result',
      (ofJob diamond (diamondJob.aimed (.single (.long 1))) diamondLimits).outcome = .ok result ∧
      (ofJob (diamond.withoutExits (.long 1)) diamondJob diamondLimits).outcome = .ok result' ∧
      result.record = result'.record := by
  have htarget : .long 1 ≠ diamondJob.source := by decide +kernel
  obtain ⟨hrecord, _⟩ :=
    @single_target_is_dead_end Float _ diamond diamondJob diamondLimits _ _ htarget rfl
  obtain ⟨result, hresult, _⟩ : ∃ result,
      (ofJob diamond (diamondJob.aimed (.single (.long 1))) diamondLimits).outcome = .ok result ∧
        result.supersteps = 3 := exists_result (by decide +kernel)
  rw [hresult] at hrecord
  cases hother : (ofJob (diamond.withoutExits (.long 1)) diamondJob diamondLimits).outcome with
  | error fault => cases hrecord.trans (congrArg (Except.map Result.record) hother)
  | ok result' =>
      exact ⟨htarget, result, result', hresult, rfl,
        Except.ok.inj (hrecord.trans (congrArg (Except.map Result.record) hother))⟩

end Run

end BulkPaths
