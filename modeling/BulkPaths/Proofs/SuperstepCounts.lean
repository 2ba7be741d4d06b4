import BulkPaths.Proofs.Rearrangement
import BulkPaths.Proofs.Termination

/-!
# How much a superstep counts

A superstep calls a vertex at most once. Who is called adopts one path at most, and sends one
message at most along each edge that leaves it. So no count of a superstep exceeds the size of the
graph, and the counters of a run, which add these counts up, do not exceed that size times the
supersteps.
-/

namespace BulkPaths

variable {W : Type} [PathWeight W]

namespace PropertyGraph

variable {g : PropertyGraph}

/-- Vertices and edges. -/
def size (g : PropertyGraph) : Nat := g.vertexCount + g.edgeCount

theorem edgeCount_eq_sum (g : PropertyGraph) :
    g.edgeCount = (g.ids.map fun v => (g.out v).length).sum := by
  have hout : ∀ row ∈ g.adjacency, (g.out row.1).length = row.2.length := by
    intro row hrow
    rw [out, edges?, Assoc.get?_of_mem g.distinct hrow, Option.getD_some]
  rw [edgeCount, rows, List.length_flatMap, ids, Assoc.keys, List.map_map]
  refine congrArg List.sum (List.map_congr_left fun row hrow => ?_)
  rw [List.length_map, Function.comp_apply, hout row hrow]

/-- The edges that leave some of the vertices, each taken once. -/
theorem sum_out_le {vertices : List VertexId} (hdistinct : vertices.Nodup)
    (hknown : vertices ⊆ g.ids) :
    (vertices.map fun v => (g.out v).length).sum ≤ g.edgeCount := by
  obtain ⟨some, hperm, hsub⟩ := hdistinct.subperm hknown
  rw [edgeCount_eq_sum, ← (hperm.map _).sum_eq]
  exact (hsub.map _).sum_le_sum fun _ _ => Nat.zero_le _

end PropertyGraph

namespace Job

variable {g : PropertyGraph} {job : Job W} {call : Call W} {value : PathValue W} {replica : IdSet}
  {result : StepResult W}

theorem length_messages_le (h : job.act g call value replica = .ok result) :
    result.messages.length ≤ (g.out call.1).length := by
  rcases act_messages h with hsilent | ⟨edges, hedges, hsent⟩
  · rw [hsilent]
    exact Nat.zero_le _
  · rw [PropertyGraph.out, hedges, Option.getD_some, (forward_ok hsent).length_eq]

theorem adoptions_le_one (h : job.act g call value replica = .ok result) :
    result.adoptions ≤ 1 := by
  obtain ⟨v, message⟩ := call
  cases message with
  | none =>
      obtain ⟨_, _, _, hnone⟩ := act_first h
      omega
  | some m =>
      obtain ⟨_, _, hheard⟩ := act_later h
      cases hheard <;> omega

end Job

/-- No count of the superstep is above the bound. -/
structure Stats.Within (bound : Nat) (stats : Stats) : Prop where
  active : stats.active ≤ bound
  sent : stats.sent ≤ bound
  delivered : stats.delivered ≤ bound
  adoptions : stats.adoptions ≤ bound

/-- No counter is above the bound. -/
structure Counters.Within (bound : Nat) (counters : Counters) : Prop where
  sent : counters.sent ≤ bound
  delivered : counters.delivered ≤ bound
  adoptions : counters.adoptions ≤ bound
  computed : counters.computed ≤ bound

theorem Counters.Within.add {bound total : Nat} {counters : Counters} {stats : Stats}
    (h : counters.Within total) (hstats : stats.Within bound) :
    (counters.add stats).Within (total + bound) where
  sent := Nat.add_le_add h.sent hstats.sent
  delivered := Nat.add_le_add h.delivered hstats.delivered
  adoptions := Nat.add_le_add h.adoptions hstats.adoptions
  computed := Nat.add_le_add h.computed hstats.active

namespace State

variable {g : PropertyGraph} {job : Job W} {count index : Nat} {s s' : State W}
  {turns : List (Turn W)}

theorem Sound.pending_le (h : s.Sound g job count) (hcount : 0 < count) :
    s.pending ≤ g.vertexCount := by
  obtain ⟨box, hrouted⟩ := h.routed
  have hkeys := List.Nodup.length_le_of_subset hrouted.distinct hrouted.known
  rwa [Assoc.keys, List.length_map, ← hrouted.pending_eq hcount, g.length_ids] at hkeys

namespace Taken

theorem nodup_vertices (h : s.Taken g job index turns) (hsound : s.Sound g job count) :
    (turns.map Turn.vertex).Nodup := by
  obtain ⟨box, hrouted⟩ := hsound.routed
  rw [h.vertices]
  exact hrouted.nodup_due index

theorem vertices_subset (h : s.Taken g job index turns) (hsound : s.Sound g job count)
    (hcount : 0 < count) : turns.map Turn.vertex ⊆ g.ids := by
  obtain ⟨box, hrouted⟩ := hsound.routed
  intro v hv
  obtain ⟨turn, hturn, rfl⟩ := List.mem_map.mp hv
  exact hrouted.mem_ids_of_due hcount (h.mem_due hturn)

theorem length_le (h : s.Taken g job index turns) (hsound : s.Sound g job count)
    (hcount : 0 < count) : turns.length ≤ g.vertexCount := by
  have hle := List.Nodup.length_le_of_subset (h.nodup_vertices hsound)
    (h.vertices_subset hsound hcount)
  rwa [List.length_map, g.length_ids] at hle

theorem length_sent_le (h : s.Taken g job index turns) (hsound : s.Sound g job count)
    (hcount : 0 < count) : (Turn.sent turns).length ≤ g.edgeCount := by
  calc (Turn.sent turns).length
      = (turns.map fun turn => turn.result.messages.length).sum := List.length_flatMap
    _ ≤ (turns.map fun turn => (g.out turn.vertex).length).sum :=
        List.sum_le_sum fun turn hturn => Job.length_messages_le (h.acted turn hturn)
    _ = ((turns.map Turn.vertex).map fun v => (g.out v).length).sum := by
        rw [List.map_map]
        rfl
    _ ≤ g.edgeCount :=
        PropertyGraph.sum_out_le (h.nodup_vertices hsound) (h.vertices_subset hsound hcount)

theorem adoptions_le (h : s.Taken g job index turns) : Turn.adoptions turns ≤ turns.length := by
  have hone := fun turn hturn => Job.adoptions_le_one (h.acted turn hturn)
  clear h
  induction turns with
  | nil => exact Nat.le_refl 0
  | cons turn turns ih =>
      obtain ⟨hfirst, hrest⟩ := List.forall_mem_cons.mp hone
      have hle := ih hrest
      rw [Turn.adoptions_cons, List.length_cons]
      omega

end Taken

theorem Superstep.stats_within (h : s.Superstep g job index s' turns) (hsound : s.Sound g job count)
    (hsound' : s'.Sound g job count) (hcount : 0 < count) :
    (stats index turns s').Within g.size := by
  have hactive := h.length_le hsound hcount
  have hsent := h.length_sent_le hsound hcount
  have hdelivered := hsound'.pending_le hcount
  have hadoptions := h.adoptions_le
  unfold PropertyGraph.size
  constructor <;> dsimp only [stats] <;> omega

end State

namespace Run.Boundary

variable [LawfulPathWeight W] {g : PropertyGraph} {job : Job W} {limits : Limits} {k : Nat}
  {s : State W}

/-- The counters of a run are bounded by the supersteps and the size of the graph. -/
theorem counters_within (h : Boundary g job limits k s) :
    s.counters.Within ((k + 1) * g.size) := by
  induction h using induct with
  | @first s turns h hstep =>
      rw [hstep.counters, Nat.zero_add, Nat.one_mul]
      have hzero : (initial g job limits).counters.Within 0 := by
        constructor <;> exact Nat.le_refl 0
      have hsum := hzero.add (hstep.stats_within sound_initial h.sound limits.staffed)
      rwa [Nat.zero_add] at hsum
  | @next k s s' turns h' h hstep ih =>
      rw [hstep.counters, Nat.succ_mul]
      exact ih.add (hstep.stats_within h.sound h'.sound limits.staffed)

end Run.Boundary

end BulkPaths
