import BulkPaths.Proofs.MissingTargets
import BulkPaths.Proofs.Relaxation
import BulkPaths.Proofs.SuperstepCounts

/-!
# The books of a run

What is counted in a superstep is counted in several places: the workers count calls, adoptions and
what they send, the barrier counts what it delivers, and the run adds all of it up. The numbers
belong together because they count the same turns. Who is called has been delivered a message;
between sending and delivery messages are combined, but for no recipient are they lost; and a vertex
that adopts sends one message along each of its edges, unless it is muted.
-/

namespace BulkPaths

open PathWeight Message Mailbox

variable {W : Type}

/-- The sums of the columns of a history. -/
def Counters.totals (history : List Stats) : Counters where
  sent := (history.map Stats.sent).sum
  delivered := (history.map Stats.delivered).sum
  adoptions := (history.map Stats.adoptions).sum
  computed := (history.map Stats.active).sum

theorem Counters.totals_concat (history : List Stats) (stats : Stats) :
    Counters.totals (history ++ [stats]) = (Counters.totals history).add stats := by
  simp [totals, add]

/-- How the rows of a history belong together. -/
structure Balanced (g : PropertyGraph) (history : List Stats) : Prop where
  numbered : ∀ (k : Nat) (stats : Stats), history[k]? = some stats → stats.superstep = k
  /-- Every vertex is called in the first superstep, and none adopts. -/
  opening : ∃ stats : Stats, history[0]? = some stats ∧ stats.active = g.vertexCount ∧
    stats.adoptions = 0
  /-- Who has mail is called in the next superstep. -/
  carried : ∀ (k : Nat) (stats next : Stats), history[k]? = some stats →
    history[k + 1]? = some next → next.active = stats.delivered
  adoptions : ∀ stats ∈ history, stats.adoptions ≤ stats.active
  delivered : ∀ stats ∈ history, stats.delivered ≤ stats.sent
  silent : ∀ stats ∈ history, stats.delivered = 0 ↔ stats.sent = 0

namespace Turn

/-- The vertices that adopt a message in their turns. -/
def adopters (turns : List (Turn W)) : List VertexId :=
  (turns.filter fun turn => turn.result.adoptions != 0).map vertex

variable {turns : List (Turn W)}

theorem adopters_cons (turn : Turn W) (turns : List (Turn W)) :
    adopters (turn :: turns) =
      if turn.result.adoptions = 0 then adopters turns else turn.vertex :: adopters turns := by
  by_cases h : turn.result.adoptions = 0 <;> simp [adopters, h]

theorem mem_adopters {v : VertexId} :
    v ∈ adopters turns ↔ ∃ turn ∈ turns, turn.vertex = v ∧ turn.result.adoptions ≠ 0 := by
  simp only [adopters, List.mem_map, List.mem_filter, bne_iff_ne]
  constructor
  · rintro ⟨turn, ⟨hturn, hadopts⟩, hv⟩
    exact ⟨turn, hturn, hv, hadopts⟩
  · rintro ⟨turn, hturn, hv, hadopts⟩
    exact ⟨turn, ⟨hturn, hadopts⟩, hv⟩

theorem adoptions_eq_length (h : ∀ turn ∈ turns, turn.result.adoptions ≤ 1) :
    adoptions turns = (adopters turns).length := by
  induction turns with
  | nil => rfl
  | cons turn turns ih =>
      obtain ⟨hturn, hrest⟩ := List.forall_mem_cons.mp h
      rw [adoptions_cons, adopters_cons, ih hrest]
      split
      · omega
      · rw [List.length_cons]
        omega

/-- If only those who adopt send, and along each of their edges, then what is sent is counted by
their edges. -/
theorem length_sent_eq (degree : VertexId → Nat)
    (h : ∀ turn ∈ turns, turn.result.messages.length =
      if turn.result.adoptions = 0 then 0 else degree turn.vertex) :
    (sent turns).length = ((adopters turns).map degree).sum := by
  induction turns with
  | nil => rfl
  | cons turn turns ih =>
      obtain ⟨hturn, hrest⟩ := List.forall_mem_cons.mp h
      rw [sent_cons, List.length_append, hturn, ih hrest, adopters_cons]
      split
      · exact Nat.zero_add _
      · rw [List.map_cons, List.sum_cons]

end Turn

variable [PathWeight W]

namespace State

/-- The row counts the vertices that adopt between the two states and, in a run about all vertices,
their edges. -/
structure Tallies (g : PropertyGraph) (job : Job W) (s s' : State W) (adopters : List VertexId)
    (stats : Stats) : Prop where
  distinct : adopters.Nodup
  adopts : ∀ v, v ∈ adopters ↔ ∃ m, s.Adopts s' v m
  adoptions : stats.adoptions = adopters.length
  sent : job.targets = .all → stats.sent = (adopters.map fun v => (g.out v).length).sum

variable {g : PropertyGraph} {job : Job W} {count index : Nat} {s s' : State W}
  {turns : List (Turn W)} {v : VertexId}

namespace Taken

/-- In the first superstep every vertex is called. -/
theorem length_zero (h : s.Taken g job 0 turns) (hsound : s.Sound g job count)
    (hcount : 0 < count) : turns.length = g.vertexCount := by
  apply Nat.le_antisymm (h.length_le hsound hcount)
  have hsubset : g.ids ⊆ turns.map Turn.vertex := by
    intro v hv
    obtain ⟨turn, hturn, rfl⟩ := h.exists_turn_zero hsound hcount hv
    exact List.mem_map_of_mem hturn
  have hle := List.Nodup.length_le_of_subset g.distinct hsubset
  rwa [List.length_map, ← PropertyGraph.ids, g.length_ids] at hle

/-- Later there is one call for each message. -/
theorem length_succ (h : s.Taken g job (index + 1) turns) : turns.length = s.pending := by
  have hdue : (s.due (index + 1)).length = s.pending := by
    simp only [due, pending, Worker.due, Nat.succ_ne_zero, if_false, List.length_flatMap,
      List.length_map]
  rw [← hdue, ← h.calls, List.length_map]

/-- A turn that adopts has adopted the message that waited for its vertex. -/
theorem adoptions_ne_zero_iff (h : s.Taken g job (index + 1) turns) (hsound : s.Sound g job count)
    {turn : Turn W} (hturn : turn ∈ turns) :
    turn.result.adoptions ≠ 0 ↔ ∃ m, s.waiting turn.vertex = some m ∧
      less m.weight (s.value turn.vertex).weight ∧ isFinite m.weight ∧
        turn.result.value = m.adopted turn.vertex := by
  obtain ⟨m, _, hwaiting, _, hheard⟩ := h.turn_succ hsound hturn
  cases hheard with
  | ignored kept _ _ adoptions =>
      refine ⟨fun hadopts => absurd adoptions hadopts, ?_⟩
      rintro ⟨m', hwaiting', better, _⟩
      obtain rfl := Option.some.inj (hwaiting.symm.trans hwaiting')
      rw [better] at kept
      cases kept
  | silenced better finite value _ adoptions _ | told better finite value adoptions _ =>
      rw [adoptions]
      exact ⟨fun _ => ⟨m, hwaiting, better, finite, value⟩, fun _ => Nat.one_ne_zero⟩

/-- In a run about all vertices who adopts sends along all edges, and nobody else sends. -/
theorem length_messages (h : s.Taken g job (index + 1) turns) (hsound : s.Sound g job count)
    (hall : job.targets = .all) {turn : Turn W} (hturn : turn ∈ turns) :
    turn.result.messages.length =
      if turn.result.adoptions = 0 then 0 else (g.out turn.vertex).length := by
  obtain ⟨_, edges, _, hedges, hheard⟩ := h.turn_succ hsound hturn
  cases hheard with
  | ignored _ _ silent adoptions => rw [silent, if_pos adoptions, List.length_nil]
  | silenced _ _ _ _ _ reason =>
      rw [Job.open_all hall] at reason
      cases reason
  | told _ _ _ adoptions sent =>
      rw [if_neg (by omega), PropertyGraph.out, hedges, Option.getD_some,
        (Job.forward_ok sent).length_eq]

end Taken

namespace Superstep

/-- Messages for one vertex become one, and that is all that happens to them. -/
theorem pending_le_sent (h : s.Superstep g job index s' turns) (hsound : s'.Sound g job count)
    (hcount : 0 < count) : s'.pending ≤ (Turn.sent turns).length := by
  obtain ⟨box, hrouted⟩ := hsound.routed
  have hsubset : Assoc.keys box ⊆ (Turn.sent turns).map Outbound.recipient := by
    intro v hv
    obtain ⟨⟨v, m⟩, hentry, rfl⟩ := List.mem_map.mp hv
    have hcollects := h.waiting v
    rw [hrouted.waiting_eq hcount, Assoc.get?_of_mem hrouted.distinct hentry] at hcollects
    exact List.mem_map_of_mem (mem_addressed.mp hcollects.mem_of_some)
  have hle := List.Nodup.length_le_of_subset hrouted.distinct hsubset
  rwa [Assoc.keys, List.length_map, List.length_map, ← hrouted.pending_eq hcount] at hle

theorem pending_eq_zero_iff (h : s.Superstep g job index s' turns) :
    s'.pending = 0 ↔ (Turn.sent turns).length = 0 := by
  rw [pending_eq_zero, List.length_eq_zero_iff]
  constructor
  · intro hnone
    refine List.eq_nil_iff_forall_not_mem.mpr fun out hout => ?_
    obtain ⟨_, hbest, _⟩ := (h.waiting out.recipient).exists_of_mem (mem_addressed.mpr hout)
    rw [hnone] at hbest
    cases hbest
  · intro hempty v
    have hcollects := h.waiting v
    rw [hempty] at hcollects
    refine Option.eq_none_iff_forall_ne_some.mpr fun m hm => ?_
    rw [hm] at hcollects
    cases hcollects.mem_of_some

/-- Who adopts in a turn takes on the value of the message that waited. -/
theorem mem_adopters (h : s.Superstep g job (index + 1) s' turns) (hsound : s.Sound g job count) :
    v ∈ Turn.adopters turns ↔ ∃ m, s.Adopts s' v m := by
  rw [Turn.mem_adopters]
  constructor
  · rintro ⟨turn, hturn, rfl, hadopts⟩
    obtain ⟨m, hwaiting, better, finite, value⟩ :=
      (h.adoptions_ne_zero_iff hsound hturn).mp hadopts
    exact ⟨m, hwaiting, better, finite, (h.value_of_turn hsound hturn).trans value⟩
  · rintro ⟨m, hadopts⟩
    obtain ⟨turn, hturn, rfl⟩ := h.exists_turn_succ hsound hadopts.waiting
    refine ⟨turn, hturn, rfl, (h.adoptions_ne_zero_iff hsound hturn).mpr ?_⟩
    exact ⟨m, hadopts.waiting, hadopts.better, hadopts.finite,
      (h.value_of_turn hsound hturn).symm.trans hadopts.value⟩

theorem tallies (h : s.Superstep g job (index + 1) s' turns) (hsound : s.Sound g job count) :
    s.Tallies g job s' (Turn.adopters turns) (stats (index + 1) turns s') where
  distinct := (List.filter_sublist.map Turn.vertex).nodup (h.nodup_vertices hsound)
  adopts _ := h.mem_adopters hsound
  adoptions :=
    Turn.adoptions_eq_length fun turn hturn => Job.adoptions_le_one (h.acted turn hturn)
  sent hall := Turn.length_sent_eq (fun v => (g.out v).length) fun _ hturn =>
    h.length_messages hsound hall hturn

end Superstep

end State

namespace Run

variable {g : PropertyGraph} {job : Job W} {limits : Limits} {k : Nat} {s : State W}
  {result : Result W}

theorem counters_of_finish {done : State W × Option (Aborted W)}
    (h : (finish g job done).outcome = .ok result) :
    (finish g job done).counters = result.counters := by
  obtain ⟨s, aborted⟩ := done
  cases aborted with
  | none =>
      cases h
      rfl
  | some aborted => cases h

/-- The counters that a run leaves are those of its result. -/
theorem counters_of_result (h : (ofJob g job limits).outcome = .ok result) :
    (ofJob g job limits).counters = result.counters := by
  cases htable : g.ownerTable limits.workers with
  | error fault =>
      rw [ofJob, htable] at h
      cases h
  | ok table =>
      rw [ofJob, htable] at h ⊢
      exact counters_of_finish h

variable [LawfulPathWeight W]

namespace Boundary

/-- Each row of the history was written by the superstep of its number. -/
theorem exists_row (h : Boundary g job limits k s) {j : Nat} {stats : Stats}
    (hrow : s.history[j]? = some stats) :
    ∃ t t' turns, Ready g job limits j t ∧ Boundary g job limits j t' ∧
      t.Superstep g job j t' turns ∧ stats = State.stats j turns t' := by
  induction h with
  | @first s divided step =>
      obtain ⟨turns, hstep, _⟩ := State.superstep_ok limits.staffed sound_initial step
      have hhistory : s.history = [State.stats 0 turns s] := hstep.history
      rw [hhistory, List.getElem?_singleton] at hrow
      split at hrow
      case isTrue hj =>
        obtain rfl := hj
        cases hrow
        exact ⟨_, s, turns, .first divided, .first divided step, hstep, rfl⟩
      case isFalse => cases hrow
  | @next k s s' before goes step ih =>
      obtain ⟨turns, hstep, _⟩ := State.superstep_ok limits.staffed before.sound step
      rw [hstep.history, List.getElem?_append, before.length_history,
        List.getElem?_singleton] at hrow
      split at hrow
      case isTrue => exact ih hrow
      case isFalse hj =>
        split at hrow
        case isTrue hlast =>
          obtain rfl : j = k + 1 := by omega
          cases hrow
          exact ⟨s, s', turns, .later before, before.next goes step, hstep, rfl⟩
        case isFalse => cases hrow

theorem exists_row_of_mem (h : Boundary g job limits k s) {stats : Stats}
    (hmem : stats ∈ s.history) :
    ∃ (j : Nat) (t t' : State W) (turns : List (Turn W)), Boundary g job limits j t' ∧
      t.Superstep g job j t' turns ∧ stats = State.stats j turns t' := by
  obtain ⟨j, hrow⟩ := List.getElem?_of_mem hmem
  obtain ⟨t, t', turns, _, hafter, hstep, hstats⟩ := h.exists_row hrow
  exact ⟨j, t, t', turns, hafter, hstep, hstats⟩

theorem counters_eq_totals (h : Boundary g job limits k s) :
    s.counters = Counters.totals s.history := by
  induction h using induct with
  | first _ hstep =>
      rw [hstep.counters, hstep.history, Counters.totals_concat]
      rfl
  | next _ hstep ih => rw [hstep.counters, hstep.history, Counters.totals_concat, ih]

theorem balanced (h : Boundary g job limits k s) : Balanced g s.history where
  numbered := by
    intro j stats hrow
    obtain ⟨_, _, _, _, _, _, rfl⟩ := h.exists_row hrow
    rfl
  opening := by
    have hlt : 0 < s.history.length := by
      rw [h.length_history]
      exact Nat.succ_pos k
    obtain ⟨t, t', turns, hready, _, hstep, hstats⟩ :=
      h.exists_row (List.getElem?_eq_getElem hlt)
    refine ⟨_, List.getElem?_eq_getElem hlt, ?_, ?_⟩
    · rw [hstats]
      exact hstep.length_zero hready.sound limits.staffed
    · rw [hstats]
      exact hstep.adoptions_eq_zero hready.sound limits.staffed fun _ _ => rfl
  carried := by
    intro j stats next hrow hnext
    obtain ⟨_, t', _, _, hbefore, _, rfl⟩ := h.exists_row hrow
    obtain ⟨t, _, turns, hready, _, hstep, rfl⟩ := h.exists_row hnext
    cases hready with
    | later boundary =>
        obtain rfl := hbefore.unique boundary
        exact hstep.length_succ
  adoptions := by
    intro stats hmem
    obtain ⟨_, _, _, _, _, hstep, rfl⟩ := h.exists_row_of_mem hmem
    exact hstep.adoptions_le
  delivered := by
    intro stats hmem
    obtain ⟨_, _, _, _, hafter, hstep, rfl⟩ := h.exists_row_of_mem hmem
    exact hstep.pending_le_sent hafter.sound limits.staffed
  silent := by
    intro stats hmem
    obtain ⟨_, _, _, _, _, hstep, rfl⟩ := h.exists_row_of_mem hmem
    exact hstep.pending_eq_zero_iff

/-- The last row counts what is pending. -/
theorem getLast?_history (h : Boundary g job limits k s) :
    ∃ last, s.history.getLast? = some last ∧ last.delivered = s.pending := by
  induction h using induct with
  | first _ hstep | next _ hstep _ =>
      rw [hstep.history, List.getLast?_concat]
      exact ⟨_, rfl, rfl⟩

theorem exists_tallies (h : Boundary g job limits k s) {j : Nat} {stats : Stats}
    (hrow : s.history[j + 1]? = some stats) :
    ∃ t t' adopters, Boundary g job limits j t ∧ Boundary g job limits (j + 1) t' ∧
      t.Tallies g job t' adopters stats := by
  obtain ⟨t, t', turns, hready, hafter, hstep, rfl⟩ := h.exists_row hrow
  cases hready with
  | later boundary => exact ⟨t, t', _, boundary, hafter, hstep.tallies boundary.sound⟩

end Boundary

/-- **The books of a completed run balance.** There is a row for each of its supersteps, the rows
belong together, nothing is left over at the end unless the run was stopped early, the counters are
the sums of the columns, and what is adopted and sent is counted by the vertices that adopt and by
their edges. -/
theorem books_balance (h : (ofJob g job limits).outcome = .ok result) :
    (∃ k s, Boundary g job limits k s ∧ result.supersteps = k + 1) ∧
      result.supersteps = result.history.length ∧ Balanced g result.history ∧
      (∃ last, result.history.getLast? = some last ∧ (last.delivered = 0 ∨
        limits.stopEarly = true ∧ job.targets ≠ .all ∧
          ∀ v ∈ job.targets.ids, v ∈ result.reached)) ∧
      result.counters = Counters.totals result.history ∧
      (ofJob g job limits).counters = Counters.totals result.history ∧
      ∀ k stats, result.history[k + 1]? = some stats →
        ∃ s s' adopters, Boundary g job limits k s ∧ Boundary g job limits (k + 1) s' ∧
          s.Tallies g job s' adopters stats := by
  have hcounters := counters_of_result h
  obtain ⟨k, s, boundary, halts, rfl⟩ := exists_boundary_of_result h
  have htotals : (Run.result g job s).counters = Counters.totals s.history :=
    boundary.counters_eq_totals
  obtain ⟨last, hlast, hdelivered⟩ := boundary.getLast?_history
  refine ⟨⟨k, s, boundary, boundary.length_history⟩, rfl, boundary.balanced,
    ⟨last, hlast, ?_⟩, htotals, hcounters.trans htotals, fun _ _ => boundary.exists_tallies⟩
  rw [hdelivered]
  refine halts.imp_right fun henough => ?_
  obtain ⟨hearly, hconverged⟩ := Bool.and_eq_true_iff.mp henough
  exact ⟨hearly, (State.converged_iff_subset boundary.sound).mp hconverged⟩

theorem books_balance_diamond :
    ∃ result, (ofJob diamond diamondJob diamondLimits).outcome = .ok result ∧
      Balanced diamond result.history ∧ ∃ stats s s' adopters,
        result.history[1]? = some stats ∧ Boundary diamond diamondJob diamondLimits 0 s ∧
          Boundary diamond diamondJob diamondLimits 1 s' ∧
            s.Tallies diamond diamondJob s' adopters stats := by
  obtain ⟨result, hresult, hsupersteps⟩ := diamond_run
  obtain ⟨_, hlength, hbalanced, _, _, _, hrows⟩ := books_balance hresult
  have hlt : 1 < result.history.length := by omega
  have hrow := List.getElem?_eq_getElem hlt
  obtain ⟨s, s', adopters, hs, hs', htallies⟩ := hrows 0 _ hrow
  exact ⟨result, hresult, hbalanced, _, s, s', adopters, hrow, hs, hs', htallies⟩

end Run

end BulkPaths
