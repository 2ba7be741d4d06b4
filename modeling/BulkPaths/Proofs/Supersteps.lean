import BulkPaths.Proofs.ReachedSets
import BulkPaths.Proofs.Routing

/-!
# Supersteps

A superstep, seen from the vertices. The vertices that are due take one turn each, on the values of
before; afterwards there waits for every vertex what is left of the messages that were sent to it.
Workers do not show: they decide the order of the turns and nothing that a message or a value
depends on.
-/

namespace BulkPaths

open PathWeight LawfulPathWeight Message Mailbox

variable {W : Type} [PathWeight W]

theorem PropertyGraph.exists_edges (g : PropertyGraph) {v : VertexId} (hv : v ∈ g.ids) :
    ∃ edges, g.edges? v = some edges := by
  obtain ⟨⟨_, edges⟩, hrow, rfl⟩ := List.mem_map.mp hv
  exact ⟨edges, Assoc.get?_of_mem g.distinct hrow⟩

namespace Job

/-- The fault is that of an edge of the graph whose weight is refused. -/
def Rejects (job : Job W) (g : PropertyGraph) (fault : Fault) : Prop :=
  ∃ v edges edge, g.edges? v = some edges ∧ edge ∈ edges ∧ job.weigh edge = .error fault

variable {g : PropertyGraph} {job : Job W} {call : Call W} {v : VertexId} {m : Message W}
  {value : PathValue W} {replica : IdSet} {result : StepResult W} {fault : Fault}

theorem act_first (h : job.act g (v, none) value replica = .ok result) :
    ∃ edges, g.edges? v = some edges ∧ Seeded job v edges result ∧ result.adoptions = 0 := by
  simp only [act] at h
  cases hedges : g.edges? v with
  | none => simp [hedges] at h
  | some edges =>
      rw [hedges] at h
      exact ⟨edges, rfl, init_ok h⟩

theorem act_later (h : job.act g (v, some m) value replica = .ok result) :
    ∃ edges, g.edges? v = some edges ∧ Heard job v edges value m replica result := by
  simp only [act] at h
  cases hedges : g.edges? v with
  | none => simp [hedges] at h
  | some edges =>
      rw [hedges] at h
      exact ⟨edges, rfl, step_ok h⟩

/-- A vertex sends nothing, or passes its new value on along every edge. -/
theorem act_messages (h : job.act g call value replica = .ok result) :
    result.messages = [] ∨
      ∃ edges, g.edges? call.1 = some edges ∧
        job.forward result.value edges = .ok result.messages := by
  obtain ⟨v, message⟩ := call
  cases message with
  | none =>
      obtain ⟨edges, hedges, hseeded, _⟩ := act_first h
      cases hseeded with
      | other _ _ silent | silent _ _ silent _ => exact .inl silent
      | told _ value sent =>
          rw [← value] at sent
          exact .inr ⟨edges, hedges, sent⟩
  | some m =>
      obtain ⟨edges, hedges, hheard⟩ := act_later h
      cases hheard with
      | ignored _ _ silent _ | silenced _ _ _ silent _ _ => exact .inl silent
      | told _ _ value _ sent =>
          rw [← value] at sent
          exact .inr ⟨edges, hedges, sent⟩

theorem recipient_mem_ids (h : job.act g call value replica = .ok result) {out : Outbound W}
    (hout : out ∈ result.messages) : out.recipient ∈ g.ids := by
  rcases act_messages h with hsilent | ⟨edges, hedges, hsent⟩
  · simp [hsilent] at hout
  · obtain ⟨edge, hedge, _, _, rfl⟩ := exists_edge_of_forward hsent hout
    exact g.target_mem_ids hedges edge hedge

section Lawful

variable [LawfulPathWeight W]

/-- The value of a vertex comes from nothing but its value of before and the message. -/
theorem act_value_proper (hvalue : Proper value.weight)
    (hm : ∀ m, call.2 = some m → Proper m.weight)
    (h : job.act g call value replica = .ok result) : Proper result.value.weight := by
  obtain ⟨v, message⟩ := call
  cases message with
  | none =>
      obtain ⟨_, _, hseeded, _⟩ := act_first h
      cases hseeded with
      | other _ value _ =>
          rw [value]
          exact proper_infinite
      | silent _ value _ _ | told _ value _ =>
          rw [value]
          exact proper_zero
  | some m =>
      obtain ⟨_, _, hheard⟩ := act_later h
      cases hheard with
      | ignored _ value _ _ =>
          rw [value]
          exact hvalue
      | silenced _ _ value _ _ _ | told _ _ value _ _ =>
          rw [value]
          exact hm m rfl

theorem act_messages_proper (hvalue : Proper value.weight)
    (hm : ∀ m, call.2 = some m → Proper m.weight)
    (h : job.act g call value replica = .ok result) : SentProper result.messages := by
  intro out hout
  rcases act_messages h with hsilent | ⟨edges, _, hsent⟩
  · simp [hsilent] at hout
  · obtain ⟨edge, _, weight, hweigh, rfl⟩ := exists_edge_of_forward hsent hout
    exact proper_add (act_value_proper hvalue hm h) (job.positive hweigh).1

end Lawful

end Job

namespace State

/-- Between two supersteps: the mail is routed, only targets have been reached, and every weight can
be compared. -/
structure Sound (g : PropertyGraph) (job : Job W) (count : Nat) (s : State W) : Prop where
  routed : ∃ box, s.Routed g count box
  clean : s.aggregator.Clean job.targets
  values : ∀ v, Proper (s.value v).weight
  mail : ∀ v m, s.waiting v = some m → Proper m.weight

def stats (index : Nat) (turns : List (Turn W)) (s' : State W) : Stats :=
  { superstep := index
    active := turns.length
    sent := (Turn.sent turns).length
    delivered := s'.pending
    adoptions := Turn.adoptions turns
    reached := s'.aggregator.merged.length }

/-- The turns of a superstep: one for every call, each on the value of before. -/
structure Taken (g : PropertyGraph) (job : Job W) (index : Nat) (s : State W)
    (turns : List (Turn W)) : Prop where
  calls : turns.map Turn.call = s.due index
  acted : ∀ turn ∈ turns, job.act g turn.call (s.value turn.vertex) turn.replica = .ok turn.result
  replicas : ∀ turn ∈ turns, job.Replica s.aggregator.merged turns turn.replica

structure Superstep (g : PropertyGraph) (job : Job W) (index : Nat) (s s' : State W)
    (turns : List (Turn W)) : Prop extends s.Taken g job index turns where
  labels : s'.labels = s.labels.settle turns
  waiting : ∀ v, Collects (addressed v (Turn.sent turns)) (s'.waiting v)
  reached : ∀ v, v ∈ s'.aggregator.merged ↔
    v ∈ s.aggregator.merged ∨ v ∈ job.targets.ids ∧ Turn.Called turns v
  counters : s'.counters = s.counters.add (stats index turns s')
  history : s'.history = s.history ++ [stats index turns s']

variable {g : PropertyGraph} {job : Job W} {count index : Nat} {s s' : State W}

theorem converged_all (htargets : job.targets = .all) (h : s.Sound g job count) :
    s.aggregator.converged = false := by
  rw [Aggregator.converged, h.clean.same, htargets]

theorem value_start (targets : Targets) (events : List Event) (v : VertexId) :
    (State.start g targets count events : State W).value v = .unreached := by
  have hfresh : ∀ ids : List VertexId,
      Labels.label (ids.map fun id => (id, (.fresh : Label W))) v = .fresh := by
    intro ids
    unfold Labels.label
    induction ids with
    | nil => rfl
    | cons id ids ih =>
        rw [List.map_cons, Assoc.get?]
        split
        case isTrue => rfl
        case isFalse => exact ih
  unfold value State.start
  rw [hfresh]
  rfl

theorem waiting_start (targets : Targets) (events : List Event) (v : VertexId) :
    (State.start g targets count events : State W).waiting v = none := by
  have hmail :
      (State.start g targets count events : State W).workers.flatMap Worker.inbox = [] := by
    rw [List.flatMap_eq_nil_iff]
    intro worker hworker
    obtain ⟨i, _, rfl⟩ := List.mem_map.mp hworker
    rfl
  unfold waiting
  rw [hmail]
  rfl

theorem sound_start [LawfulPathWeight W] (events : List Event) :
    (State.start g job.targets count events).Sound g job count where
  routed := ⟨[], .start g job.targets count events⟩
  clean := Aggregator.clean_start job.targets
  values := by
    intro v
    rw [value_start]
    exact proper_infinite
  mail := by
    intro v m hm
    rw [waiting_start] at hm
    cases hm

theorem Works.taken {shifts : List (Shift W)} (h : s.Works g job index shifts) :
    s.Taken g job index (Shift.turns shifts) where
  calls := by
    unfold due Shift.turns
    rw [← h.workers, List.flatMap_map, List.map_flatMap]
    exact List.flatMap_congr fun shift hshift => (h.turns shift hshift).calls
  acted := by
    intro turn hturn
    obtain ⟨shift, hshift, hmem⟩ := List.mem_flatMap.mp hturn
    exact (h.turns shift hshift).acted turn hmem
  replicas := by
    intro turn hturn
    obtain ⟨shift, hshift, hmem⟩ := List.mem_flatMap.mp hturn
    have hstart := Job.Replica.start job s.aggregator.merged shift.2
    apply (hstart.of_chained (h.turns shift hshift).chained (List.Subset.refl _) turn hmem).mono
    intro other hother
    exact List.mem_flatMap.mpr ⟨shift, hshift, hother⟩

namespace Taken

variable {turns : List (Turn W)}

theorem vertices (h : s.Taken g job index turns) :
    turns.map Turn.vertex = (s.due index).map Prod.fst := by
  rw [← h.calls, List.map_map]
  rfl

theorem mem_due (h : s.Taken g job index turns) {turn : Turn W} (hturn : turn ∈ turns) :
    turn.call ∈ s.due index := by
  rw [← h.calls]
  exact List.mem_map_of_mem hturn

theorem exists_turn (h : s.Taken g job index turns) {call : Call W} (hcall : call ∈ s.due index) :
    ∃ turn ∈ turns, turn.call = call := by
  rw [← h.calls] at hcall
  exact List.mem_map.mp hcall

theorem recipient_mem_ids (h : s.Taken g job index turns) {out : Outbound W}
    (hout : out ∈ Turn.sent turns) : out.recipient ∈ g.ids := by
  obtain ⟨turn, hturn, hmem⟩ := List.mem_flatMap.mp hout
  exact Job.recipient_mem_ids (h.acted turn hturn) hmem

theorem message_proper (h : s.Taken g job index turns) (hsound : s.Sound g job count)
    (hcount : 0 < count) {turn : Turn W} (hturn : turn ∈ turns) {m : Message W}
    (hm : turn.message = some m) : Proper m.weight := by
  obtain ⟨box, hrouted⟩ := hsound.routed
  have hdue := h.mem_due hturn
  cases index with
  | zero =>
      have hnone : turn.message = none := ((hrouted.mem_due_zero hcount).mp hdue).2
      rw [hnone] at hm
      cases hm
  | succ index =>
      obtain ⟨m', hm', hwaiting⟩ := hrouted.mem_due_succ.mp hdue
      have heq : m' = m := Option.some.inj (hm'.symm.trans hm)
      subst heq
      exact hsound.mail turn.vertex m' hwaiting

variable [LawfulPathWeight W]

theorem value_proper (h : s.Taken g job index turns) (hsound : s.Sound g job count)
    (hcount : 0 < count) {turn : Turn W} (hturn : turn ∈ turns) :
    Proper turn.result.value.weight := by
  apply Job.act_value_proper (hsound.values turn.vertex) _ (h.acted turn hturn)
  intro m hm
  exact h.message_proper hsound hcount hturn hm

theorem sent_proper (h : s.Taken g job index turns) (hsound : s.Sound g job count)
    (hcount : 0 < count) : SentProper (Turn.sent turns) := by
  intro out hout
  obtain ⟨turn, hturn, hmem⟩ := List.mem_flatMap.mp hout
  refine Job.act_messages_proper (hsound.values turn.vertex) ?_ (h.acted turn hturn) out hmem
  intro m hm
  exact h.message_proper hsound hcount hturn hm

end Taken

namespace Superstep

variable {turns : List (Turn W)}

theorem value_of_turn (h : s.Superstep g job index s' turns) (hsound : s.Sound g job count)
    {turn : Turn W} (hturn : turn ∈ turns) : s'.value turn.vertex = turn.result.value := by
  obtain ⟨box, hrouted⟩ := hsound.routed
  have hdistinct : (turns.map Turn.vertex).Nodup := by
    rw [h.vertices]
    exact hrouted.nodup_due index
  unfold value
  rw [h.labels, Labels.label_settle_of_mem hdistinct hturn]
  rfl

theorem value_of_not_due (h : s.Superstep g job index s' turns) {v : VertexId}
    (hv : v ∉ (s.due index).map Prod.fst) : s'.value v = s.value v := by
  rw [← h.vertices] at hv
  unfold value
  rw [h.labels, Labels.label_settle_of_not_mem hv]

variable [LawfulPathWeight W]

theorem values_proper (h : s.Superstep g job index s' turns) (hsound : s.Sound g job count)
    (hcount : 0 < count) (v : VertexId) : Proper (s'.value v).weight := by
  by_cases hv : v ∈ (s.due index).map Prod.fst
  · rw [← h.vertices] at hv
    obtain ⟨turn, hturn, rfl⟩ := List.mem_map.mp hv
    rw [h.value_of_turn hsound hturn]
    exact h.value_proper hsound hcount hturn
  · rw [h.value_of_not_due hv]
    exact hsound.values v

theorem mail_proper (h : s.Superstep g job index s' turns) (hsound : s.Sound g job count)
    (hcount : 0 < count) {v : VertexId} {m : Message W} (hm : s'.waiting v = some m) :
    Proper m.weight := by
  have hcollects := h.waiting v
  rw [hm] at hcollects
  exact (h.sent_proper hsound hcount).addressed v m hcollects.mem_of_some

end Superstep

section Shifts

variable {shifts : List (Shift W)}

theorem delivered_ofShifts (hempty : ∀ shift ∈ shifts, shift.1.outbox = []) :
    delivered (Round.ofShifts job s shifts).workers = collect (Shift.lots shifts) := by
  unfold delivered collect Shift.lots Round.ofShifts
  rw [List.foldl_map, List.foldl_map]
  apply List.foldl_ext
  intro box shift hshift
  rw [Worker.worked, hempty shift hshift]
  rfl

theorem routed_hand (h : s.Routed g count box) (hworkers : shifts.map Prod.fst = s.workers)
    (hknown : ∀ v ∈ Assoc.keys (collect (Shift.lots shifts)), v ∈ g.ids)
    (hnext : s'.workers =
      (Round.ofShifts job s shifts).workers.map (hand count (collect (Shift.lots shifts)))) :
    s'.Routed g count (collect (Shift.lots shifts)) := by
  have hmem : ∀ worker ∈ s'.workers, ∃ shift ∈ shifts,
      worker = hand count (collect (Shift.lots shifts))
        (shift.1.worked job s.aggregator.merged shift.2) := by
    intro worker hworker
    rw [hnext, Round.ofShifts, List.map_map] at hworker
    obtain ⟨shift, hshift, rfl⟩ := List.mem_map.mp hworker
    exact ⟨shift, hshift, rfl⟩
  refine ⟨?_, ?_, ?_, ?_, nodup_keys_collect (Shift.lots shifts), hknown⟩
  · rw [hnext, ← h.indices, ← hworkers, Round.ofShifts, List.map_map, List.map_map, List.map_map]
    rfl
  · intro worker hworker
    obtain ⟨shift, hshift, rfl⟩ := hmem worker hworker
    refine h.owned shift.1 ?_
    rw [← hworkers]
    exact List.mem_map_of_mem hshift
  · intro worker hworker
    obtain ⟨shift, _, rfl⟩ := hmem worker hworker
    rfl
  · intro worker hworker
    obtain ⟨shift, _, rfl⟩ := hmem worker hworker
    rfl

theorem mem_replicas {v : VertexId} :
    (v ∈ s.aggregator.merged ∨ ∃ worker ∈ (Round.ofShifts job s shifts).workers,
      v ∈ worker.replica) ↔
      v ∈ s.aggregator.merged ∨ v ∈ job.targets.ids ∧ Turn.Called (Shift.turns shifts) v := by
  constructor
  · rintro (hold | ⟨worker, hworker, hmem⟩)
    · exact .inl hold
    · obtain ⟨shift, hshift, rfl⟩ := List.mem_map.mp hworker
      refine (Job.mem_replicaAfter.mp hmem).imp_right ?_
      rintro ⟨htarget, turn, hturn, hcalled⟩
      exact ⟨htarget, turn, List.mem_flatMap.mpr ⟨shift, hshift, hturn⟩, hcalled⟩
  · rintro (hold | ⟨htarget, turn, hturn, hcalled⟩)
    · exact .inl hold
    · obtain ⟨shift, hshift, hmem⟩ := List.mem_flatMap.mp hturn
      refine .inr ⟨_, List.mem_map_of_mem hshift, ?_⟩
      exact Job.mem_replicaAfter.mpr (.inr ⟨htarget, turn, hmem, hcalled⟩)

/-- The state after a barrier at which the merge gave the set. -/
def settled (s : State W) (index : Nat) (round : Round W) (merged : IdSet) : State W :=
  let box := delivered round.workers
  let stats : Stats :=
    { superstep := index
      active := round.active
      sent := round.sent
      delivered := box.length
      adoptions := round.adoptions
      reached := merged.length }
  { labels := round.labels
    workers := round.workers.map (hand round.workers.length box)
    aggregator := { s.aggregator with merged }
    counters := s.counters.add stats
    history := s.history ++ [stats]
    events := round.events ++ [.finished stats] }

/-- A barrier to which no worker brings anything but targets does not fail. -/
theorem barrier_eq (index : Nat) {round : Round W} (hclean : s.aggregator.Clean job.targets)
    (hreplicas : ∀ worker ∈ round.workers, ∀ id ∈ worker.replica, id ∈ job.targets.ids) :
    ∃ merged : IdSet, merged.Increasing ∧
      (∀ id, id ∈ merged ↔
        id ∈ s.aggregator.merged ∨ ∃ worker ∈ round.workers, id ∈ worker.replica) ∧
      s.barrier index round = .ok (s.settled index round merged) := by
  have hlots : ∀ lot ∈ round.workers.map Worker.replica, ∀ id ∈ lot, id ∈ job.targets.ids := by
    intro lot hlot
    obtain ⟨worker, hworker, rfl⟩ := List.mem_map.mp hlot
    exact hreplicas worker hworker
  obtain ⟨merged, hmerge, hincreasing, hmem⟩ := hclean.merge hlots
  refine ⟨merged, hincreasing, ?_, ?_⟩
  · intro id
    simp only [hmem, List.mem_map, exists_exists_and_eq_and]
  · rw [List.foldl_map] at hmerge
    simp only [barrier, barrierBy, byHash, hmerge, settled]

theorem barrier_ofShifts (index : Nat) (shifts : List (Shift W))
    (hclean : s.aggregator.Clean job.targets) :
    ∃ merged : IdSet, merged.Increasing ∧
      (∀ v, v ∈ merged ↔
        v ∈ s.aggregator.merged ∨ v ∈ job.targets.ids ∧ Turn.Called (Shift.turns shifts) v) ∧
      s.barrier index (.ofShifts job s shifts) =
        .ok (s.settled index (.ofShifts job s shifts) merged) := by
  have htargets : ∀ worker ∈ (Round.ofShifts job s shifts).workers, ∀ v ∈ worker.replica,
      v ∈ job.targets.ids := by
    intro worker hworker v hv
    exact (mem_replicas.mp (.inr ⟨worker, hworker, hv⟩)).elim (hclean.merged v) And.left
  obtain ⟨merged, hincreasing, hmerged, hbarrier⟩ := barrier_eq index hclean htargets
  exact ⟨merged, hincreasing, fun v => (hmerged v).trans mem_replicas, hbarrier⟩

/-- A superstep that does not fail is made of shifts. -/
theorem exists_works (hsound : s.Sound g job count) (h : s.superstep g job index = .ok s') :
    ∃ shifts, s.Works g job index shifts := by
  obtain ⟨box, hrouted⟩ := hsound.routed
  unfold superstep at h
  obtain ⟨round, hround, _⟩ := bind_eq_ok.mp h
  obtain ⟨shifts, hworks, _⟩ := round_ok (hrouted.nodup_due index) hround
  exact ⟨shifts, hworks⟩

namespace Works

/-- The mail after the barrier is what was delivered, and that is what the workers sent. -/
theorem routed_settled [LawfulPathWeight W] (h : s.Works g job index shifts)
    (hcount : 0 < count) (hsound : s.Sound g job count) (merged : IdSet) :
    (s.settled index (.ofShifts job s shifts) merged).Routed g count
        (delivered (Round.ofShifts job s shifts).workers) ∧
      Holds (delivered (Round.ofShifts job s shifts).workers) (Turn.sent (Shift.turns shifts)) := by
  obtain ⟨box, hrouted⟩ := hsound.routed
  have hempty : ∀ shift ∈ shifts, shift.1.outbox = [] := by
    intro shift hshift
    apply hrouted.outboxes shift.1
    rw [← h.workers]
    exact List.mem_map_of_mem hshift
  have hlength : (Round.ofShifts job s shifts).workers.length = count := by
    rw [← hrouted.length_workers, ← h.workers, Round.ofShifts, List.length_map, List.length_map]
  have hholds : Holds (collect (Shift.lots shifts)) (Turn.sent (Shift.turns shifts)) := by
    have hsent : SentProper (Turn.sent (Shift.turns shifts)) := h.taken.sent_proper hsound hcount
    rw [← Shift.flatten_lots] at hsent ⊢
    apply holds_collect
    intro lot hlot out hout
    exact hsent out (List.mem_flatten_of_mem hlot hout)
  have hknown : ∀ v ∈ Assoc.keys (collect (Shift.lots shifts)), v ∈ g.ids := by
    intro v hv
    obtain ⟨out, hout, rfl⟩ := hholds.exists_sent (nodup_keys_collect _) hv
    exact h.taken.recipient_mem_ids hout
  rw [settled, delivered_ofShifts hempty, hlength]
  exact ⟨routed_hand hrouted h.workers hknown rfl, hholds⟩

/-- Shifts that can be worked make a superstep of their turns, and leave a sound state. -/
theorem superstep [LawfulPathWeight W] (h : s.Works g job index shifts) (hcount : 0 < count)
    (hsound : s.Sound g job count) :
    ∃ s', s.superstep g job index = .ok s' ∧ s'.workers.map Worker.replica =
        shifts.map (fun shift => job.replicaAfter s.aggregator.merged shift.2) ∧
      s.Superstep g job index s' (Shift.turns shifts) ∧ s'.Sound g job count := by
  obtain ⟨box, hrouted⟩ := hsound.routed
  obtain ⟨merged, hincreasing, hmerged, hbarrier⟩ := barrier_ofShifts index shifts hsound.clean
  obtain ⟨hafter, hholds⟩ := h.routed_settled hcount hsound merged
  refine ⟨_, bind_eq_ok.mpr ⟨_, round_of_works (hrouted.nodup_due index) h, hbarrier⟩, ?_, ?_⟩
  · rw [settled, Round.ofShifts, List.map_map, List.map_map]
    rfl
  generalize hs' : s.settled index (.ofShifts job s shifts) merged = s' at hafter
  have hmerged' : s'.aggregator.merged = merged := by rw [← hs', settled]
  have hstep : s.Superstep g job index s' (Shift.turns shifts) := by
    refine { h.taken with
      labels := ?_, waiting := ?_, reached := ?_, counters := ?_, history := ?_ }
    · rw [← hs', settled, Round.ofShifts]
    · intro v
      rw [hafter.waiting_eq hcount]
      exact hholds v
    · intro v
      rw [hmerged', hmerged]
    · rw [stats, hafter.pending_eq hcount, hmerged', ← hs']
      rfl
    · rw [stats, hafter.pending_eq hcount, hmerged', ← hs']
      rfl
  refine ⟨hstep, ⟨_, hafter⟩, ?_, hstep.values_proper hsound hcount, ?_⟩
  · rw [← hs']
    refine hsound.clean.merged_clean ?_ hincreasing
    intro v hv
    exact ((hmerged v).mp hv).elim (hsound.clean.merged v) And.left
  · intro v m hm
    exact hstep.mail_proper hsound hcount hm

end Works

/-- A superstep that does not fail is one of the vertices, and leaves a sound state. -/
theorem superstep_ok [LawfulPathWeight W] (hcount : 0 < count) (hsound : s.Sound g job count)
    (h : s.superstep g job index = .ok s') :
    ∃ turns, s.Superstep g job index s' turns ∧ s'.Sound g job count := by
  obtain ⟨shifts, hworks⟩ := exists_works hsound h
  obtain ⟨_, hstep, _, hturns⟩ := hworks.superstep hcount hsound
  obtain rfl := Except.ok.inj (h.symm.trans hstep)
  exact ⟨_, hturns⟩

/-- After turns that were taken the barrier does not fail. -/
theorem exists_settled {round : Round W} (hsound : s.Sound g job count)
    (h : s.round g job index = .ok round) :
    ∃ merged, s.barrier index round = .ok (s.settled index round merged) := by
  obtain ⟨box, hrouted⟩ := hsound.routed
  obtain ⟨shifts, _, rfl⟩ := round_ok (hrouted.nodup_due index) h
  obtain ⟨merged, _, _, hbarrier⟩ := barrier_ofShifts index shifts hsound.clean
  exact ⟨merged, hbarrier⟩

/-- A superstep fails as one of its calls does. -/
theorem exists_call_of_error {aborted : Aborted W} (hsound : s.Sound g job count)
    (h : s.superstep g job index = .error aborted) :
    ∃ call ∈ s.due index, ∃ replica,
      job.act g call (s.value call.1) replica = .error aborted.fault := by
  obtain ⟨box, hrouted⟩ := hsound.routed
  unfold superstep at h
  rcases bind_eq_error.mp h with hround | ⟨round, hround, h⟩
  · exact round_error (hrouted.nodup_due index) hround
  · obtain ⟨_, hbarrier⟩ := exists_settled hsound hround
    cases h.symm.trans hbarrier

/-- Nothing but the weight of an edge makes a superstep fail. The edge leaves the source, in the
first superstep, or a vertex that would adopt its message. -/
theorem exists_edge_of_error [LawfulPathWeight W] {aborted : Aborted W} (hcount : 0 < count)
    (hsound : s.Sound g job count) (h : s.superstep g job index = .error aborted) :
    ∃ v edges edge, g.edges? v = some edges ∧ edge ∈ edges ∧
      job.weigh edge = .error aborted.fault ∧
      (index = 0 ∧ v = job.source ∨
        ∃ m, s.waiting v = some m ∧ less m.weight (s.value v).weight) := by
  obtain ⟨box, hrouted⟩ := hsound.routed
  obtain ⟨⟨v, message⟩, hcall, replica, hact⟩ := exists_call_of_error hsound h
  obtain ⟨edges, hedges⟩ := g.exists_edges (hrouted.mem_ids_of_due hcount hcall)
  simp only [Job.act, hedges] at hact
  cases index with
  | zero =>
      obtain ⟨_, hnone⟩ := (hrouted.mem_due_zero hcount).mp hcall
      simp only at hnone
      subst hnone
      obtain ⟨hsource, edge, hedge, hweigh⟩ := Job.init_error hact
      exact ⟨v, edges, edge, hedges, hedge, hweigh, .inl ⟨rfl, hsource⟩⟩
  | succ index =>
      obtain ⟨m, hm, hwaiting⟩ := hrouted.mem_due_succ.mp hcall
      simp only at hm
      subst hm
      obtain ⟨hbetter, edge, hedge, hweigh⟩ :=
        Job.step_error (hsound.mail v m hwaiting) (hsound.values v) hact
      exact ⟨v, edges, edge, hedges, hedge, hweigh, .inr ⟨m, hwaiting, hbetter⟩⟩

theorem superstep_error [LawfulPathWeight W] {aborted : Aborted W} (hcount : 0 < count)
    (hsound : s.Sound g job count) (h : s.superstep g job index = .error aborted) :
    job.Rejects g aborted.fault := by
  obtain ⟨v, edges, edge, hedges, hedge, hweigh, _⟩ := exists_edge_of_error hcount hsound h
  exact ⟨v, edges, edge, hedges, hedge, hweigh⟩

end Shifts

end State

end BulkPaths
