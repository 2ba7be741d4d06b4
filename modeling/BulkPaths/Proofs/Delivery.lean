import BulkPaths.Proofs.Counterparts
import BulkPaths.Proofs.Outcomes

/-!
# Delivery

The workers combine what they send to the same vertex, and at the barrier what they have is combined
once more and handed out. Of this nothing shows afterwards: whoever sent to a vertex, in whatever
order, its owner has one message for it, the combination of them all, and nobody else has any. The
next superstep calls the vertices that have one.
-/

namespace BulkPaths

open Message Mailbox

variable {W : Type}

namespace Worker

/-- The messages that the worker has for the vertex. -/
def mail (worker : Worker W) (v : VertexId) : List (Message W) :=
  (worker.inbox.filter fun delivery => delivery.1 = v).map Prod.snd

theorem mail_eq_toList {worker : Worker W} (hdistinct : (Assoc.keys worker.inbox).Nodup)
    (v : VertexId) : worker.mail v = (Assoc.get? v worker.inbox).toList := by
  rw [mail, Assoc.filter_key v hdistinct]
  cases Assoc.get? v worker.inbox <;> rfl

end Worker

namespace State

/-- After a barrier every vertex that was sent messages has one, the combination of them all, with
the worker that owns the vertex; nothing else is in any inbox or outbox. -/
structure Delivers [PathWeight W] (g : PropertyGraph) (count : Nat) (sent : List (Outbound W))
    (s : State W) : Prop where
  indices : s.workers.map Worker.index = List.range count
  owned : ∀ worker ∈ s.workers, ∀ v, v ∈ worker.owned ↔ v ∈ g.ids ∧ v.owner count = worker.index
  once : ∀ v, addressed v sent ≠ [] → ∃ m before worker after,
    (∀ order, order.Perm (addressed v sent) → combineAll order = some m) ∧
      s.workers = before ++ worker :: after ∧ v ∈ worker.owned ∧ worker.mail v = [m] ∧
      ∀ other ∈ before ++ after, v ∉ other.owned ∧ other.mail v = []
  unsent : ∀ v, addressed v sent = [] → ∀ worker ∈ s.workers, worker.mail v = []
  outboxes : ∀ worker ∈ s.workers, worker.outbox = []

variable {g : PropertyGraph} {count : Nat} {box : Mailbox W} {s s' : State W} {v : VertexId}

namespace Routed

theorem mem_owned (h : Routed g count box s) {worker : Worker W} (hworker : worker ∈ s.workers) :
    v ∈ worker.owned ↔ v ∈ g.ids ∧ v.owner count = worker.index := by
  rw [h.owned worker hworker, List.mem_filter, beq_iff_eq]

theorem mail_eq_ite (h : Routed g count box s) (hcount : 0 < count) {worker : Worker W}
    (hworker : worker ∈ s.workers) :
    worker.mail v = if v.owner count = worker.index then (s.waiting v).toList else [] := by
  have hinbox := h.inboxes worker hworker
  have hdistinct : (Assoc.keys worker.inbox).Nodup := by
    rw [hinbox]
    exact (List.filter_sublist.map Prod.fst).nodup h.distinct
  rw [Worker.mail_eq_toList hdistinct, hinbox, get?_share, h.waiting_eq hcount]
  split <;> rfl

/-- One worker owns the vertex, and the others do not. -/
theorem exists_owner (h : Routed g count box s) (hcount : 0 < count) (v : VertexId) :
    ∃ before worker after, s.workers = before ++ worker :: after ∧
      v.owner count = worker.index ∧ ∀ other ∈ before ++ after, v.owner count ≠ other.index := by
  have howner : v.owner count ∈ s.workers.map Worker.index := by
    rw [h.indices]
    exact List.mem_range.mpr (v.owner_lt hcount)
  obtain ⟨worker, hworker, hindex⟩ := List.mem_map.mp howner
  obtain ⟨before, after, hsplit⟩ := List.append_of_mem hworker
  have hdistinct : (s.workers.map Worker.index).Nodup := by
    rw [h.indices]
    exact List.nodup_range
  rw [hsplit, List.map_append, List.map_cons, List.nodup_middle, List.nodup_cons,
    ← List.map_append] at hdistinct
  refine ⟨before, worker, after, hsplit, hindex.symm, fun other hother hsame => ?_⟩
  exact hdistinct.1 (List.mem_map.mpr ⟨other, hother, (hindex.trans hsame).symm⟩)

end Routed

variable [PathWeight W] {job : Job W} {limits : Limits} {index k : Nat} {turns : List (Turn W)}
  {shifts : List (Shift W)}

theorem Superstep.delivers [LawfulPathWeight W] (h : s.Superstep g job index s' turns)
    (hcount : 0 < count) (hs : s.Sound g job count) (hs' : s'.Sound g job count) :
    s'.Delivers g count (Turn.sent turns) := by
  obtain ⟨box, hrouted⟩ := hs'.routed
  refine ⟨hrouted.indices, fun worker hworker v => hrouted.mem_owned hworker, ?_, ?_,
    hrouted.outboxes⟩
  · intro v hsent
    obtain ⟨m, hm⟩ := List.exists_mem_of_ne_nil _ hsent
    obtain ⟨best, hbest, _⟩ := (h.waiting v).exists_of_mem hm
    obtain ⟨before, worker, after, hsplit, howner, hothers⟩ := hrouted.exists_owner hcount v
    have hworker : worker ∈ s'.workers := by simp [hsplit]
    have hcombined : ∀ order, order.Perm (addressed v (Turn.sent turns)) →
        combineAll order = some best := by
      intro order horder
      rw [← hbest]
      exact (h.waiting v).combineAll_eq ((h.sent_proper hs hcount).addressed v) horder
    refine ⟨best, before, worker, after, hcombined, hsplit,
      (hrouted.mem_owned hworker).mpr ⟨hs'.mem_ids_of_waiting hcount hbest, howner⟩, ?_, ?_⟩
    · rw [hrouted.mail_eq_ite hcount hworker, if_pos howner, hbest]
      rfl
    · intro other hother
      have hmem : other ∈ s'.workers := by
        rw [hsplit]
        exact List.mem_append.mpr ((List.mem_append.mp hother).imp_right (List.mem_cons_of_mem _))
      rw [hrouted.mem_owned hmem, hrouted.mail_eq_ite hcount hmem, if_neg (hothers other hother)]
      exact ⟨fun howned => hothers other hother howned.2, rfl⟩
  · intro v hnone worker hworker
    have hempty := h.waiting v
    rw [hnone] at hempty
    have hwaiting : s'.waiting v = none := hempty.unique (by simp [AllProper]) .nil
    rw [hrouted.mail_eq_ite hcount hworker, hwaiting]
    split <;> rfl

/-- The turns of a later superstep are those of the deliveries. -/
theorem Works.mem_calls (h : s.Works g job (k + 1) shifts) {call : Call W} :
    call ∈ (Shift.turns shifts).map Turn.call ↔
      ∃ m, call.2 = some m ∧ ∃ worker ∈ s.workers, (call.1, m) ∈ worker.inbox := by
  rw [h.taken.calls]
  simp only [due, Worker.due, Nat.succ_ne_zero, if_false, List.mem_flatMap, List.mem_map]
  constructor
  · rintro ⟨worker, hworker, delivery, hdelivery, rfl⟩
    exact ⟨delivery.2, rfl, worker, hworker, hdelivery⟩
  · rintro ⟨m, hm, worker, hworker, hdelivery⟩
    exact ⟨worker, hworker, _, hdelivery, Prod.ext rfl hm.symm⟩

theorem Works.nodup_vertices {count : Nat} (h : s.Works g job index shifts)
    (hs : s.Sound g job count) : ((Shift.turns shifts).map Turn.vertex).Nodup := by
  obtain ⟨_, hrouted⟩ := hs.routed
  rw [h.taken.vertices]
  exact hrouted.nodup_due index

end State

namespace Run

variable [PathWeight W] [LawfulPathWeight W] {g : PropertyGraph} {job : Job W} {limits : Limits}
  {k : Nat} {s s' : State W}

/-- What the workers send in a superstep is delivered exactly once, combined: the superstep is made
of the turns that its workers take, each recipient of a turn's messages has the combination of all
that was sent to it, with its owner, and the turns of the next superstep are those of the
recipients, one each. -/
theorem delivered_once (h : Ready g job limits k s) (hstep : s.superstep g job k = .ok s') :
    ∃ shifts, s.Works g job k shifts ∧ s.round g job k = .ok (.ofShifts job s shifts) ∧
      s'.Delivers g limits.workers (Turn.sent (Shift.turns shifts)) ∧
      ∀ s'', s'.superstep g job (k + 1) = .ok s'' → ∃ shifts', s'.Works g job (k + 1) shifts' ∧
        ((Shift.turns shifts').map Turn.vertex).Nodup ∧
          ∀ call, call ∈ (Shift.turns shifts').map Turn.call ↔
            ∃ m, call.2 = some m ∧ ∃ worker ∈ s'.workers, (call.1, m) ∈ worker.inbox := by
  obtain ⟨shifts, hworks⟩ := State.exists_works h.sound hstep
  obtain ⟨_, hrouted⟩ := h.sound.routed
  obtain ⟨_, hfound, _, hturns, hsound⟩ := hworks.superstep limits.staffed h.sound
  obtain rfl := Except.ok.inj (hstep.symm.trans hfound)
  refine ⟨shifts, hworks, State.round_of_works (hrouted.nodup_due k) hworks,
    hturns.delivers limits.staffed h.sound hsound, fun s'' hnext => ?_⟩
  obtain ⟨shifts', hworks'⟩ := State.exists_works hsound hnext
  exact ⟨shifts', hworks', hworks'.nodup_vertices hsound, fun call => hworks'.mem_calls⟩

theorem delivered_once_diamond :
    ∃ s s' shifts, Ready diamond diamondJob diamondLimits 1 s ∧
      s.superstep diamond diamondJob 1 = .ok s' ∧ s'.pending ≠ 0 ∧
      s.Works diamond diamondJob 1 shifts ∧
      s'.Delivers diamond 2 (Turn.sent (Shift.turns shifts)) := by
  obtain ⟨_, hlast⟩ := diamond_boundary
  cases hlast with
  | @next _ s' _ before goes _ =>
      cases before with
      | @next _ s _ before _ step =>
          obtain ⟨shifts, hworks, _, hdelivers, _⟩ := delivered_once (.later before) step
          exact ⟨s, s', shifts, .later before, step, goes.pending, hworks, hdelivers⟩

end Run

end BulkPaths
