import BulkPaths.Proofs.Rounds

/-!
# Routing

Between two supersteps the mail is divided among the workers as the vertices are, by the hash of
the identifier. So a worker finds the messages for its own vertices and for no others, each message
is found by one worker, and the round that follows calls every vertex at most once.
-/

namespace BulkPaths

open Message

variable {W : Type}

theorem VertexId.owner_lt {count : Nat} (hcount : 0 < count) (v : VertexId) :
    v.owner count < count := by
  unfold owner
  split
  case h_1 checksum _ =>
    rw [workerOf, if_neg (Nat.ne_of_gt hcount)]
    exact Nat.mod_lt checksum hcount
  case h_2 => exact hcount

namespace Mailbox

/-- The messages for the vertices of one worker. -/
def share (count : Nat) (box : Mailbox W) (index : Nat) : Mailbox W :=
  box.filter fun delivery => delivery.1.owner count == index

theorem get?_share (count : Nat) (box : Mailbox W) (index : Nat) (v : VertexId) :
    Assoc.get? v (box.share count index) =
      if v.owner count = index then Assoc.get? v box else none := by
  have h := Assoc.get?_filter (fun id : VertexId => id.owner count == index) v box
  simpa [share] using h

theorem get?_flatMap_share (count : Nat) (box : Mailbox W) (indices : List Nat) (v : VertexId) :
    Assoc.get? v (indices.flatMap (box.share count)) =
      if v.owner count ∈ indices then Assoc.get? v box else none := by
  induction indices with
  | nil => rfl
  | cons index indices ih =>
      rw [List.flatMap_cons, Assoc.get?_append, get?_share, ih]
      by_cases hown : v.owner count = index
      · by_cases hlater : index ∈ indices <;> simp [hown, hlater]
      · simp [hown, List.mem_cons]

theorem length_flatMap_share (count : Nat) (box : Mailbox W) (n : Nat) :
    ((List.range n).flatMap (box.share count)).length =
      (box.filter fun delivery => delivery.1.owner count < n).length := by
  induction n with
  | zero => simp
  | succ n ih =>
      rw [List.range_succ, List.flatMap_append, List.length_append, ih, List.flatMap_singleton,
        share]
      clear ih
      induction box with
      | nil => rfl
      | cons delivery box ih =>
          simp only [List.filter_cons, decide_eq_true_eq, beq_iff_eq]
          rcases Nat.lt_trichotomy (delivery.1.owner count) n with h | h | h
          · have h' : delivery.1.owner count < n + 1 := by omega
            rw [if_pos h, if_neg (Nat.ne_of_lt h), if_pos h']
            simp only [List.length_cons]
            omega
          · have h' : delivery.1.owner count < n + 1 := by omega
            rw [if_neg (Nat.not_lt_of_le (Nat.le_of_eq h.symm)), if_pos h, if_pos h']
            simp only [List.length_cons]
            omega
          · have h' : ¬ delivery.1.owner count < n + 1 := by omega
            rw [if_neg (Nat.not_lt_of_gt h), if_neg (Nat.ne_of_gt h), if_neg h']
            exact ih

end Mailbox

namespace State

def waiting (s : State W) (v : VertexId) : Option (Message W) :=
  Assoc.get? v (s.workers.flatMap Worker.inbox)

def value [PathWeight W] (s : State W) (v : VertexId) : PathValue W := (s.labels.label v).value

/-- The calls of the next superstep, worker by worker. -/
def due (index : Nat) (s : State W) : List (Call W) := s.workers.flatMap (Worker.due index)

/-- The workers after a barrier, at which the mail was that of the box. -/
structure Routed (g : PropertyGraph) (count : Nat) (box : Mailbox W) (s : State W) : Prop where
  indices : s.workers.map Worker.index = List.range count
  owned : ∀ worker ∈ s.workers,
    worker.owned = g.ids.filter fun id => id.owner count == worker.index
  inboxes : ∀ worker ∈ s.workers, worker.inbox = box.share count worker.index
  outboxes : ∀ worker ∈ s.workers, worker.outbox = []
  distinct : (Assoc.keys box).Nodup
  known : ∀ v ∈ Assoc.keys box, v ∈ g.ids

theorem pending_eq_zero {s : State W} : s.pending = 0 ↔ ∀ v, s.waiting v = none := by
  unfold pending waiting
  rw [List.length_eq_zero_iff]
  constructor
  · intro h v
    rw [h]
    rfl
  · intro h
    cases hmail : s.workers.flatMap Worker.inbox with
    | nil => rfl
    | cons entry rest =>
        have hnone := h entry.1
        rw [hmail] at hnone
        simp [Assoc.get?] at hnone

namespace Routed

variable {g : PropertyGraph} {count : Nat} {box : Mailbox W} {s : State W}

theorem start [PathWeight W] (g : PropertyGraph) (targets : Targets) (count : Nat)
    (events : List Event) : Routed g count [] (State.start g targets count events : State W) where
  indices := by simp [State.start, Worker.start, Function.comp_def]
  owned := by simp [State.start, Worker.start]
  inboxes := by simp [State.start, Worker.start, Mailbox.share]
  outboxes := by simp [State.start, Worker.start]
  distinct := .nil
  known := by simp [Assoc.keys]

theorem length_workers (h : Routed g count box s) : s.workers.length = count := by
  have hlength := congrArg List.length h.indices
  rwa [List.length_map, List.length_range] at hlength

theorem mail_eq (h : Routed g count box s) :
    s.workers.flatMap Worker.inbox = (List.range count).flatMap (box.share count) := by
  rw [← h.indices, List.flatMap_map]
  exact List.flatMap_congr h.inboxes

theorem waiting_eq (h : Routed g count box s) (hcount : 0 < count) (v : VertexId) :
    s.waiting v = Assoc.get? v box := by
  unfold waiting
  rw [h.mail_eq, Mailbox.get?_flatMap_share, if_pos]
  exact List.mem_range.mpr (v.owner_lt hcount)

theorem mem_ids_of_waiting (h : Routed g count box s) (hcount : 0 < count) {v : VertexId}
    {m : Message W} (hm : s.waiting v = some m) : v ∈ g.ids := by
  rw [h.waiting_eq hcount] at hm
  exact h.known v (Assoc.mem_keys_of_get? hm)

theorem pending_eq (h : Routed g count box s) (hcount : 0 < count) : s.pending = box.length := by
  unfold pending
  rw [h.mail_eq, Mailbox.length_flatMap_share, List.filter_eq_self.mpr]
  intro delivery _
  simpa using delivery.1.owner_lt hcount

theorem owner_of_due (h : Routed g count box s) {index : Nat} {worker : Worker W}
    (hworker : worker ∈ s.workers) {call : Call W} (hcall : call ∈ worker.due index) :
    call.1.owner count = worker.index := by
  unfold Worker.due at hcall
  split at hcall
  case isTrue =>
    rw [h.owned worker hworker] at hcall
    obtain ⟨id, hid, rfl⟩ := List.mem_map.mp hcall
    simpa using (List.mem_filter.mp hid).2
  case isFalse =>
    rw [h.inboxes worker hworker] at hcall
    obtain ⟨delivery, hdelivery, rfl⟩ := List.mem_map.mp hcall
    simpa using (List.mem_filter.mp hdelivery).2

theorem nodup_worker_due (h : Routed g count box s) (index : Nat) {worker : Worker W}
    (hworker : worker ∈ s.workers) : ((worker.due index).map Prod.fst).Nodup := by
  unfold Worker.due
  split
  case isTrue =>
    rw [h.owned worker hworker, List.map_map, Function.comp_def, List.map_id']
    exact g.distinct.filter _
  case isFalse =>
    rw [h.inboxes worker hworker, List.map_map]
    exact (List.filter_sublist.map Prod.fst).nodup h.distinct

theorem nodup_due (h : Routed g count box s) (index : Nat) :
    ((s.due index).map Prod.fst).Nodup := by
  unfold due
  rw [List.map_flatMap, List.nodup_flatMap]
  refine ⟨fun worker hworker => h.nodup_worker_due index hworker, ?_⟩
  have hindices : (s.workers.map Worker.index).Nodup := by
    rw [h.indices]
    exact List.nodup_range
  rw [List.Nodup, List.pairwise_map] at hindices
  apply hindices.imp_of_mem
  intro worker other hworker hother hne v hv hv'
  obtain ⟨call, hcall, rfl⟩ := List.mem_map.mp hv
  obtain ⟨call', hcall', heq⟩ := List.mem_map.mp hv'
  have hown := h.owner_of_due hworker hcall
  have hown' := h.owner_of_due hother hcall'
  rw [heq, hown] at hown'
  exact hne hown'

theorem mem_due_zero (h : Routed g count box s) (hcount : 0 < count) {call : Call W} :
    call ∈ s.due 0 ↔ call.1 ∈ g.ids ∧ call.2 = none := by
  simp only [due, Worker.due, if_true, List.mem_flatMap, List.mem_map]
  constructor
  · rintro ⟨worker, hworker, id, hid, rfl⟩
    rw [h.owned worker hworker] at hid
    exact ⟨(List.mem_filter.mp hid).1, rfl⟩
  · rintro ⟨hid, hnone⟩
    have hown : call.1.owner count ∈ s.workers.map Worker.index := by
      rw [h.indices]
      exact List.mem_range.mpr (call.1.owner_lt hcount)
    obtain ⟨worker, hworker, hindex⟩ := List.mem_map.mp hown
    refine ⟨worker, hworker, call.1, ?_, Prod.ext rfl hnone.symm⟩
    rw [h.owned worker hworker]
    exact List.mem_filter.mpr ⟨hid, by simp [hindex]⟩

theorem nodup_mail (h : Routed g count box s) :
    (Assoc.keys (s.workers.flatMap Worker.inbox)).Nodup := by
  have hdue := h.nodup_due 1
  simpa [due, Worker.due, Assoc.keys, List.map_flatMap, Function.comp_def] using hdue

/-- Later supersteps call the vertices for which a message waits. -/
theorem mem_due_succ (h : Routed g count box s) {index : Nat} {call : Call W} :
    call ∈ s.due (index + 1) ↔ ∃ m, call.2 = some m ∧ s.waiting call.1 = some m := by
  have hmem : call ∈ s.due (index + 1) ↔
      ∃ m, call.2 = some m ∧ (call.1, m) ∈ s.workers.flatMap Worker.inbox := by
    simp only [due, Worker.due, Nat.succ_ne_zero, if_false, List.mem_flatMap, List.mem_map]
    constructor
    · rintro ⟨worker, hworker, delivery, hdelivery, rfl⟩
      exact ⟨_, rfl, worker, hworker, hdelivery⟩
    · rintro ⟨m, hm, worker, hworker, hdelivery⟩
      exact ⟨worker, hworker, _, hdelivery, Prod.ext rfl hm.symm⟩
  rw [hmem]
  refine exists_congr fun m => and_congr_right fun _ => ?_
  exact ⟨Assoc.get?_of_mem h.nodup_mail, Assoc.mem_of_get?⟩

theorem mem_ids_of_due (h : Routed g count box s) (hcount : 0 < count) {index : Nat}
    {call : Call W} (hcall : call ∈ s.due index) : call.1 ∈ g.ids := by
  cases index with
  | zero => exact ((h.mem_due_zero hcount).mp hcall).1
  | succ index =>
      obtain ⟨m, _, hm⟩ := h.mem_due_succ.mp hcall
      exact h.mem_ids_of_waiting hcount hm

end Routed

end State

end BulkPaths
