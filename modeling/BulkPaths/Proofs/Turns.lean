import BulkPaths.Proofs.Mailboxes
import BulkPaths.Proofs.VertexSteps
import Mathlib.Data.List.Nodup

/-!
# Turns

Within a superstep every vertex that is due takes one turn. A turn reads the value that the vertex
had before the superstep and the replica of its worker, and nothing else, so a superstep is
determined by its turns. The statements about workers and rounds say which turns were taken and
what they add up to.
-/

namespace BulkPaths

variable {W : Type}

/-- A vertex that is due, with its message; there is none in the first superstep. -/
abbrev Call (W : Type) := VertexId × Option (Message W)

structure Turn (W : Type) where
  vertex : VertexId
  message : Option (Message W)
  /-- The replica of the worker, before the vertex is enrolled. -/
  replica : IdSet
  result : StepResult W

namespace Turn

def call (turn : Turn W) : Call W := (turn.vertex, turn.message)

def sent (turns : List (Turn W)) : List (Outbound W) :=
  turns.flatMap fun turn => turn.result.messages

def adoptions (turns : List (Turn W)) : Nat :=
  turns.foldr (fun turn count => turn.result.adoptions + count) 0

def notes (worker : Nat) (turns : List (Turn W)) : List Event :=
  turns.flatMap fun turn => (turn.result.note.map (Event.note worker)).toList

variable (turn : Turn W) (turns : List (Turn W))

theorem sent_cons : sent (turn :: turns) = turn.result.messages ++ sent turns := List.flatMap_cons

theorem adoptions_cons : adoptions (turn :: turns) = turn.result.adoptions + adoptions turns := rfl

theorem notes_cons (worker : Nat) :
    notes worker (turn :: turns) =
      (turn.result.note.map (Event.note worker)).toList ++ notes worker turns :=
  List.flatMap_cons

theorem sent_append (more : List (Turn W)) : sent (turns ++ more) = sent turns ++ sent more :=
  List.flatMap_append

theorem adoptions_append (more : List (Turn W)) :
    adoptions (turns ++ more) = adoptions turns + adoptions more := by
  induction turns with
  | nil => exact (Nat.zero_add _).symm
  | cons turn turns ih => rw [List.cons_append, adoptions_cons, adoptions_cons, ih, Nat.add_assoc]

theorem adoptions_eq_zero (h : ∀ turn ∈ turns, turn.result.adoptions = 0) :
    adoptions turns = 0 := by
  induction turns with
  | nil => rfl
  | cons turn turns ih =>
      obtain ⟨hfirst, hrest⟩ := List.forall_mem_cons.mp h
      rw [adoptions_cons, hfirst, ih hrest]

end Turn

def Labels.settle (labels : Labels W) (turns : List (Turn W)) : Labels W :=
  turns.foldl (fun labels turn => labels.set turn.vertex (Job.settled turn.result)) labels

namespace Labels

theorem settle_cons (labels : Labels W) (turn : Turn W) (turns : List (Turn W)) :
    labels.settle (turn :: turns) =
      (labels.set turn.vertex (Job.settled turn.result)).settle turns := rfl

theorem settle_append (labels : Labels W) (turns more : List (Turn W)) :
    labels.settle (turns ++ more) = (labels.settle turns).settle more :=
  List.foldl_append

theorem keys_set {labels : Labels W} {v : VertexId} (hv : v ∈ Assoc.keys labels)
    (label : Label W) : Assoc.keys (labels.set v label) = Assoc.keys labels := by
  rw [Labels.set, Assoc.keys_put, if_pos hv]

theorem keys_settle {labels : Labels W} {turns : List (Turn W)}
    (hknown : ∀ turn ∈ turns, turn.vertex ∈ Assoc.keys labels) :
    Assoc.keys (labels.settle turns) = Assoc.keys labels := by
  induction turns generalizing labels with
  | nil => rfl
  | cons turn turns ih =>
      obtain ⟨hfirst, hrest⟩ := List.forall_mem_cons.mp hknown
      have hkeys := keys_set hfirst (Job.settled turn.result)
      rw [settle_cons, ih (hkeys ▸ hrest), hkeys]

/-- Turns of different vertices that have labels may be settled in any order. -/
theorem settle_eq_of_perm {labels : Labels W} {turns turns' : List (Turn W)}
    (hperm : turns.Perm turns') (hdistinct : (turns.map Turn.vertex).Nodup)
    (hknown : ∀ turn ∈ turns, turn.vertex ∈ Assoc.keys labels) :
    labels.settle turns = labels.settle turns' := by
  induction hperm generalizing labels with
  | nil => rfl
  | cons turn _ ih =>
      rw [List.map_cons, List.nodup_cons] at hdistinct
      apply ih hdistinct.2
      intro later hlater
      exact (Assoc.mem_keys_put ..).mpr (.inr (hknown later (List.mem_cons_of_mem _ hlater)))
  | swap first second rest =>
      simp only [List.map_cons, List.nodup_cons, List.mem_cons, not_or] at hdistinct
      have hfirst := hknown first (List.mem_cons_of_mem _ List.mem_cons_self)
      exact congrArg (Labels.settle · rest) (Assoc.put_comm (Ne.symm hdistinct.1.1) hfirst _ _)
  | trans hleft _ ih ih' =>
      exact (ih hdistinct hknown).trans (ih' ((hleft.map _).nodup hdistinct)
        fun turn hturn => hknown turn (hleft.mem_iff.mpr hturn))

end Labels

variable [PathWeight W]

namespace Job

def act (job : Job W) (g : PropertyGraph) (call : Call W) (value : PathValue W) (replica : IdSet) :
    Except Fault (StepResult W) :=
  match g.edges? call.1 with
  | none => .error (.unknownVertex call.1)
  | some edges =>
    match call.2 with
    | none => job.init call.1 edges
    | some m => job.step call.1 edges value [m] replica

def enrolled (job : Job W) (call : Call W) (replica : IdSet) : IdSet :=
  match call.2 with
  | none => replica
  | some _ => job.targets.enroll call.1 replica

/-- Every turn starts from the replica that the turn before left. -/
def Chained (job : Job W) : IdSet → List (Turn W) → Prop
  | _, [] => True
  | replica, turn :: rest =>
    turn.replica = replica ∧ Chained job (job.enrolled turn.call replica) rest

def replicaAfter (job : Job W) (replica : IdSet) (turns : List (Turn W)) : IdSet :=
  turns.foldl (fun replica turn => job.enrolled turn.call replica) replica

end Job

namespace Labels

theorem label_set (labels : Labels W) (id v : VertexId) (label : Label W) :
    (labels.set id label).label v = if v = id then label else labels.label v := by
  unfold Labels.label Labels.set
  rw [Assoc.get?_put]
  split <;> rfl

theorem label_settle_of_not_mem {labels : Labels W} {turns : List (Turn W)} {v : VertexId}
    (h : v ∉ turns.map Turn.vertex) : (labels.settle turns).label v = labels.label v := by
  induction turns generalizing labels with
  | nil => rfl
  | cons turn turns ih =>
      rw [List.map_cons, List.mem_cons, not_or] at h
      rw [settle_cons, ih h.2, label_set, if_neg h.1]

theorem label_settle_of_mem {labels : Labels W} {turns : List (Turn W)} {turn : Turn W}
    (hdistinct : (turns.map Turn.vertex).Nodup) (h : turn ∈ turns) :
    (labels.settle turns).label turn.vertex = Job.settled turn.result := by
  induction turns generalizing labels with
  | nil => cases h
  | cons first turns ih =>
      rw [List.map_cons, List.nodup_cons] at hdistinct
      rw [settle_cons]
      rcases List.mem_cons.mp h with rfl | hrest
      · rw [label_settle_of_not_mem hdistinct.1, label_set, if_pos rfl]
      · exact ih hdistinct.2 hrest

/-- The labels agree where turns are still to be taken. -/
def Agree (labels before : Labels W) (calls : List (Call W)) : Prop :=
  ∀ call ∈ calls, labels.label call.1 = before.label call.1

theorem Agree.settle {labels before : Labels W} {calls : List (Call W)} {turns : List (Turn W)}
    (hagree : labels.Agree before calls)
    (hnew : ∀ turn ∈ turns, turn.vertex ∉ calls.map Prod.fst) :
    (labels.settle turns).Agree before calls := by
  intro call hcall
  rw [label_settle_of_not_mem, hagree call hcall]
  intro hmem
  obtain ⟨turn, hturn, hvertex⟩ := List.mem_map.mp hmem
  exact hnew turn hturn (hvertex ▸ List.mem_map_of_mem hcall)

end Labels

/-- The turns of one worker: one for every call, each on the value of before. -/
structure Turns (g : PropertyGraph) (job : Job W) (labels : Labels W) (replica : IdSet)
    (calls : List (Call W)) (turns : List (Turn W)) : Prop where
  calls : turns.map Turn.call = calls
  acted : ∀ turn ∈ turns,
    job.act g turn.call (labels.label turn.vertex).value turn.replica = .ok turn.result
  chained : job.Chained replica turns

namespace Pass

def take (g : PropertyGraph) (job : Job W) (worker : Nat) (pass : Pass W) (call : Call W) :
    Except (Aborted W) (Pass W) :=
  match call.2 with
  | none => visit0 g job worker pass call.1
  | some m => visit g job worker pass (call.1, m)

def after (job : Job W) (worker : Nat) (pass : Pass W) (turn : Turn W) : Pass W :=
  { labels := pass.labels.set turn.vertex (Job.settled turn.result)
    replica := job.enrolled turn.call pass.replica
    outbox := pass.outbox.postAll turn.result.messages
    active := pass.active + 1
    sent := pass.sent + turn.result.messages.length
    adoptions := pass.adoptions + turn.result.adoptions
    events := pass.events ++ (turn.result.note.map (Event.note worker)).toList }

variable {g : PropertyGraph} {job : Job W} {worker : Nat} {pass : Pass W} {call : Call W}

/-- A turn succeeds or fails as what the vertex does. -/
theorem take_cases (g : PropertyGraph) (job : Job W) (worker : Nat) (pass : Pass W)
    (call : Call W) :
    (∃ result, job.act g call (pass.labels.label call.1).value pass.replica = .ok result ∧
      take g job worker pass call = .ok (pass.after job worker
        { vertex := call.1, message := call.2, replica := pass.replica, result })) ∨
      ∃ aborted, take g job worker pass call = .error aborted ∧
        job.act g call (pass.labels.label call.1).value pass.replica = .error aborted.fault := by
  obtain ⟨id, message⟩ := call
  cases message with
  | none =>
      simp only [take, visit0, Job.act]
      cases g.edges? id with
      | none => exact .inr ⟨_, rfl, rfl⟩
      | some edges =>
          simp only [Job.compute0, absorb]
          cases job.init id edges with
          | error fault => exact .inr ⟨_, rfl, rfl⟩
          | ok result => exact .inl ⟨result, rfl, rfl⟩
  | some m =>
      simp only [take, visit, Job.act]
      cases g.edges? id with
      | none => exact .inr ⟨_, rfl, rfl⟩
      | some edges =>
          simp only [Job.compute, absorb]
          cases job.step id edges (pass.labels.label id).value [m] pass.replica with
          | error fault => exact .inr ⟨_, rfl, rfl⟩
          | ok result => exact .inl ⟨result, rfl, rfl⟩

theorem agree_after {labels : Labels W} {calls : List (Call W)} {turn : Turn W}
    (hagree : pass.labels.Agree labels calls) (hnew : turn.vertex ∉ calls.map Prod.fst) :
    (pass.after job worker turn).labels.Agree labels calls := by
  have hsettled : (pass.labels.settle [turn]).Agree labels calls := by
    apply hagree.settle
    intro other hother
    rw [List.mem_singleton.mp hother]
    exact hnew
  exact hsettled

theorem foldlM_take_ok {labels : Labels W} {calls : List (Call W)} {pass' : Pass W}
    (hdistinct : (calls.map Prod.fst).Nodup) (hagree : pass.labels.Agree labels calls)
    (h : calls.foldlM (take g job worker) pass = .ok pass') :
    ∃ turns, Turns g job labels pass.replica calls turns ∧
      pass' = turns.foldl (Pass.after job worker) pass := by
  induction calls generalizing pass with
  | nil =>
      cases h
      exact ⟨[], ⟨rfl, by simp, trivial⟩, rfl⟩
  | cons call calls ih =>
      rw [List.map_cons, List.nodup_cons] at hdistinct
      have hrest : pass.labels.Agree labels calls := by
        intro other hother
        exact hagree other (List.mem_cons_of_mem _ hother)
      rw [List.foldlM_cons] at h
      obtain ⟨next, hnext, h⟩ := bind_eq_ok.mp h
      rcases take_cases g job worker pass call with ⟨result, hact, htake⟩ | ⟨_, htake, _⟩
      · obtain rfl := Except.ok.inj (hnext.symm.trans htake)
        obtain ⟨turns, hturns, rfl⟩ := ih hdistinct.2 (agree_after hrest hdistinct.1) h
        rw [hagree call List.mem_cons_self] at hact
        refine ⟨_ :: turns, ⟨?_, ?_, ?_⟩, rfl⟩
        · rw [List.map_cons, hturns.calls]
          rfl
        · intro turn hturn
          rcases List.mem_cons.mp hturn with rfl | hlater
          · exact hact
          · exact hturns.acted turn hlater
        · exact ⟨rfl, hturns.chained⟩
      · cases hnext.symm.trans htake

theorem foldlM_take_error {labels : Labels W} {calls : List (Call W)} {aborted : Aborted W}
    (hdistinct : (calls.map Prod.fst).Nodup) (hagree : pass.labels.Agree labels calls)
    (h : calls.foldlM (take g job worker) pass = .error aborted) :
    ∃ call ∈ calls, ∃ replica,
      job.act g call (labels.label call.1).value replica = .error aborted.fault := by
  induction calls generalizing pass with
  | nil => cases h
  | cons call calls ih =>
      rw [List.map_cons, List.nodup_cons] at hdistinct
      have hrest : pass.labels.Agree labels calls := by
        intro other hother
        exact hagree other (List.mem_cons_of_mem _ hother)
      rw [List.foldlM_cons] at h
      rcases take_cases g job worker pass call with ⟨result, _, htake⟩ | ⟨found, htake, hact⟩
      · rw [htake] at h
        obtain ⟨bad, hbad, hact⟩ := ih hdistinct.2 (agree_after hrest hdistinct.1) h
        exact ⟨bad, List.mem_cons_of_mem _ hbad, hact⟩
      · rw [htake] at h
        cases h
        refine ⟨call, List.mem_cons_self, pass.replica, ?_⟩
        rw [← hagree call List.mem_cons_self]
        exact hact

/-- Turns that can be taken are taken. -/
theorem foldlM_take_of_turns {labels : Labels W} {calls : List (Call W)} {turns : List (Turn W)}
    (hdistinct : (calls.map Prod.fst).Nodup) (hagree : pass.labels.Agree labels calls)
    (h : Turns g job labels pass.replica calls turns) :
    calls.foldlM (take g job worker) pass = .ok (turns.foldl (Pass.after job worker) pass) := by
  induction turns generalizing pass calls with
  | nil =>
      rw [← h.calls]
      rfl
  | cons turn turns ih =>
      obtain ⟨hcalls, hacted, hreplica, hchained⟩ := h
      rw [List.map_cons] at hcalls
      subst hcalls
      rw [List.map_cons, List.nodup_cons] at hdistinct
      have hheld : pass.labels.label turn.vertex = labels.label turn.vertex :=
        hagree turn.call List.mem_cons_self
      have hact := hacted turn List.mem_cons_self
      rw [hreplica, ← hheld] at hact
      have htake : take g job worker pass turn.call = .ok (pass.after job worker turn) := by
        rcases take_cases g job worker pass turn.call with ⟨result, hfound, htake⟩ | ⟨_, _, hfound⟩
        · obtain rfl := Except.ok.inj (hfound.symm.trans hact)
          exact htake
        · cases hfound.symm.trans hact
      rw [List.foldlM_cons, htake]
      refine ih hdistinct.2 ?_ ⟨rfl, fun later hlater => ?_, hchained⟩
      · exact agree_after (fun call hcall => hagree call (List.mem_cons_of_mem _ hcall)) hdistinct.1
      · exact hacted later (List.mem_cons_of_mem _ hlater)

section Totals

variable (job) (worker) (pass) (turns : List (Turn W))

theorem labels_foldl_after :
    (turns.foldl (Pass.after job worker) pass).labels = pass.labels.settle turns := by
  induction turns generalizing pass with
  | nil => rfl
  | cons turn turns ih => exact ih _

theorem replica_foldl_after :
    (turns.foldl (Pass.after job worker) pass).replica = job.replicaAfter pass.replica turns := by
  induction turns generalizing pass with
  | nil => rfl
  | cons turn turns ih => exact ih _

theorem outbox_foldl_after :
    (turns.foldl (Pass.after job worker) pass).outbox = pass.outbox.postAll (Turn.sent turns) := by
  induction turns generalizing pass with
  | nil => rfl
  | cons turn turns ih =>
      rw [List.foldl_cons, ih, Turn.sent_cons]
      exact List.foldl_append.symm

theorem active_foldl_after :
    (turns.foldl (Pass.after job worker) pass).active = pass.active + turns.length := by
  induction turns generalizing pass with
  | nil => rfl
  | cons turn turns ih =>
      rw [List.foldl_cons, ih, List.length_cons]
      simp only [Pass.after]
      omega

theorem sent_foldl_after :
    (turns.foldl (Pass.after job worker) pass).sent = pass.sent + (Turn.sent turns).length := by
  induction turns generalizing pass with
  | nil => rfl
  | cons turn turns ih =>
      rw [List.foldl_cons, ih, Turn.sent_cons, List.length_append]
      simp only [Pass.after]
      omega

theorem adoptions_foldl_after :
    (turns.foldl (Pass.after job worker) pass).adoptions =
      pass.adoptions + Turn.adoptions turns := by
  induction turns generalizing pass with
  | nil => rfl
  | cons turn turns ih =>
      rw [List.foldl_cons, ih, Turn.adoptions_cons]
      simp only [Pass.after]
      omega

theorem events_foldl_after :
    (turns.foldl (Pass.after job worker) pass).events = pass.events ++ Turn.notes worker turns := by
  induction turns generalizing pass with
  | nil => exact (List.append_nil _).symm
  | cons turn turns ih =>
      rw [List.foldl_cons, ih, Turn.notes_cons, ← List.append_assoc]
      rfl

end Totals

/-- The first call that fails ends the pass. -/
theorem foldlM_take_of_fault {labels : Labels W} {calls rest : List (Call W)}
    {turns : List (Turn W)} {fault : Fault}
    (hdistinct : ((calls ++ call :: rest).map Prod.fst).Nodup)
    (hagree : pass.labels.Agree labels (calls ++ call :: rest))
    (h : Turns g job labels pass.replica calls turns)
    (hact : job.act g call (labels.label call.1).value (job.replicaAfter pass.replica turns) =
      .error fault) :
    ∃ aborted, (calls ++ call :: rest).foldlM (take g job worker) pass = .error aborted ∧
      aborted.fault = fault := by
  rw [List.map_append, List.nodup_append'] at hdistinct
  obtain ⟨hcalls, _, hapart⟩ := hdistinct
  have hlabels : (turns.foldl (Pass.after job worker) pass).labels.Agree labels
      (call :: rest) := by
    rw [labels_foldl_after]
    apply Labels.Agree.settle fun other hother => hagree other (List.mem_append_right _ hother)
    intro turn hturn
    apply hapart (List.mem_map.mpr ⟨turn.call, ?_, rfl⟩)
    rw [← h.calls]
    exact List.mem_map_of_mem hturn
  rw [List.foldlM_append, foldlM_take_of_turns hcalls
    (fun other hother => hagree other (List.mem_append_left _ hother)) h]
  rcases take_cases g job worker (turns.foldl (Pass.after job worker) pass) call with
    ⟨_, hfound, _⟩ | ⟨aborted, htake, hfound⟩
  all_goals rw [hlabels call List.mem_cons_self, replica_foldl_after, hact] at hfound
  · cases hfound
  · refine ⟨aborted, ?_, (Except.error.inj hfound).symm⟩
    exact bind_eq_error.mpr (.inr ⟨_, rfl, by rw [List.foldlM_cons, htake]; rfl⟩)

end Pass

end BulkPaths
