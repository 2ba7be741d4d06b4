import BulkPaths.Proofs.Outcomes
import Mathlib.Data.List.Perm.Basic

/-!
# Interleaved workers

The workers of a superstep may compute side by side. Each goes through its own calls in their order,
but which of them computes the next vertex is open, and one that fails does not stop the others. The
labels are common to all workers; outbox, replica and counts are a worker's own. However the turns
fall, every one of them is the turn that its worker takes when the workers compute one after the
other, because no vertex is called twice and nothing is read that another worker writes. So the
superstep ends in the same state, or with the fault of the same worker.
-/

namespace BulkPaths

open Message Mailbox

theorem flatMap_eq_of_perm {α β : Type} {f : α → List β} {l l' : List α} (hperm : l.Perm l')
    (halone : l.Pairwise fun a b => f a = [] ∨ f b = []) : l.flatMap f = l'.flatMap f := by
  induction hperm with
  | nil => rfl
  | cons a _ ih => rw [List.flatMap_cons, List.flatMap_cons, ih (List.pairwise_cons.mp halone).2]
  | swap a b rest =>
      have hpair := (List.pairwise_cons.mp halone).1 a List.mem_cons_self
      simp only [List.flatMap_cons]
      rcases hpair with hnone | hnone <;> simp [hnone]
  | trans hleft _ ih ih' =>
      exact (ih halone).trans (ih' (hleft.pairwise halone fun h => h.symm))

/-- A worker in the middle of its pass. -/
structure Strand (W : Type) where
  worker : Worker W
  /-- What it has still to compute, in this order. -/
  due : List (Call W)
  active : Nat
  sent : Nat
  adoptions : Nat
  fault : Option Fault

/-- Workers side by side, with the labels and the events that are common to them. -/
structure Floor (W : Type) where
  labels : Labels W
  events : List Event
  strands : List (Strand W)

variable {W : Type}

namespace Strand

/-- The worker takes the merged replica, and what is in its inbox is due. -/
def opened (index : Nat) (merged : IdSet) (worker : Worker W) : Strand W :=
  { worker := { worker with inbox := [], replica := merged }
    due := worker.due index
    active := 0
    sent := 0
    adoptions := 0
    fault := none }

def pass (strand : Strand W) (labels : Labels W) (events : List Event) : Pass W :=
  { labels
    replica := strand.worker.replica
    outbox := strand.worker.outbox
    active := strand.active
    sent := strand.sent
    adoptions := strand.adoptions
    events }

def resume (strand : Strand W) (due : List (Call W)) (pass : Pass W) : Strand W :=
  { worker := { strand.worker with outbox := pass.outbox, replica := pass.replica }
    due
    active := pass.active
    sent := pass.sent
    adoptions := pass.adoptions
    fault := strand.fault }

/-- How many turns the worker has left. -/
def remaining (strand : Strand W) : Nat := if strand.fault.isSome then 0 else strand.due.length

/-- What the workers have come to: the first that failed decides, once all before it are done. -/
def verdict : List (Strand W) → Option (Except Fault Unit)
  | [] => some (.ok ())
  | strand :: rest =>
    match strand.fault, strand.due with
    | some fault, _ => some (.error fault)
    | none, [] => verdict rest
    | none, _ :: _ => none

theorem verdict_cases {strands : List (Strand W)} {outcome : Except Fault Unit}
    (h : verdict strands = some outcome) :
    (outcome = .ok () ∧ ∀ strand ∈ strands, strand.fault = none ∧ strand.due = []) ∨
      ∃ before strand after fault, strands = before ++ strand :: after ∧
        (∀ other ∈ before, other.fault = none ∧ other.due = []) ∧
        strand.fault = some fault ∧ outcome = .error fault := by
  induction strands with
  | nil =>
      obtain rfl := Option.some.inj h
      exact .inl ⟨rfl, by simp⟩
  | cons strand rest ih =>
      cases hfault : strand.fault with
      | some fault =>
          simp only [verdict, hfault, Option.some.injEq] at h
          exact .inr ⟨[], strand, rest, fault, rfl, by simp, hfault, h.symm⟩
      | none =>
          cases hdue : strand.due with
          | cons call later => simp [verdict, hfault, hdue] at h
          | nil =>
              simp only [verdict, hfault, hdue] at h
              rcases ih h with ⟨hok, hall⟩ | ⟨before, failed, after, fault, rfl, hbefore, hrest⟩
              · exact .inl ⟨hok, List.forall_mem_cons.mpr ⟨⟨hfault, hdue⟩, hall⟩⟩
              · exact .inr ⟨strand :: before, failed, after, fault, rfl,
                  List.forall_mem_cons.mpr ⟨⟨hfault, hdue⟩, hbefore⟩, hrest⟩

theorem exists_remaining_of_verdict {strands : List (Strand W)} (h : verdict strands = none) :
    ∃ (i : Nat) (strand : Strand W), strands[i]? = some strand ∧ strand.remaining ≠ 0 := by
  induction strands with
  | nil => cases h
  | cons strand rest ih =>
      cases hfault : strand.fault with
      | some fault => simp [verdict, hfault] at h
      | none =>
          cases hdue : strand.due with
          | cons call later => exact ⟨0, strand, rfl, by simp [remaining, hfault, hdue]⟩
          | nil =>
              simp only [verdict, hfault, hdue] at h
              obtain ⟨i, other, hother, hremaining⟩ := ih h
              exact ⟨i + 1, other, hother, hremaining⟩

end Strand

variable [PathWeight W]

namespace Floor

def opened (index : Nat) (s : State W) : Floor W :=
  { labels := s.labels
    events := s.events
    strands := s.workers.map (Strand.opened index s.aggregator.merged) }

/-- The given worker computes its next vertex, if it has not failed and is not done. -/
def turn (g : PropertyGraph) (job : Job W) (floor : Floor W) (i : Nat) : Floor W :=
  match floor.strands[i]? with
  | none => floor
  | some strand =>
    match strand.fault, strand.due with
    | none, call :: rest =>
      match (strand.pass floor.labels floor.events).take g job strand.worker.index call with
      | .ok pass =>
        { labels := pass.labels
          events := pass.events
          strands := floor.strands.set i (strand.resume rest pass) }
      | .error aborted =>
        { labels := aborted.labels
          events := aborted.events
          strands := floor.strands.set i { strand with fault := some aborted.fault } }
    | _, _ => floor

/-- One turn after the other, of the workers that the schedule names. -/
def run (g : PropertyGraph) (job : Job W) (floor : Floor W) (schedule : List Nat) : Floor W :=
  schedule.foldl (turn g job) floor

def round (floor : Floor W) : State.Round W :=
  { workers := floor.strands.map Strand.worker
    labels := floor.labels
    active := (floor.strands.map Strand.active).sum
    sent := (floor.strands.map Strand.sent).sum
    adoptions := (floor.strands.map Strand.adoptions).sum
    events := floor.events }

/-- The end of the superstep, when it has come: the fault that aborts the run, or the state after
the barrier. -/
def close (index : Nat) (s : State W) (floor : Floor W) : Option (Except Fault (State W)) :=
  (Strand.verdict floor.strands).map fun verdict =>
    verdict.bind fun _ => (s.barrier index floor.round).mapError Aborted.fault

end Floor

namespace Job

variable {job : Job W} {g : PropertyGraph} {call : Call W} {value : PathValue W} {replica : IdSet}
  {result start : StepResult W} {id : VertexId} {edges : List Edge} {m : Message W}

theorem note_of_receive (h : job.receive id edges replica start m = .ok result) :
    result.note = start.note := by
  unfold receive at h
  split at h
  case isTrue =>
    cases h
    rfl
  case isFalse =>
    obtain ⟨_, _, h⟩ := bind_eq_ok.mp h
    split at h
    case isTrue =>
      cases h
      rfl
    case isFalse =>
      obtain ⟨_, _, h⟩ := bind_eq_ok.mp h
      cases h
      rfl

theorem note_of_init (h : job.init id edges = .ok result) (hnote : result.note ≠ none) :
    id = job.source := by
  by_contra hne
  rw [init, if_pos (by simpa using hne)] at h
  cases h
  exact hnote rfl

/-- Only the source has anything to note. -/
theorem note_of_act (h : job.act g call value replica = .ok result) (hnote : result.note ≠ none) :
    call.1 = job.source := by
  obtain ⟨v, message⟩ := call
  simp only [act] at h
  cases hedges : g.edges? v with
  | none => simp [hedges] at h
  | some edges =>
      rw [hedges] at h
      cases message with
      | none => exact note_of_init h hnote
      | some m =>
          have hquiet := note_of_receive (step_singleton.symm.trans h)
          exact absurd hquiet hnote

theorem replicaAfter_concat (replica : IdSet) (turns : List (Turn W)) (turn : Turn W) :
    job.replicaAfter replica (turns ++ [turn]) =
      job.enrolled turn.call (job.replicaAfter replica turns) := by
  simp [replicaAfter]

theorem Chained.concat {turns : List (Turn W)} {turn : Turn W} (h : job.Chained replica turns)
    (hlast : turn.replica = job.replicaAfter replica turns) :
    job.Chained replica (turns ++ [turn]) := by
  induction turns generalizing replica with
  | nil => exact ⟨hlast, trivial⟩
  | cons first turns ih => exact ⟨h.1, ih h.2 hlast⟩

end Job

/-- A turn that fails leaves every value as it was. -/
theorem Pass.value_of_take_error {g : PropertyGraph} {job : Job W} {worker : Nat} {pass : Pass W}
    {call : Call W} {aborted : Aborted W} (h : pass.take g job worker call = .error aborted)
    (v : VertexId) : (aborted.labels.label v).value = (pass.labels.label v).value := by
  have hset : ∀ label : Label W, label.value = (pass.labels.label call.1).value →
      ((pass.labels.set call.1 label).label v).value = (pass.labels.label v).value := by
    intro label hlabel
    rw [Labels.label_set]
    split
    case isTrue heq => rw [hlabel, heq]
    case isFalse => rfl
  obtain ⟨id, message⟩ := call
  cases message with
  | none =>
      simp only [take, visit0] at h
      split at h
      case h_1 =>
        cases h
        rfl
      case h_2 edges _ =>
        simp only [Job.compute0, absorb] at h
        cases hinit : job.init id edges with
        | ok result => simp [hinit] at h
        | error fault =>
            simp only [hinit, Except.error.injEq] at h
            subst h
            exact hset _ rfl
  | some m =>
      simp only [take, visit] at h
      split at h
      case h_1 =>
        cases h
        rfl
      case h_2 edges _ =>
        simp only [Job.compute, absorb] at h
        cases hstep : job.step id edges (pass.labels.label id).value [m] pass.replica with
        | ok result => simp [hstep] at h
        | error fault =>
            simp only [hstep, Except.error.injEq] at h
            subst h
            exact hset _ rfl

namespace Shift

omit [PathWeight W]

variable (shifts : List (Shift W))

theorem length_turns : (turns shifts).length = (shifts.map fun shift => shift.2.length).sum :=
  List.length_flatMap

theorem length_sent : (Turn.sent (turns shifts)).length =
    (shifts.map fun shift => (Turn.sent shift.2).length).sum := by
  rw [← flatten_lots, List.length_flatten, lots, List.map_map]
  rfl

theorem adoptions_turns : Turn.adoptions (turns shifts) =
    (shifts.map fun shift => Turn.adoptions shift.2).sum := by
  induction shifts with
  | nil => rfl
  | cons shift shifts ih =>
      rw [turns_cons, Turn.adoptions_append, ih, List.map_cons, List.sum_cons]

end Shift

namespace Strand

variable {g : PropertyGraph} {job : Job W} {index : Nat} {s : State W} {shift : Shift W}
  {strand : Strand W} {call : Call W} {rest : List (Call W)} {labels : Labels W}
  {events : List Event}

/-- The strand is where its worker is after some of the turns of the superstep, and if it failed, it
did so at the call that comes next. -/
structure Follows (g : PropertyGraph) (job : Job W) (index : Nat) (s : State W) (shift : Shift W)
    (strand : Strand W) : Prop where
  worker : strand.worker = shift.1.worked job s.aggregator.merged shift.2
  active : strand.active = shift.2.length
  sent : strand.sent = (Turn.sent shift.2).length
  adoptions : strand.adoptions = Turn.adoptions shift.2
  due : shift.1.due index = shift.2.map Turn.call ++ strand.due
  turns : Turns g job s.labels s.aggregator.merged (shift.2.map Turn.call) shift.2
  fault : ∀ fault, strand.fault = some fault → ∃ call rest, strand.due = call :: rest ∧
    job.act g call (s.value call.1) (job.replicaAfter s.aggregator.merged shift.2) = .error fault

theorem follows_opened (worker : Worker W) :
    (Strand.opened index s.aggregator.merged worker).Follows g job index s (worker, []) where
  worker := rfl
  active := rfl
  sent := rfl
  adoptions := rfl
  due := rfl
  turns := ⟨rfl, by simp, trivial⟩
  fault := by
    intro fault hfault
    cases hfault

namespace Follows

theorem replica (h : strand.Follows g job index s shift) :
    strand.worker.replica = job.replicaAfter s.aggregator.merged shift.2 := by
  rw [h.worker, Worker.worked]

theorem after (h : strand.Follows g job index s shift) {turn : Turn W}
    (hdue : strand.due = turn.call :: rest) (hwell : strand.fault = none)
    (hreplica : turn.replica = job.replicaAfter s.aggregator.merged shift.2)
    (hact : job.act g turn.call (s.value turn.vertex) turn.replica = .ok turn.result) (i : Nat) :
    (strand.resume rest ((strand.pass labels events).after job i turn)).Follows g job index s
      (shift.1, shift.2 ++ [turn]) where
  worker := by
    have hsent : Turn.sent [turn] = turn.result.messages := List.flatMap_singleton ..
    simp only [Strand.resume, Pass.after, Strand.pass, h.worker, Worker.worked,
      Job.replicaAfter_concat, Turn.sent_append, hsent, postAll, List.foldl_append]
  active := by simp [Strand.resume, Pass.after, Strand.pass, h.active]
  sent := by simp [Strand.resume, Pass.after, Strand.pass, h.sent, Turn.sent]
  adoptions := by
    rw [Turn.adoptions_append]
    simp only [Strand.resume, Pass.after, Strand.pass, h.adoptions]
    rfl
  due := by
    rw [h.due, hdue]
    simp [Strand.resume]
  turns := by
    refine ⟨rfl, fun other hother => ?_, h.turns.chained.concat hreplica⟩
    rcases List.mem_append.mp hother with hold | hnew
    · exact h.turns.acted other hold
    · rw [List.mem_singleton.mp hnew]
      exact hact
  fault := by
    intro fault hfault
    cases hwell.symm.trans hfault

theorem resume (h : strand.Follows g job index s shift) (hdue : strand.due = call :: rest)
    (hwell : strand.fault = none) (hvalue : (labels.label call.1).value = s.value call.1)
    {pass : Pass W}
    (htake : (strand.pass labels events).take g job strand.worker.index call = .ok pass) :
    ∃ turn : Turn W, turn.call = call ∧
      pass = (strand.pass labels events).after job shift.1.index turn ∧
      (strand.resume rest pass).Follows g job index s (shift.1, shift.2 ++ [turn]) := by
  have hindex : strand.worker.index = shift.1.index := by rw [h.worker, Worker.worked]
  rcases Pass.take_cases g job strand.worker.index (strand.pass labels events) call with
    ⟨result, hact, hfound⟩ | ⟨_, hfound, _⟩
  · obtain rfl := Except.ok.inj (hfound.symm.trans htake)
    rw [Strand.pass, hvalue] at hact
    let turn : Turn W :=
      { vertex := call.1, message := call.2, replica := strand.worker.replica, result }
    have hcall : strand.due = turn.call :: rest := hdue
    rw [hindex]
    exact ⟨turn, rfl, rfl, h.after hcall hwell h.replica hact _⟩
  · cases hfound.symm.trans htake

theorem fail (h : strand.Follows g job index s shift) (hdue : strand.due = call :: rest)
    (hvalue : (labels.label call.1).value = s.value call.1) {aborted : Aborted W}
    (htake : (strand.pass labels events).take g job strand.worker.index call = .error aborted) :
    { strand with fault := some aborted.fault }.Follows g job index s shift := by
  refine { h with fault := ?_ }
  intro fault hfault
  obtain rfl := Option.some.inj hfault
  rcases Pass.take_cases g job strand.worker.index (strand.pass labels events) call with
    ⟨_, _, hfound⟩ | ⟨_, hfound, hact⟩
  · cases hfound.symm.trans htake
  · obtain rfl := Except.error.inj (hfound.symm.trans htake)
    rw [Strand.pass, hvalue, h.replica] at hact
    exact ⟨call, rest, hdue, hact⟩

end Follows

end Strand

namespace Floor

variable {g : PropertyGraph} {job : Job W} {index count : Nat} {s : State W} {floor : Floor W}
  {crew : List (Shift W × Strand W)} {log : List (Nat × Turn W)} {i : Nat}

/-- What a turn does to the floor. -/
inductive Turned (g : PropertyGraph) (job : Job W) (floor : Floor W) (i : Nat) : Floor W → Prop
  | idle (none : ∀ strand, floor.strands[i]? = some strand → strand.remaining = 0) :
      Turned g job floor i floor
  | took {before after : List (Strand W)} {strand : Strand W} {call : Call W}
      {rest : List (Call W)} {pass : Pass W} (split : floor.strands = before ++ strand :: after)
      (well : strand.fault = none) (due : strand.due = call :: rest)
      (taken : (strand.pass floor.labels floor.events).take g job strand.worker.index call =
        .ok pass) :
      Turned g job floor i
        { labels := pass.labels
          events := pass.events
          strands := before ++ strand.resume rest pass :: after }
  | failed {before after : List (Strand W)} {strand : Strand W} {call : Call W}
      {rest : List (Call W)} {aborted : Aborted W}
      (split : floor.strands = before ++ strand :: after) (well : strand.fault = none)
      (due : strand.due = call :: rest)
      (taken : (strand.pass floor.labels floor.events).take g job strand.worker.index call =
        .error aborted) :
      Turned g job floor i
        { labels := aborted.labels
          events := aborted.events
          strands := before ++ { strand with fault := some aborted.fault } :: after }

theorem turned (g : PropertyGraph) (job : Job W) (floor : Floor W) (i : Nat) :
    Turned g job floor i (floor.turn g job i) := by
  unfold turn
  split
  case h_1 hnone =>
    refine .idle fun strand hstrand => ?_
    cases hnone.symm.trans hstrand
  case h_2 strand hstrand =>
    obtain ⟨hi, rfl⟩ := List.getElem?_eq_some_iff.mp hstrand
    have hsplit : floor.strands =
        floor.strands.take i ++ floor.strands[i] :: floor.strands.drop (i + 1) := by
      rw [List.getElem_cons_drop, List.take_append_drop]
    split
    case h_1 call rest hwell hdue =>
      split
      case h_1 pass htake =>
        rw [List.set_eq_take_append_cons_drop, if_pos hi]
        exact .took hsplit hwell hdue htake
      case h_2 aborted htake =>
        rw [List.set_eq_take_append_cons_drop, if_pos hi]
        exact .failed hsplit hwell hdue htake
    case h_2 hdone =>
      refine .idle fun other hother => ?_
      obtain rfl := Option.some.inj (hstrand.symm.trans hother)
      cases hfault : floor.strands[i].fault with
      | some fault => simp [Strand.remaining, hfault]
      | none =>
          cases hdue : floor.strands[i].due with
          | nil => simp [Strand.remaining, hfault, hdue]
          | cons call rest => exact absurd hdue (hdone call rest hfault)

/-- How many turns are left of all workers. -/
def remaining (floor : Floor W) : Nat := (floor.strands.map Strand.remaining).sum

theorem remaining_turn (g : PropertyGraph) (job : Job W) {strand : Strand W}
    (hstrand : floor.strands[i]? = some strand) (hremaining : strand.remaining ≠ 0) :
    (floor.turn g job i).remaining < floor.remaining := by
  have hturned := turned g job floor i
  generalize floor.turn g job i = next at hturned ⊢
  cases hturned with
  | idle none => exact absurd (none strand hstrand) hremaining
  | took split well due _ =>
      simp [remaining, split, Strand.remaining, Strand.resume, well, due]
  | failed split well due _ =>
      simp [remaining, split, Strand.remaining, well, due]

/-- However far the workers are, they can be brought to the end of the superstep. -/
theorem exists_close (g : PropertyGraph) (job : Job W) (index : Nat) (s : State W)
    (floor : Floor W) : ∃ more outcome, (floor.run g job more).close index s = some outcome := by
  -- every step is a turn of some worker that is not done: fewer turns are left after it
  generalize hn : floor.remaining = n
  induction n using Nat.strong_induction_on generalizing floor with
  | h n ih =>
      cases hverdict : Strand.verdict floor.strands with
      | some verdict => exact ⟨[], _, congrArg (Option.map _) hverdict⟩
      | none =>
          obtain ⟨i, strand, hstrand, hremaining⟩ := Strand.exists_remaining_of_verdict hverdict
          have hless := remaining_turn g job hstrand hremaining
          obtain ⟨more, outcome, hclose⟩ := ih _ (hn ▸ hless) (floor.turn g job i) rfl
          exact ⟨i :: more, outcome, hclose⟩

/-- The floor is what comes of the turns in the log, in the order of the log; each worker of the
crew has taken its own in its own order. -/
structure Follows (g : PropertyGraph) (job : Job W) (index : Nat) (s : State W) (floor : Floor W)
    (crew : List (Shift W × Strand W)) (log : List (Nat × Turn W)) : Prop where
  workers : crew.map (fun member => member.1.1) = s.workers
  strands : crew.map Prod.snd = floor.strands
  follows : ∀ member ∈ crew, member.2.Follows g job index s member.1
  taken : log.Perm (crew.flatMap fun member => member.1.2.map fun turn => (member.1.1.index, turn))
  values : ∀ v, (floor.labels.label v).value = ((s.labels.settle (log.map Prod.snd)).label v).value
  calm : (∀ member ∈ crew, member.2.fault = none) →
    floor.labels = s.labels.settle (log.map Prod.snd) ∧
      floor.events = s.events ++
        log.flatMap fun entry => (entry.2.result.note.map (Event.note entry.1)).toList

namespace Follows

theorem opened (g : PropertyGraph) (job : Job W) (index : Nat) (s : State W) :
    (Floor.opened index s).Follows g job index s
      (s.workers.map fun worker =>
        ((worker, []), Strand.opened index s.aggregator.merged worker)) [] where
  workers := by simp [Function.comp_def]
  strands := by simp [Floor.opened, Function.comp_def]
  follows := by
    intro member hmember
    obtain ⟨worker, _, rfl⟩ := List.mem_map.mp hmember
    exact Strand.follows_opened worker
  taken := by simp
  values := fun _ => rfl
  calm := fun _ => ⟨rfl, (List.append_nil _).symm⟩

theorem due_perm (h : floor.Follows g job index s crew log) :
    (s.due index).Perm
      (log.map (fun entry => entry.2.call) ++ crew.flatMap fun member => member.2.due) := by
  have hdue : s.due index =
      crew.flatMap fun member => member.1.2.map Turn.call ++ member.2.due := by
    rw [State.due, ← h.workers, List.flatMap_map]
    exact List.flatMap_congr fun member hmember => (h.follows member hmember).due
  have hlog : (log.map fun entry => entry.2.call).Perm
      (crew.flatMap fun member => member.1.2.map Turn.call) := by
    have hcalls := h.taken.map fun entry : Nat × Turn W => entry.2.call
    rwa [List.map_flatMap, List.flatMap_congr fun member _ => List.map_map ..] at hcalls
  rw [hdue]
  exact (List.flatMap_append_perm ..).symm.trans (hlog.symm.append_right _)

theorem nodup_log (h : floor.Follows g job index s crew log)
    (hdistinct : ((s.due index).map Prod.fst).Nodup) :
    ((log.map Prod.snd).map Turn.vertex).Nodup ∧
      ∀ member ∈ crew, ∀ call ∈ member.2.due, call.1 ∉ (log.map Prod.snd).map Turn.vertex := by
  have hboth := (h.due_perm.map Prod.fst).nodup hdistinct
  have hvertices : (log.map fun entry => entry.2.call).map Prod.fst =
      (log.map Prod.snd).map Turn.vertex := by simp [Turn.call, Function.comp_def]
  rw [List.map_append, List.nodup_append', hvertices] at hboth
  refine ⟨hboth.1, fun member hmember call hcall hlogged => ?_⟩
  exact hboth.2.2 hlogged
    (List.mem_map_of_mem (List.mem_flatMap.mpr ⟨member, hmember, hcall⟩))

theorem value_of_due (h : floor.Follows g job index s crew log)
    (hdistinct : ((s.due index).map Prod.fst).Nodup) {member : Shift W × Strand W}
    (hmember : member ∈ crew) {call : Call W} (hcall : call ∈ member.2.due) :
    (floor.labels.label call.1).value = s.value call.1 := by
  -- every vertex is due once, so no turn of the log was one of this vertex
  have hquiet := (h.nodup_log hdistinct).2 member hmember call hcall
  rw [h.values, Labels.label_settle_of_not_mem hquiet, State.value]

theorem exists_member (h : floor.Follows g job index s crew log)
    {before after : List (Strand W)} {strand : Strand W}
    (hsplit : floor.strands = before ++ strand :: after) :
    ∃ earlier shift later, (shift, strand) ∈ crew ∧
      crew = earlier ++ (shift, strand) :: later ∧
      earlier.map Prod.snd = before ∧ later.map Prod.snd = after := by
  obtain ⟨earlier, rest, hcrew, hearlier, hrest⟩ :=
    List.map_eq_append_iff.mp (h.strands.trans hsplit)
  obtain ⟨member, later, rfl, rfl, hlater⟩ := List.map_eq_cons_iff.mp hrest
  exact ⟨earlier, member.1, later, by simp [hcrew], hcrew, hearlier, hlater⟩

section Member

variable {earlier later : List (Shift W × Strand W)} {shift : Shift W} {strand strand' : Strand W}

theorem resumed (h : floor.Follows g job index s (earlier ++ (shift, strand) :: later) log)
    (hwell : strand.fault = none) {turn : Turn W}
    (hnext : strand'.Follows g job index s (shift.1, shift.2 ++ [turn])) :
    Floor.Follows g job index s
      { labels := floor.labels.set turn.vertex (Job.settled turn.result)
        events := floor.events ++ (turn.result.note.map (Event.note shift.1.index)).toList
        strands := earlier.map Prod.snd ++ strand' :: later.map Prod.snd }
      (earlier ++ ((shift.1, shift.2 ++ [turn]), strand') :: later)
      (log ++ [(shift.1.index, turn)]) where
  workers := by
    rw [← h.workers]
    simp
  strands := by simp
  follows := by
    have hall := h.follows
    simp only [List.forall_mem_append, List.forall_mem_cons] at hall ⊢
    exact ⟨hall.1, hnext, hall.2.2⟩
  taken := by
    have htaken := h.taken.append_right [(shift.1.index, turn)]
    simp only [List.flatMap_append, List.flatMap_cons, List.map_append, List.map_cons,
      List.map_nil, List.append_assoc] at htaken ⊢
    exact htaken.trans ((List.perm_append_comm.append_left _).append_left _)
  values := by
    intro v
    rw [List.map_append, Labels.settle_append, List.map_singleton, Labels.settle_cons,
      Labels.label_set]
    change _ = (((s.labels.settle (log.map Prod.snd)).set turn.vertex
      (Job.settled turn.result)).label v).value
    rw [Labels.label_set]
    split
    case isTrue => rfl
    case isFalse => exact h.values v
  calm := by
    intro hcalm
    have hbefore : ∀ member ∈ earlier ++ (shift, strand) :: later, member.2.fault = none := by
      simp only [List.forall_mem_append, List.forall_mem_cons] at hcalm ⊢
      exact ⟨hcalm.1, hwell, hcalm.2.2⟩
    obtain ⟨hlabels, hevents⟩ := h.calm hbefore
    constructor
    · rw [List.map_append, Labels.settle_append, ← hlabels]
      rfl
    · rw [List.flatMap_append, ← List.append_assoc, ← hevents, List.flatMap_singleton]

theorem failed (h : floor.Follows g job index s (earlier ++ (shift, strand) :: later) log)
    (hnext : strand'.Follows g job index s shift) (hfault : strand'.fault ≠ none)
    {labels : Labels W} (hvalues : ∀ v, (labels.label v).value = (floor.labels.label v).value)
    (events : List Event) :
    Floor.Follows g job index s
      { labels, events, strands := earlier.map Prod.snd ++ strand' :: later.map Prod.snd }
      (earlier ++ (shift, strand') :: later) log where
  workers := by
    rw [← h.workers]
    simp
  strands := by simp
  follows := by
    have hall := h.follows
    simp only [List.forall_mem_append, List.forall_mem_cons] at hall ⊢
    exact ⟨hall.1, hnext, hall.2.2⟩
  taken := by
    have htaken := h.taken
    simp only [List.flatMap_append, List.flatMap_cons] at htaken ⊢
    exact htaken
  values v := (hvalues v).trans (h.values v)
  calm hcalm := absurd (hcalm _ (List.mem_append_right _ List.mem_cons_self)) hfault

end Member

theorem turn (h : floor.Follows g job index s crew log)
    (hdistinct : ((s.due index).map Prod.fst).Nodup) (i : Nat) :
    ∃ crew' log', (floor.turn g job i).Follows g job index s crew' log' := by
  have hturned := turned g job floor i
  generalize floor.turn g job i = next at hturned ⊢
  cases hturned with
  | idle => exact ⟨crew, log, h⟩
  | took split well due taken =>
      obtain ⟨earlier, shift, later, hmember, rfl, rfl, rfl⟩ := h.exists_member split
      have hvalue := h.value_of_due hdistinct hmember (due ▸ List.mem_cons_self)
      obtain ⟨turn, _, rfl, hnext⟩ := (h.follows _ hmember).resume due well hvalue taken
      exact ⟨_, _, h.resumed well hnext⟩
  | failed split well due taken =>
      obtain ⟨earlier, shift, later, hmember, rfl, rfl, rfl⟩ := h.exists_member split
      have hvalue := h.value_of_due hdistinct hmember (due ▸ List.mem_cons_self)
      have hnext := (h.follows _ hmember).fail due hvalue taken
      exact ⟨_, _, h.failed hnext (Option.some_ne_none _) (Pass.value_of_take_error taken) _⟩

theorem run (h : floor.Follows g job index s crew log)
    (hdistinct : ((s.due index).map Prod.fst).Nodup) (schedule : List Nat) :
    ∃ crew' log', (floor.run g job schedule).Follows g job index s crew' log' := by
  induction schedule generalizing floor crew log with
  | nil => exact ⟨crew, log, h⟩
  | cons i schedule ih =>
      obtain ⟨_, _, hnext⟩ := h.turn hdistinct i
      exact ih hnext

theorem notes_alone (h : floor.Follows g job index s crew log)
    (hdistinct : ((s.due index).map Prod.fst).Nodup) :
    log.Pairwise fun entry other => (entry.2.result.note.map (Event.note entry.1)).toList = [] ∨
      (other.2.result.note.map (Event.note other.1)).toList = [] := by
  -- only the source has anything to note, and it takes one turn
  have hsource : ∀ entry ∈ log, entry.2.result.note ≠ none → entry.2.vertex = job.source := by
    intro entry hentry hnote
    obtain ⟨member, hmember, hin⟩ := List.mem_flatMap.mp (h.taken.mem_iff.mp hentry)
    obtain ⟨turn, hturn, rfl⟩ := List.mem_map.mp hin
    exact Job.note_of_act ((h.follows member hmember).turns.acted turn hturn) hnote
  have hvertices := (h.nodup_log hdistinct).1
  rw [List.map_map, List.Nodup, List.pairwise_map] at hvertices
  apply hvertices.imp_of_mem
  intro entry other hentry hother hne
  by_contra hboth
  simp only [not_or, Option.toList_eq_nil_iff, Option.map_eq_none_iff] at hboth
  exact hne ((hsource entry hentry hboth.1).trans (hsource other hother hboth.2).symm)

/-- At the end nothing shows of the order in which the workers took their turns. -/
theorem round_of_done (h : floor.Follows g job index s crew log) (hcount : 0 < count)
    (hsound : s.Sound g job count) (hkeys : Assoc.keys s.labels = g.ids)
    (hdone : ∀ strand ∈ floor.strands, strand.fault = none ∧ strand.due = []) :
    s.Works g job index (crew.map Prod.fst) ∧
      floor.round = .ofShifts job s (crew.map Prod.fst) := by
  obtain ⟨_, hrouted⟩ := hsound.routed
  have hmember : ∀ member ∈ crew, member.2.fault = none ∧ member.2.due = [] := by
    intro member hmember
    apply hdone
    rw [← h.strands]
    exact List.mem_map_of_mem hmember
  have hworks : s.Works g job index (crew.map Prod.fst) := by
    refine ⟨by rw [List.map_map, ← h.workers]; rfl, fun shift hshift => ?_⟩
    obtain ⟨member, hin, rfl⟩ := List.mem_map.mp hshift
    have hfollows := h.follows member hin
    rw [hfollows.due, (hmember member hin).2, List.append_nil]
    exact hfollows.turns
  obtain ⟨hlabels, hevents⟩ := h.calm fun member hin => (hmember member hin).1
  have hturns : (log.map Prod.snd).Perm (Shift.turns (crew.map Prod.fst)) := by
    have htaken := h.taken.map Prod.snd
    simpa [Shift.turns, List.map_flatMap, List.flatMap_map, Function.comp_def] using htaken
  have hknown : ∀ turn ∈ log.map Prod.snd, turn.vertex ∈ Assoc.keys s.labels := by
    intro turn hturn
    rw [hkeys]
    exact hrouted.mem_ids_of_due hcount (hworks.taken.mem_due (hturns.mem_iff.mp hturn))
  refine ⟨hworks, ?_⟩
  -- labels and events are those of the log; in the order of the workers they are the same
  rw [round, hlabels, hevents, ← h.strands, State.Round.ofShifts, Shift.length_turns,
    Shift.length_sent, Shift.adoptions_turns,
    Labels.settle_eq_of_perm hturns (h.nodup_log (hrouted.nodup_due index)).1 hknown,
    flatMap_eq_of_perm h.taken (h.notes_alone (hrouted.nodup_due index))]
  simp only [List.map_map, List.flatMap_map, List.flatMap_assoc]
  congr 1
  · exact List.map_congr_left fun member hin => (h.follows member hin).worker
  · exact congrArg List.sum (List.map_congr_left fun member hin => (h.follows member hin).active)
  · exact congrArg List.sum (List.map_congr_left fun member hin => (h.follows member hin).sent)
  · exact congrArg List.sum
      (List.map_congr_left fun member hin => (h.follows member hin).adoptions)

theorem close_eq (h : floor.Follows g job index s crew log) (hcount : 0 < count)
    (hsound : s.Sound g job count) (hkeys : Assoc.keys s.labels = g.ids)
    {outcome : Except Fault (State W)} (hclose : floor.close index s = some outcome) :
    outcome = (s.superstep g job index).mapError Aborted.fault := by
  obtain ⟨_, hrouted⟩ := hsound.routed
  have hdistinct := hrouted.nodup_due index
  obtain ⟨verdict, hverdict, rfl⟩ := Option.map_eq_some_iff.mp hclose
  unfold State.superstep State.superstepBy
  rcases Strand.verdict_cases hverdict with
    ⟨rfl, hdone⟩ | ⟨before, strand, after, fault, hsplit, hbefore, hfault, rfl⟩
  · obtain ⟨hworks, hround⟩ := h.round_of_done hcount hsound hkeys hdone
    rw [State.round_of_works hdistinct hworks, hround]
    rfl
  · -- workers after the first that failed may have computed as well, but a round stops there
    obtain ⟨earlier, shift, later, hmember, rfl, rfl, rfl⟩ := h.exists_member hsplit
    have hfollows := h.follows _ hmember
    obtain ⟨call, rest, hdue, hact⟩ := hfollows.fault fault hfault
    have hworkers : s.workers =
        (earlier.map Prod.fst).map Prod.fst ++ shift.1 :: later.map fun member => member.1.1 := by
      rw [← h.workers]
      simp
    have hearlier : ∀ other ∈ earlier.map Prod.fst,
        Turns g job s.labels s.aggregator.merged (other.1.due index) other.2 := by
      intro other hother
      obtain ⟨member, hin, rfl⟩ := List.mem_map.mp hother
      have hdone := h.follows member (List.mem_append_left _ hin)
      rw [hdone.due, (hbefore _ (List.mem_map_of_mem hin)).2, List.append_nil]
      exact hdone.turns
    obtain ⟨aborted, hround, rfl⟩ := State.round_of_fault hdistinct hworkers hearlier
      (hdue ▸ hfollows.due) hfollows.turns hact
    rw [hround]
    rfl

end Follows

end Floor

/-- No superstep adds a label, or moves one. -/
theorem State.Superstep.keys_labels {g : PropertyGraph} {job : Job W} {index count : Nat}
    {s s' : State W} {turns : List (Turn W)} (h : s.Superstep g job index s' turns)
    (hsound : s.Sound g job count) (hcount : 0 < count) (hkeys : Assoc.keys s.labels = g.ids) :
    Assoc.keys s'.labels = g.ids := by
  obtain ⟨_, hrouted⟩ := hsound.routed
  rw [h.labels, Labels.keys_settle, hkeys]
  intro turn hturn
  rw [hkeys]
  exact hrouted.mem_ids_of_due hcount (h.mem_due hturn)

namespace Run

variable {g : PropertyGraph} {job : Job W} {limits : Limits} {k : Nat} {s : State W}

theorem keys_initial : Assoc.keys (initial g job limits).labels = g.ids := by
  simp [initial, State.start, Assoc.keys, Function.comp_def]

variable [LawfulPathWeight W]

theorem Boundary.keys_labels (h : Boundary g job limits k s) :
    Assoc.keys s.labels = g.ids := by
  induction h using induct with
  | first _ hstep => exact hstep.keys_labels sound_initial limits.staffed keys_initial
  | next before hstep ih => exact hstep.keys_labels before.sound limits.staffed ih

/-- However the turns of the workers fall in a superstep of a run, it ends as it does when they
compute one after the other: in the same state, or with the same fault; and whatever turns have been
taken, more of them bring it to its end. -/
theorem interleavings_agree (h : Ready g job limits k s) (schedule : List Nat) :
    (∀ outcome, ((Floor.opened k s).run g job schedule).close k s = some outcome →
      outcome = (s.superstep g job k).mapError Aborted.fault) ∧
    ∃ more, ((Floor.opened k s).run g job (schedule ++ more)).close k s =
      some ((s.superstep g job k).mapError Aborted.fault) := by
  have hkeys : Assoc.keys s.labels = g.ids := by
    cases h with
    | first => exact keys_initial
    | later boundary => exact boundary.keys_labels
  obtain ⟨_, hrouted⟩ := h.sound.routed
  have hfollows := fun schedule =>
    (Floor.Follows.opened g job k s).run (hrouted.nodup_due k) schedule
  have hagree : ∀ schedule outcome,
      ((Floor.opened k s).run g job schedule).close k s = some outcome →
        outcome = (s.superstep g job k).mapError Aborted.fault := by
    intro schedule outcome hclose
    obtain ⟨_, _, hfloor⟩ := hfollows schedule
    exact hfloor.close_eq limits.staffed h.sound hkeys hclose
  refine ⟨hagree schedule, ?_⟩
  obtain ⟨more, outcome, hclose⟩ :=
    ((Floor.opened k s).run g job schedule).exists_close g job k s
  have hjoined : ((Floor.opened k s).run g job (schedule ++ more)).close k s = some outcome := by
    rw [Floor.run, List.foldl_append]
    exact hclose
  exact ⟨more, hagree _ _ hjoined ▸ hjoined⟩

theorem interleavings_agree_diamond :
    let s := initial diamond diamondJob diamondLimits
    ((Floor.opened 0 s).run diamond diamondJob [1, 0, 1, 0, 1, 0, 1, 0]).close 0 s =
      some ((s.superstep diamond diamondJob 0).mapError Aborted.fault) := by
  intro s
  have hready : Ready diamond diamondJob diamondLimits 0 s := .first diamond_divisible
  obtain ⟨hagree, _⟩ := interleavings_agree hready [1, 0, 1, 0, 1, 0, 1, 0]
  have hcloses : (((Floor.opened 0 s).run diamond diamondJob [1, 0, 1, 0, 1, 0, 1, 0]).close 0
      s).isSome := by decide +kernel
  obtain ⟨outcome, houtcome⟩ := Option.isSome_iff_exists.mp hcloses
  rw [houtcome, hagree outcome houtcome]

end Run

end BulkPaths
