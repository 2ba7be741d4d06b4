import BulkPaths.Engine
import BulkPaths.Proofs.Batches

/-!
# Calls of vertices

A worker calls a vertex with a context, and the messages go to the context one by one. Nothing that
has been sent can be called back, so all of the computing comes first: when the first message is
sent, nothing is left that could fail. Here the calls are told in the order of their effects, in a
state that a failure leaves as it is, and are shown to be what a worker does. What was sent then
falls into batches, one for each value that the vertex has taken on the way.
-/

namespace BulkPaths

open PathWeight

variable {W σ : Type} {send : σ → Outbound W → σ} {result : StepResult W}

/-- What a call works on: the label of the vertex, and the context. -/
structure Desk (W σ : Type) where
  label : Label W
  context : σ

/-- Steps of a call. What they have done when one of them fails stays done. -/
abbrev CallM (W σ : Type) : Type → Type := EStateM Fault (Desk W σ)

namespace CallM

def mark (stage : Stage) : CallM W σ Unit :=
  modify fun desk => { desk with label := { desk.label with stage } }

def assign (value : PathValue W) : CallM W σ Unit :=
  modify fun desk => { desk with label := { desk.label with value } }

def post (send : σ → Outbound W → σ) (out : Outbound W) : CallM W σ Unit :=
  modify fun desk => { desk with context := send desk.context out }

/-- Hands over what has been found. -/
def conclude (send : σ → Outbound W → σ) (result : StepResult W) : CallM W σ (StepResult W) := do
  assign result.value
  result.messages.forM (post send)
  mark .inactive
  return result

/-- The end of a call of which the label and the outcome are known. -/
def ending (send : σ → Outbound W → σ) (context : σ) :
    Label W × Except Fault (StepResult W) → EStateM.Result Fault (Desk W σ) (StepResult W)
  | (label, .ok result) => .ok result { label, context := result.messages.foldl send context }
  | (label, .error fault) => .error fault { label, context }

theorem run_forM_post (send : σ → Outbound W → σ) (outs : List (Outbound W)) (desk : Desk W σ) :
    (outs.forM (post send)).run desk =
      .ok ⟨⟩ { desk with context := outs.foldl send desk.context } := by
  induction outs generalizing desk with
  | nil => rfl
  | cons out outs ih => exact ih { desk with context := send desk.context out }

theorem run_conclude (desk : Desk W σ) : (conclude send result).run desk =
    ending send desk.context (Job.settled result, .ok result) := by
  have hsent := run_forM_post send result.messages
    { desk with label := { desk.label with value := result.value } }
  unfold EStateM.run at hsent
  simp only [conclude, EStateM.run, bind, EStateM.bind, assign, modify, modifyGet,
    MonadStateOf.modifyGet, EStateM.modifyGet, hsent]
  rfl

end CallM

variable [PathWeight W]

namespace Job

variable {job : Job W} {id : VertexId} {edges : List Edge} {inbound : List (Message W)}
  {replica : IdSet}

/-- The call of the first superstep. -/
def call0 (job : Job W) (id : VertexId) (edges : List Edge) (send : σ → Outbound W → σ) :
    CallM W σ (StepResult W) := do
  CallM.mark .initialized
  let result ← MonadExcept.ofExcept (job.init id edges)
  CallM.conclude send result

/-- The call of a later superstep. -/
def call (job : Job W) (id : VertexId) (edges : List Edge) (inbound : List (Message W))
    (replica : IdSet) (send : σ → Outbound W → σ) : CallM W σ (StepResult W) := do
  let desk ← get
  let result ← MonadExcept.ofExcept (job.step id edges desk.label.value inbound replica)
  CallM.conclude send result

theorem run_call0 (desk : Desk W σ) :
    (job.call0 id edges send).run desk =
      CallM.ending send desk.context (job.compute0 id edges desk.label) := by
  unfold call0 compute0
  cases job.init id edges with
  | error fault => rfl
  | ok result => exact CallM.run_conclude _

theorem run_call (desk : Desk W σ) :
    (job.call id edges inbound replica send).run desk =
      CallM.ending send desk.context (job.compute id edges desk.label inbound replica) := by
  have hrun : (job.call id edges inbound replica send).run desk =
      (do
        let result ← MonadExcept.ofExcept (job.step id edges desk.label.value inbound replica)
        CallM.conclude send result : CallM W σ (StepResult W)).run desk := rfl
  rw [hrun]
  unfold compute
  cases job.step id edges desk.label.value inbound replica with
  | error fault => rfl
  | ok result => exact CallM.run_conclude _

end Job

namespace Pass

variable {g : PropertyGraph} {job : Job W} {worker : Nat} {pass : Pass W} {id : VertexId}
  {edges : List Edge}

/-- A pass takes a message: it is counted, and combined with what waits for the same vertex. -/
def post (pass : Pass W) (out : Outbound W) : Pass W :=
  { pass with outbox := pass.outbox.post out.recipient out.message, sent := pass.sent + 1 }

/-- A call is over: its label is kept, and what it reports is added up. -/
def close (worker : Nat) (id : VertexId) :
    EStateM.Result Fault (Desk W (Pass W)) (StepResult W) → Except (Aborted W) (Pass W)
  | .ok result { label, context } =>
    .ok { context with
      labels := context.labels.set id label
      active := context.active + 1
      adoptions := context.adoptions + result.adoptions
      events := context.events ++ (result.note.map (Event.note worker)).toList }
  | .error fault { label, context } =>
    .error ({ context with labels := context.labels.set id label }.abort fault)

theorem foldl_post (outs : List (Outbound W)) (pass : Pass W) :
    outs.foldl Pass.post pass =
      { pass with
        outbox := outs.foldl (fun box out => box.post out.recipient out.message) pass.outbox
        sent := pass.sent + outs.length } := by
  induction outs generalizing pass with
  | nil => rfl
  | cons out outs ih =>
      rw [List.foldl_cons, ih, List.foldl_cons, List.length_cons, Nat.add_comm outs.length,
        ← Nat.add_assoc]
      rfl

theorem close_ending (called : Label W × Except Fault (StepResult W)) :
    close worker id (CallM.ending Pass.post pass called) =
      pass.absorb worker id called.1 called.2 := by
  obtain ⟨label, outcome⟩ := called
  cases outcome with
  | error fault => rfl
  | ok result =>
      simp only [CallM.ending, close, foldl_post]
      rfl

/-- A worker visits a vertex by calling it, with the pass as the context. -/
theorem visit0_eq_call0 (h : g.edges? id = some edges) :
    pass.visit0 g job worker id =
      close worker id ((job.call0 id edges Pass.post).run
        { label := pass.labels.label id, context := pass }) := by
  rw [Job.run_call0, close_ending]
  simp only [visit0, h]

theorem visit_eq_call (h : g.edges? id = some edges) (m : Message W) :
    pass.visit g job worker (id, m) =
      close worker id ((job.call id edges [m] pass.replica Pass.post).run
        { label := { pass.labels.label id with stage := .active }
          context := { pass with replica := job.targets.enroll id pass.replica } }) := by
  rw [Job.run_call, close_ending]
  simp only [visit, h]

end Pass

namespace Job

variable {job : Job W} {id : VertexId} {edges : List Edge} {inbound : List (Message W)}
  {replica : IdSet} {value : PathValue W} {m : Message W} {sent : List (Outbound W)}
  {fault : Fault}

/-- What is sent for a value that has been taken: nothing, or one message along each edge, in
order. -/
inductive Batch (job : Job W) (edges : List Edge) (silent : Prop) (value : PathValue W) :
    List (Outbound W) → Prop
  | none (reason : silent ∨ edges = []) : Batch job edges silent value []
  | each {sent : List (Outbound W)} (loud : ¬silent)
      (along : List.Forall₂ (fun edge out => ∃ weight, job.weigh edge = .ok weight ∧
        out = value.along edge weight) edges sent) : Batch job edges silent value sent

/-- What is sent for several values that have been taken one after the other. -/
def Batches (job : Job W) (edges : List Edge) (silent : Prop) (taken : List (PathValue W))
    (sent : List (Outbound W)) : Prop :=
  ∃ batches, List.Forall₂ (job.Batch edges silent) taken batches ∧ sent = batches.flatten

theorem Batches.single {silent : Prop} (h : job.Batch edges silent value sent) :
    job.Batches edges silent [value] sent :=
  ⟨[sent], .cons h .nil, (List.append_nil sent).symm⟩

/-- The messages that are adopted: those that are better than the value and all before them. -/
def improvements (weight : W) : List (Message W) → List (Message W)
  | [] => []
  | m :: inbound =>
    if less m.weight weight then m :: improvements m.weight inbound
    else improvements weight inbound

theorem batch_of_passOn (h : job.passOn id edges replica value = .ok sent) :
    job.Batch edges (job.silences id replica) value sent := by
  unfold passOn at h
  split at h
  case isTrue hsilent =>
    cases h
    exact .none (.inl hsilent)
  case isFalse hloud => exact .each hloud (forward_ok h)

theorem weigh_of_passOn (h : job.passOn id edges replica value = .error fault) :
    ∃ edge ∈ edges, job.weigh edge = .error fault := by
  unfold passOn at h
  split at h
  case isTrue => cases h
  case isFalse => exact forward_error h

/-- What can become of one message. -/
inductive Receives (job : Job W) (id : VertexId) (edges : List Edge) (silent : Prop)
    (result : StepResult W) (m : Message W) : Except Fault (StepResult W) → Prop
  | kept (kept : less m.weight result.value.weight = false) :
      Receives job id edges silent result m (.ok result)
  | endless (endless : isFinite m.weight = false) :
      Receives job id edges silent result m
        (.error (PathValue.refusal id (.notFinite id (text m.weight))))
  | refused {edge : Edge} {fault : Fault} (mem : edge ∈ edges)
      (refused : job.weigh edge = .error fault) :
      Receives job id edges silent result m (.error fault)
  | adopted {batch : List (Outbound W)} (better : less m.weight result.value.weight)
      (sent : job.Batch edges silent (m.adopted id) batch) :
      Receives job id edges silent result m (.ok (result.adopted (m.adopted id) batch))

theorem receives {outcome : Except Fault (StepResult W)}
    (h : job.receive id edges replica result m = outcome) :
    job.Receives id edges (job.silences id replica) result m outcome := by
  subst h
  cases hless : less m.weight result.value.weight with
  | false =>
      rw [receive_of_kept hless]
      exact .kept hless
  | true =>
      cases hfinite : isFinite m.weight with
      | false =>
          have hendless : job.receive id edges replica result m =
              .error (PathValue.refusal id (.notFinite id (text m.weight))) := by
            simp [receive, hless, PathValue.adopt, PathValue.adoptWhen, hfinite, bind, Except.bind]
          rw [hendless]
          exact .endless hfinite
      | true =>
          rw [receive_of_better hless hfinite]
          cases hpassed : job.passOn id edges replica (m.adopted id) with
          | error fault =>
              obtain ⟨edge, hedge, hrefused⟩ := weigh_of_passOn hpassed
              exact .refused hedge hrefused
          | ok batch => exact .adopted hless (batch_of_passOn hpassed)

/-- What can be wrong with a call: an edge without a weight, or a message with an endless one. -/
inductive Balks (job : Job W) (id : VertexId) (edges : List Edge) (inbound : List (Message W)) :
    Fault → Prop
  | edge {edge : Edge} {fault : Fault} (mem : edge ∈ edges)
      (refused : job.weigh edge = .error fault) : Balks job id edges inbound fault
  | message {m : Message W} (mem : m ∈ inbound) (endless : isFinite m.weight = false) :
      Balks job id edges inbound (PathValue.refusal id (.notFinite id (text m.weight)))

theorem balks_of_foldlM {start : StepResult W} (part : List (Message W)) (hpart : part ⊆ inbound)
    (h : part.foldlM (job.receive id edges replica) start = .error fault) :
    job.Balks id edges inbound fault := by
  induction part generalizing start with
  | nil => cases h
  | cons m part ih =>
      obtain ⟨hm, hpart⟩ := List.cons_subset.mp hpart
      rw [List.foldlM_cons] at h
      rcases bind_eq_error.mp h with hfirst | ⟨next, _, hrest⟩
      · cases receives hfirst with
        | endless endless => exact .message hm endless
        | refused mem refused => exact .edge mem refused
      · exact ih hpart hrest

/-- What a vertex has done with some messages, from the result that it had before. -/
structure Adopts (job : Job W) (id : VertexId) (edges : List Edge) (silent : Prop)
    (inbound : List (Message W)) (start result : StepResult W) : Prop where
  value : result.value =
    (((improvements start.value.weight inbound).map (Message.adopted · id)).getLast?).getD
      start.value
  adoptions : result.adoptions =
    start.adoptions + (improvements start.value.weight inbound).length
  messages : ∃ sent, job.Batches edges silent
    ((improvements start.value.weight inbound).map (Message.adopted · id)) sent ∧
      result.messages = start.messages ++ sent

theorem adopts_foldlM {start : StepResult W}
    (h : inbound.foldlM (job.receive id edges replica) start = .ok result) :
    job.Adopts id edges (job.silences id replica) inbound start result := by
  induction inbound generalizing start with
  | nil =>
      cases h
      exact ⟨rfl, rfl, [], ⟨[], .nil, rfl⟩, (List.append_nil _).symm⟩
  | cons m inbound ih =>
      rw [List.foldlM_cons] at h
      obtain ⟨next, hnext, hrest⟩ := bind_eq_ok.mp h
      cases receives hnext with
      | kept kept =>
          have hsame : improvements start.value.weight (m :: inbound) =
              improvements start.value.weight inbound := by simp [improvements, kept]
          obtain ⟨hvalue, hadoptions, hmessages⟩ := ih hrest
          exact ⟨hsame ▸ hvalue, hsame ▸ hadoptions, hsame ▸ hmessages⟩
      | @adopted batch better hbatch =>
          have hmore : improvements start.value.weight (m :: inbound) =
              m :: improvements m.weight inbound := by simp [improvements, better]
          obtain ⟨hvalue, hadoptions, sent, ⟨batches, hbatches, rfl⟩, hmessages⟩ := ih hrest
          refine ⟨?_, ?_, batch ++ batches.flatten, ?_, ?_⟩
          · rw [hmore, List.map_cons, List.getLast?_cons, Option.getD_some]
            exact hvalue
          · rw [hmore, List.length_cons, hadoptions]
            simp only [StepResult.adopted, Message.adopted]
            omega
          · rw [hmore, List.map_cons]
            exact ⟨batch :: batches, .cons hbatch hbatches, rfl⟩
          · rw [hmessages]
            exact List.append_assoc ..

/-- What comes of the first superstep. -/
structure Opens (job : Job W) (id : VertexId) (edges : List Edge) (result : StepResult W) :
    Prop where
  value : result.value = if id = job.source then .source id else .unreached
  messages : job.Batches edges (job.targets = .single job.source)
    (if id = job.source then [.source id] else []) result.messages

theorem opens_of_init (h : job.init id edges = .ok result) : job.Opens id edges result := by
  cases (init_ok h).1 with
  | other ne value silent =>
      refine ⟨value.trans (if_neg ne).symm, ?_⟩
      rw [if_neg ne, silent]
      exact ⟨[], .nil, rfl⟩
  | silent source value silent reason =>
      refine ⟨value.trans (if_pos source).symm, ?_⟩
      rw [if_pos source, silent]
      exact .single (.none reason)
  | told source value sent =>
      refine ⟨value.trans (if_pos source).symm, ?_⟩
      rw [if_pos source]
      by_cases halone : job.targets = .single job.source
      · rw [messages_of_init halone h]
        exact .single (.none (.inl halone))
      · exact .single (.each halone (forward_ok sent))

/-- A call has either failed, for a cause, and changed nothing that anyone else can see, or sent in
order all that it had to send. -/
inductive AllOrNothing (send : σ → Outbound W → σ) (before : Desk W σ) (cause : Fault → Prop)
    (meant : StepResult W → Prop) : EStateM.Result Fault (Desk W σ) (StepResult W) → Prop
  | nothing {fault : Fault} {after : Desk W σ} (caused : cause fault)
      (context : after.context = before.context)
      (value : after.label.value = before.label.value) :
      AllOrNothing send before cause meant (.error fault after)
  | all {result : StepResult W} {after : Desk W σ} (told : meant result)
      (context : after.context = result.messages.foldl send before.context)
      (value : after.label.value = result.value) (stage : after.label.stage = .inactive) :
      AllOrNothing send before cause meant (.ok result after)

/-- **A call sends all or nothing.** If it fails, then for the weight of an edge or of a message, no
message has gone to the context and the vertex has the value that it had. If it returns, then what
went to the context, in this order, are the batches of the values that the vertex has taken: in the
first superstep of the value of the source, later of one value for each message that was better than
all before it. A batch is empty if the vertex keeps its value to itself or has no edges, and
otherwise holds one message for each edge, with the path and the weight of the value at that time
and the weight of the edge added. The last of these values stays, and the vertex is inactive. -/
theorem calls_send_all_or_nothing (job : Job W) (id : VertexId) (edges : List Edge)
    (inbound : List (Message W)) (replica : IdSet) (send : σ → Outbound W → σ)
    (desk : Desk W σ) :
    AllOrNothing send desk (job.Balks id edges []) (job.Opens id edges)
        ((job.call0 id edges send).run desk) ∧
      AllOrNothing send desk (job.Balks id edges inbound)
        (job.Adopts id edges (job.silences id (job.targets.enroll id replica)) inbound
          (.quiet desk.label.value (job.targets.contains id && !replica.contains id)))
        ((job.call id edges inbound replica send).run desk) := by
  rw [run_call0, run_call]
  constructor
  · unfold compute0
    cases hinit : job.init id edges with
    | error fault =>
        obtain ⟨_, edge, hedge, hrefused⟩ := init_error hinit
        exact .nothing (.edge hedge hrefused) rfl rfl
    | ok result => exact .all (opens_of_init hinit) rfl rfl rfl
  · unfold compute
    cases hstep : job.step id edges desk.label.value inbound replica with
    | error fault => exact .nothing (balks_of_foldlM inbound (List.Subset.refl _) hstep) rfl rfl
    | ok result => exact .all (adopts_foldlM hstep) rfl rfl rfl

end Job

end BulkPaths
