import BulkPaths.Proofs.Rearrangement

/-!
# Lockstep

Two systems with the same vertices, divided among the same number of workers. As long as every
vertex that is called gives the same answer in both, the systems go through the same states, but for
what has been reached, and where one of them fails the other fails with the same fault. The order in
which vertices are called is the same in both, so nothing is assumed of it.
-/

namespace BulkPaths

open PathWeight

variable {W : Type}

/-- Both computations succeed, with related results, or both fail for the same reason. -/
inductive Lockstep {α β : Type} (related : α → β → Prop) :
    Except (Aborted W) α → Except (Aborted W) β → Prop
  | ok {a : α} {b : β} (both : related a b) : Lockstep related (.ok a) (.ok b)
  | error {found found' : Aborted W} (same : found.fault = found'.fault) :
      Lockstep related (.error found) (.error found')

namespace Lockstep

variable {α β γ δ : Type}

theorem bind {related : α → β → Prop} {related' : γ → δ → Prop} {x : Except (Aborted W) α}
    {y : Except (Aborted W) β} {f : α → Except (Aborted W) γ} {f' : β → Except (Aborted W) δ}
    (h : Lockstep related x y) (hnext : ∀ {a b}, related a b → Lockstep related' (f a) (f' b)) :
    Lockstep related' (x >>= f) (y >>= f') := by
  cases h with
  | ok both => exact hnext both
  | error same => exact .error same

theorem exists_ok {related : α → β → Prop} {x : Except (Aborted W) α} {y : Except (Aborted W) β}
    (h : Lockstep related x y) {a : α} (hx : x = .ok a) : ∃ b, y = .ok b ∧ related a b := by
  cases h with
  | ok both =>
      cases hx
      exact ⟨_, rfl, both⟩
  | error => cases hx

theorem exists_error {related : α → β → Prop} {x : Except (Aborted W) α}
    {y : Except (Aborted W) β} (h : Lockstep related x y) {found : Aborted W}
    (hx : x = .error found) : ∃ found', y = .error found' ∧ found.fault = found'.fault := by
  cases h with
  | ok => cases hx
  | error same =>
      cases hx
      exact ⟨_, rfl, same⟩

/-- The relation may speak of what is left of the list. -/
theorem foldlM (paired : γ → δ → Prop) (related : List γ → α → β → Prop)
    {f : α → γ → Except (Aborted W) α} {f' : β → δ → Except (Aborted W) β}
    (hstep : ∀ {x y rest a b}, paired x y → related (x :: rest) a b →
      Lockstep (related rest) (f a x) (f' b y))
    {l : List γ} {l' : List δ} (hpaired : List.Forall₂ paired l l') {a : α} {b : β}
    (h : related l a b) : Lockstep (related []) (l.foldlM f a) (l'.foldlM f' b) := by
  induction hpaired generalizing a b with
  | nil => exact .ok h
  | cons hfirst _ ih =>
      rw [List.foldlM_cons, List.foldlM_cons]
      exact (hstep hfirst h).bind ih

end Lockstep

/-- What a turn shows to others: all but whether the vertex is new to its worker's replica. -/
def StepResult.shown (result : StepResult W) : StepResult W := { result with newlyReached := false }

variable [PathWeight W]

namespace Job

/-- The edges along which a vertex that is called passes on what it adopts. -/
def outlets (job : Job W) (g : PropertyGraph) (call : Call W) (replica : IdSet) :
    Option (List Edge) :=
  (g.edges? call.1).map fun edges => if job.mutes call replica then [] else edges

variable {job : Job W} {g g' : PropertyGraph} {targets targets' : Targets} {call : Call W}
  {v : VertexId} {edges : List Edge} {m : Message W} {value : PathValue W}
  {replica replica' : IdSet}

theorem init_aimed (halone : targets ≠ .single job.source) :
    (job.aimed targets).init v edges = (job.aimed .all).init v edges := by
  have halone : (targets == .single job.source) = false := by simpa using halone
  have hall : (Targets.all == .single job.source) = false := by simp
  simp only [init, aimed, halone, hall]
  rfl

/-- In the answer to a message the targets decide along which edges it is passed on, no more. -/
theorem shown_step : (job.step v edges value [m] replica).map StepResult.shown =
    if less m.weight value.weight then do
      let adopted ← value.adopt v m.path m.weight
      let sent ← job.forward adopted (if job.mutes (v, some m) replica then [] else edges)
      .ok ((StepResult.quiet value false).adopted adopted sent)
    else .ok (.quiet value false) := by
  have hmutes : job.mutes (v, some m) replica = (job.targets.contains v &&
      job.targets.allReached (job.targets.enroll v replica) v) := Bool.true_and _
  rw [step_singleton, hmutes]
  unfold receive StepResult.quiet
  by_cases hbetter : less m.weight value.weight = true
  case neg => simp [hbetter, StepResult.shown, Except.map]
  case pos =>
    simp only [hbetter, Bool.not_true, Bool.false_eq_true, if_false, if_true]
    cases value.adopt v m.path m.weight with
    | error fault => rfl
    | ok adopted =>
        cases job.targets.contains v && job.targets.allReached (job.targets.enroll v replica) v with
        | true => rfl
        | false =>
            simp only [Bool.false_eq_true, if_false]
            cases hsent : job.forward adopted edges with
            | error fault => simp [hsent, bind, Except.bind, Except.map]
            | ok sent =>
                simp [hsent, bind, Except.bind, Except.map, StepResult.shown, StepResult.adopted]

theorem shown_act (halone : targets ≠ .single job.source) (halone' : targets' ≠ .single job.source)
    (hknown : call.1 ∈ g.ids) (hknown' : call.1 ∈ g'.ids)
    (hfirst : call.2 = none → call.1 = job.source → g.edges? call.1 = g'.edges? call.1)
    (hbetter : ∀ m, call.2 = some m → less m.weight value.weight →
      (job.aimed targets).outlets g call replica = (job.aimed targets').outlets g' call replica') :
    ((job.aimed targets).act g call value replica).map StepResult.shown =
      ((job.aimed targets').act g' call value replica').map StepResult.shown := by
  obtain ⟨v, message⟩ := call
  obtain ⟨edges, hedges⟩ := g.exists_edges hknown
  obtain ⟨edges', hedges'⟩ := g'.exists_edges hknown'
  simp only [act, hedges, hedges']
  cases message with
  | none =>
      rw [init_aimed halone, init_aimed halone']
      by_cases hsource : v = job.source
      · have hsame := hfirst rfl hsource
        rw [hedges, hedges'] at hsame
        rw [Option.some.inj hsame]
      · have hother : (v != (job.aimed .all).source) = true := by simpa [aimed] using hsource
        simp only [init, hother, if_true]
  | some m =>
      rw [shown_step, shown_step]
      by_cases hless : less m.weight value.weight = true
      · have hsame := hbetter m rfl hless
        simp only [outlets, hedges, hedges', Option.map_some, Option.some.injEq] at hsame
        rw [hsame]
        rfl
      · rw [if_neg hless, if_neg hless]

/-- The call is answered alike in both systems, whatever the replicas hold. -/
def AnswersAlike (job : Job W) (g : PropertyGraph) (job' : Job W) (g' : PropertyGraph)
    (before : Labels W) (call : Call W) : Prop :=
  ∀ replica replica', (job.act g call (before.label call.1).value replica).map StepResult.shown =
    (job'.act g' call (before.label call.1).value replica').map StepResult.shown

end Job

variable {job job' : Job W} {g g' : PropertyGraph} {before : Labels W} {index : Nat}
  {calls later : List (Call W)}

namespace Pass

/-- Passes that have done the same, before the calls that are left. -/
structure InStep (before : Labels W) (calls : List (Call W)) (pass pass' : Pass W) : Prop where
  labels : pass.labels = pass'.labels
  outbox : pass.outbox = pass'.outbox
  active : pass.active = pass'.active
  sent : pass.sent = pass'.sent
  adoptions : pass.adoptions = pass'.adoptions
  distinct : (calls.map Prod.fst).Nodup
  agree : pass.labels.Agree before calls

variable {pass pass' : Pass W} {call : Call W} {worker worker' : Nat}

theorem after_inStep {turn turn' : Turn W} (h : InStep before (turn.call :: calls) pass pass')
    (hvertex : turn.vertex = turn'.vertex) (hshown : turn.result.shown = turn'.result.shown) :
    InStep before calls (pass.after job worker turn) (pass'.after job' worker' turn') := by
  obtain ⟨hnew, hdistinct⟩ := List.nodup_cons.mp h.distinct
  simp only [StepResult.shown, StepResult.mk.injEq] at hshown
  obtain ⟨hvalue, hmessages, hadoptions, _⟩ := hshown
  refine ⟨?_, ?_, ?_, ?_, ?_, hdistinct, agree_after (fun call hcall => ?_) hnew⟩
  · simp only [after, h.labels, hvertex, Job.settled, hvalue]
  · simp only [after, h.outbox, hmessages]
  · simp only [after, h.active]
  · simp only [after, h.sent, hmessages]
  · simp only [after, h.adoptions, hadoptions]
  · exact h.agree call (List.mem_cons_of_mem _ hcall)

theorem take_lockstep (h : InStep before (call :: calls) pass pass')
    (hacts : job.AnswersAlike g job' g' before call) :
    Lockstep (InStep before calls) (take g job worker pass call)
      (take g' job' worker' pass' call) := by
  have hheld := h.agree call List.mem_cons_self
  have hheld' : pass'.labels.label call.1 = before.label call.1 := h.labels ▸ hheld
  have hsame := hacts pass.replica pass'.replica
  nth_rewrite 1 [← hheld] at hsame
  rw [← hheld'] at hsame
  rcases take_cases g job worker pass call with ⟨result, hact, htake⟩ | ⟨found, htake, hact⟩
  · rcases take_cases g' job' worker' pass' call with
      ⟨result', hact', htake'⟩ | ⟨found', _, hact'⟩
    · rw [hact, hact'] at hsame
      rw [htake, htake']
      exact .ok (after_inStep h rfl (Except.ok.inj hsame))
    · rw [hact, hact'] at hsame
      cases hsame
  · rcases take_cases g' job' worker' pass' call with
      ⟨result', hact', _⟩ | ⟨found', htake', hact'⟩
    · rw [hact, hact'] at hsame
      cases hsame
    · rw [hact, hact'] at hsame
      rw [htake, htake']
      exact .error (Except.error.inj hsame)

theorem foldlM_take_lockstep (h : InStep before (calls ++ later) pass pass')
    (hacts : ∀ call ∈ calls, job.AnswersAlike g job' g' before call) :
    Lockstep (InStep before later) (calls.foldlM (take g job worker) pass)
      (calls.foldlM (take g' job' worker') pass') := by
  refine Lockstep.foldlM
    (fun call call' => call = call' ∧ job.AnswersAlike g job' g' before call)
    (fun rest => InStep before (rest ++ later)) ?_ ?_ h
  · rintro call _ rest pass pass' ⟨rfl, hact⟩ hstep
    exact take_lockstep hstep hact
  · exact List.forall₂_same.mpr fun call hcall => ⟨rfl, hacts call hcall⟩

end Pass

/-- Workers that hold the same, but for their replicas. -/
structure Worker.InStep (worker worker' : Worker W) : Prop where
  index : worker.index = worker'.index
  owned : worker.owned = worker'.owned
  inbox : worker.inbox = worker'.inbox
  outbox : worker.outbox = worker'.outbox

namespace Worker.InStep

variable {worker worker' : Worker W} {workers workers' : List (Worker W)}

omit [PathWeight W] in
theorem symm (h : worker.InStep worker') : worker'.InStep worker :=
  ⟨h.index.symm, h.owned.symm, h.inbox.symm, h.outbox.symm⟩

omit [PathWeight W] in
theorem due (h : worker.InStep worker') (index : Nat) : worker.due index = worker'.due index := by
  unfold Worker.due
  rw [h.owned, h.inbox]

omit [PathWeight W] in
theorem flatMap_eq {α : Type} {f : Worker W → List α} (h : List.Forall₂ InStep workers workers')
    (hf : ∀ {worker worker'}, worker.InStep worker' → f worker = f worker') :
    workers.flatMap f = workers'.flatMap f := by
  induction h with
  | nil => rfl
  | cons hfirst _ ih => rw [List.flatMap_cons, List.flatMap_cons, hf hfirst, ih]

theorem delivered_eq (h : List.Forall₂ InStep workers workers') :
    State.delivered workers = State.delivered workers' := by
  unfold State.delivered
  generalize ([] : Mailbox W) = box
  induction h generalizing box with
  | nil => rfl
  | cons hfirst _ ih => rw [List.foldl_cons, List.foldl_cons, hfirst.outbox, ih]

end Worker.InStep

namespace State

structure Round.InStep (before : Labels W) (calls : List (Call W)) (round round' : Round W) :
    Prop where
  workers : List.Forall₂ Worker.InStep round.workers round'.workers
  labels : round.labels = round'.labels
  active : round.active = round'.active
  sent : round.sent = round'.sent
  adoptions : round.adoptions = round'.adoptions
  distinct : (calls.map Prod.fst).Nodup
  agree : round.labels.Agree before calls

variable {round round' : Round W} {merged merged' : IdSet}

theorem advance_lockstep {worker worker' : Worker W} (hworkers : worker.InStep worker')
    (h : Round.InStep before (worker.due index ++ later) round round')
    (hacts : ∀ call ∈ worker.due index, job.AnswersAlike g job' g' before call) :
    Lockstep (Round.InStep before later) (advance g job index merged round worker)
      (advance g' job' index merged' round' worker') := by
  have hdue : Worker.due index { worker' with replica := merged' } = worker.due index :=
    (hworkers.due index).symm
  have hpasses : Lockstep (Pass.InStep before later)
      (Worker.compute g job index { worker with replica := merged } round.labels round.events)
      (Worker.compute g' job' index { worker' with replica := merged' } round'.labels
        round'.events) := by
    rw [Worker.compute_eq, Worker.compute_eq, hdue]
    exact Pass.foldlM_take_lockstep
      ⟨h.labels, hworkers.outbox, rfl, rfl, rfl, h.distinct, h.agree⟩ hacts
  unfold advance
  refine hpasses.bind fun {pass pass'} hpass => ?_
  refine .ok ⟨?_, hpass.labels, ?_, ?_, ?_, hpass.distinct, hpass.agree⟩
  · exact List.rel_append h.workers
      (.cons ⟨hworkers.index, hworkers.owned, rfl, hpass.outbox⟩ .nil)
  · simp only [h.active, hpass.active]
  · simp only [h.sent, hpass.sent]
  · simp only [h.adoptions, hpass.adoptions]

/-- States of systems that have done the same work, whatever they have reached. -/
structure InStep (s t : State W) : Prop where
  workers : List.Forall₂ Worker.InStep s.workers t.workers
  labels : s.labels = t.labels
  counters : s.counters = t.counters
  work : s.history.map Stats.work = t.history.map Stats.work

variable {s t : State W} {count count' : Nat}

namespace InStep

omit [PathWeight W] in
theorem symm (h : s.InStep t) : t.InStep s where
  workers := (h.workers.imp fun _ _ hworkers => hworkers.symm).flip
  labels := h.labels.symm
  counters := h.counters.symm
  work := h.work.symm

omit [PathWeight W] in
theorem due (h : s.InStep t) (index : Nat) : s.due index = t.due index :=
  Worker.InStep.flatMap_eq h.workers fun hworkers => hworkers.due index

omit [PathWeight W] in
theorem pending (h : s.InStep t) : s.pending = t.pending := by
  unfold State.pending
  rw [Worker.InStep.flatMap_eq h.workers Worker.InStep.inbox]

theorem round_lockstep (h : s.InStep t) (hdistinct : ((s.due index).map Prod.fst).Nodup)
    (hacts : ∀ call ∈ s.due index, job.AnswersAlike g job' g' s.labels call) :
    Lockstep (Round.InStep s.labels []) (s.round g job index) (t.round g' job' index) := by
  refine Lockstep.foldlM
    (fun worker worker' => (∀ call ∈ worker.due index, job.AnswersAlike g job' g' s.labels call) ∧
      worker.InStep worker')
    (fun rest => Round.InStep s.labels (rest.flatMap (Worker.due index))) ?_ ?_ ?_
  · rintro worker worker' rest round round' ⟨hanswers, hworkers⟩ hstep
    exact advance_lockstep hworkers hstep hanswers
  · refine (List.forall₂_and_left _ _).mpr ⟨fun worker hworker call hcall => ?_, h.workers⟩
    exact hacts call (List.mem_flatMap.mpr ⟨worker, hworker, hcall⟩)
  · exact ⟨.nil, h.labels, rfl, rfl, rfl, hdistinct, fun _ _ => rfl⟩

theorem settled (h : s.InStep t) (hround : Round.InStep before [] round round')
    (merged merged' : IdSet) :
    (s.settled index round merged).InStep (t.settled index round' merged') := by
  have hbox := Worker.InStep.delivered_eq hround.workers
  have hcount := hround.workers.length_eq
  unfold State.settled
  refine ⟨?_, hround.labels, ?_, ?_⟩
  · rw [List.forall₂_map_left_iff, List.forall₂_map_right_iff]
    refine hround.workers.imp fun worker worker' hworkers => ?_
    refine ⟨hworkers.index, hworkers.owned, ?_, rfl⟩
    simp only [hand, hbox, hcount, hworkers.index]
  · simp only [Counters.add, h.counters, hround.active, hround.sent, hround.adoptions, hbox]
  · simp only [List.map_append, h.work, List.map_singleton, Stats.work, hround.active, hround.sent,
      hround.adoptions, hbox]

/-- A superstep from states in step leads to states in step, or fails with the same fault. -/
theorem superstep (h : s.InStep t) (hs : s.Sound g job count) (ht : t.Sound g' job' count')
    (hacts : ∀ call ∈ s.due index, job.AnswersAlike g job' g' s.labels call) :
    Lockstep InStep (s.superstep g job index) (t.superstep g' job' index) := by
  obtain ⟨_, hrouted⟩ := hs.routed
  have hround := h.round_lockstep (hrouted.nodup_due index) hacts
  unfold State.superstep State.superstepBy
  generalize hx : s.round g job index = x at hround
  generalize hy : t.round g' job' index = y at hround
  cases hround with
  | error same => exact .error same
  | @ok round round' both =>
      -- the replicas differ, and so do the merged sets, but neither merge fails
      obtain ⟨merged, hbarrier⟩ := exists_settled hs hx
      obtain ⟨merged', hbarrier'⟩ := exists_settled ht hy
      change Lockstep InStep (s.barrier index round) (t.barrier index round')
      rw [hbarrier, hbarrier']
      exact .ok (h.settled both merged merged')

end InStep

end State

/-- What a result says of the vertices and of the work, superstep by superstep. -/
def Result.record (result : Result W) :
    List (VertexId × PathValue W) × Nat × Counters × List Stats :=
  (result.values, result.supersteps, result.counters, result.history.map Stats.work)

namespace Run

variable {limits : Limits} {k : Nat} {s t : State W} {fault : Fault}

/-- Systems on the same vertices, neither of which stops early, that answer alike as long as they
are in step. -/
structure Synced (g : PropertyGraph) (job : Job W) (g' : PropertyGraph) (job' : Job W)
    (limits : Limits) : Prop where
  ids : g.ids = g'.ids
  wanted : ∀ {k s}, Boundary g job limits k s →
    (limits.stopEarly && s.aggregator.converged) = false
  wanted' : ∀ {k s}, Boundary g' job' limits k s →
    (limits.stopEarly && s.aggregator.converged) = false
  answers : ∀ {k s t}, Ready g job limits k s → Ready g' job' limits k t → s.InStep t →
    ∀ call ∈ s.due k, job.AnswersAlike g job' g' s.labels call

theorem inStep_initial (hids : g.ids = g'.ids) :
    (initial g job limits).InStep (initial g' job' limits) := by
  unfold initial State.start
  rw [hids]
  exact ⟨List.forall₂_same.mpr fun _ _ => ⟨rfl, rfl, rfl, rfl⟩, rfl, rfl, rfl⟩

theorem record_result (hids : g.ids = g'.ids) (h : s.InStep t) :
    (result g job s).record = (result g' job' t).record := by
  have hlength : s.history.length = t.history.length := by
    simpa using congrArg List.length h.work
  simp only [Result.record, result, hids, h.labels, hlength, h.counters, h.work]

namespace Synced

theorem symm (h : Synced g job g' job' limits) : Synced g' job' g job limits where
  ids := h.ids.symm
  wanted := h.wanted'
  wanted' := h.wanted
  answers := by
    intro k s t hs ht hstep call hcall replica replica'
    rw [hstep.due] at hcall
    rw [hstep.labels]
    exact (h.answers ht hs hstep.symm call hcall replica' replica).symm

theorem mem_ids_iff (h : Synced g job g' job' limits) (v : VertexId) : v ∈ g'.ids ↔ v ∈ g.ids := by
  rw [h.ids]

theorem divided (h : Synced g job g' job' limits) (hdivided : g.Divisible limits.workers) :
    g'.Divisible limits.workers := hdivided.congr h.mem_ids_iff

theorem continues (h : Synced g job g' job' limits) (ht : Boundary g' job' limits k t)
    (hstep : s.InStep t) (goes : s.Continues limits k) : t.Continues limits k :=
  ⟨hstep.pending ▸ goes.pending, h.wanted' ht, goes.allowed⟩

variable [LawfulPathWeight W]

theorem superstep (h : Synced g job g' job' limits) (hs : Ready g job limits k s)
    (ht : Ready g' job' limits k t) (hstep : s.InStep t) :
    Lockstep State.InStep (s.superstep g job k) (t.superstep g' job' k) :=
  hstep.superstep hs.sound ht.sound (h.answers hs ht hstep)

theorem exists_inStep (h : Synced g job g' job' limits) (hs : Boundary g job limits k s) :
    ∃ t, Boundary g' job' limits k t ∧ s.InStep t := by
  refine hs.exists_counterpart (h.divided hs.divided) ?_ ?_
  · intro s hok
    have hboth := h.superstep (.first hs.divided) (.first (h.divided hs.divided))
      (inStep_initial h.ids)
    exact hboth.exists_ok hok
  · intro k s s' t hs ht hstep goes hok
    exact ⟨h.continues ht hstep goes, (h.superstep (.later hs) (.later ht) hstep).exists_ok hok⟩

theorem failsIn (h : Synced g job g' job' limits) (hfails : FailsIn g job limits k fault) :
    FailsIn g' job' limits k fault := by
  cases hfails with
  | first divided step =>
      have hboth :=
        h.superstep (.first divided) (.first (h.divided divided)) (inStep_initial h.ids)
      obtain ⟨found, hother, hfault⟩ := hboth.exists_error step
      rw [hfault]
      exact .first (h.divided divided) hother
  | later boundary goes step =>
      obtain ⟨t, ht, hstep⟩ := h.exists_inStep boundary
      have hboth := h.superstep (.later boundary) (.later ht) hstep
      obtain ⟨found, hother, hfault⟩ := hboth.exists_error step
      rw [hfault]
      exact .later ht (h.continues ht hstep goes) hother

theorem failsIn_iff (h : Synced g job g' job' limits) :
    FailsIn g job limits k fault ↔ FailsIn g' job' limits k fault :=
  ⟨h.failsIn, h.symm.failsIn⟩

/-- Runs in step end in the same superstep, in the same way. -/
theorem record_outcome (h : Synced g job g' job' limits) :
    (ofJob g job limits).outcome.map Result.record =
      (ofJob g' job' limits).outcome.map Result.record := by
  rcases g.divisible_or limits.workers with hdivided | ⟨fault, hcause⟩
  case inr =>
    rw [outcome_of_undivided hcause, outcome_of_undivided (hcause.congr h.mem_ids_iff)]
  rcases exists_end job hdivided with
    ⟨k, fault, hfails⟩ | ⟨k, s, hs, hhalts⟩ | ⟨k, s, hs, hbounded⟩
  · rw [hfails.outcome, (h.failsIn hfails).outcome]
  · obtain ⟨t, ht, hstep⟩ := h.exists_inStep hs
    have hempty : s.pending = 0 := hhalts.resolve_right (by simp [h.wanted hs])
    rw [hs.outcome_of_halts hhalts, ht.outcome_of_halts (.inl (hstep.pending ▸ hempty))]
    exact congrArg Except.ok (record_result h.ids hstep)
  · obtain ⟨t, ht, hstep⟩ := h.exists_inStep hs
    have hbounded' : t.Bounded limits k :=
      ⟨hstep.pending ▸ hbounded.pending, h.wanted' ht, hbounded.bound⟩
    rw [hs.outcome_of_bounded hbounded, ht.outcome_of_bounded hbounded', hstep.pending]

end Synced

end Run

end BulkPaths
