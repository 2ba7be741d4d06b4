import BulkPaths.Proofs.Turns
import Mathlib.Data.List.Nodup

/-!
# Rounds

In a round every worker computes what is due, one worker after the other. No vertex belongs to two
workers, so what one worker does is invisible to the next: each turn of a round is taken on the
labels of before the round.
-/

namespace BulkPaths

variable {W : Type}

/-- A worker and the turns that it took. -/
abbrev Shift (W : Type) := Worker W × List (Turn W)

namespace Shift

def turns (shifts : List (Shift W)) : List (Turn W) := shifts.flatMap Prod.snd

theorem turns_cons (shift : Shift W) (shifts : List (Shift W)) :
    turns (shift :: shifts) = shift.2 ++ turns shifts := List.flatMap_cons

/-- What the workers of a round have in their outboxes. -/
def lots (shifts : List (Shift W)) : List (List (Outbound W)) :=
  shifts.map fun shift => Turn.sent shift.2

theorem flatten_lots (shifts : List (Shift W)) :
    (lots shifts).flatten = Turn.sent (turns shifts) := by
  induction shifts with
  | nil => rfl
  | cons shift shifts ih =>
      rw [turns_cons, Turn.sent_append, ← ih]
      rfl

end Shift

variable [PathWeight W]

namespace Worker

/-- The calls of a worker: every vertex in the first superstep, later those with a message. -/
def due (index : Nat) (worker : Worker W) : List (Call W) :=
  if index = 0 then worker.owned.map fun id => (id, none)
  else worker.inbox.map fun delivery => (delivery.1, some delivery.2)

/-- The worker after its turns, which started from the merged replica. -/
def worked (job : Job W) (merged : IdSet) (worker : Worker W) (turns : List (Turn W)) : Worker W :=
  { worker with
    inbox := []
    outbox := worker.outbox.postAll (Turn.sent turns)
    replica := job.replicaAfter merged turns }

theorem compute_eq (g : PropertyGraph) (job : Job W) (index : Nat) (worker : Worker W)
    (labels : Labels W) (events : List Event) :
    worker.compute g job index labels events =
      (worker.due index).foldlM (Pass.take g job worker.index)
        { labels, replica := worker.replica, outbox := worker.outbox, active := 0, sent := 0,
          adoptions := 0, events } := by
  unfold compute due
  split
  case isTrue =>
    rw [List.foldlM_map]
    rfl
  case isFalse =>
    rw [List.foldlM_map]
    rfl

end Worker

namespace State

namespace Round

def after (job : Job W) (merged : IdSet) (round : Round W) (shift : Shift W) : Round W :=
  { workers := round.workers ++ [shift.1.worked job merged shift.2]
    labels := round.labels.settle shift.2
    active := round.active + shift.2.length
    sent := round.sent + (Turn.sent shift.2).length
    adoptions := round.adoptions + Turn.adoptions shift.2
    events := round.events ++ Turn.notes shift.1.index shift.2 }

theorem foldl_after (job : Job W) (merged : IdSet) (round : Round W) (shifts : List (Shift W)) :
    shifts.foldl (after job merged) round =
      { workers := round.workers ++ shifts.map fun shift => shift.1.worked job merged shift.2
        labels := round.labels.settle (Shift.turns shifts)
        active := round.active + (Shift.turns shifts).length
        sent := round.sent + (Turn.sent (Shift.turns shifts)).length
        adoptions := round.adoptions + Turn.adoptions (Shift.turns shifts)
        events := round.events ++
          shifts.flatMap fun shift => Turn.notes shift.1.index shift.2 } := by
  induction shifts generalizing round with
  | nil => simp [Shift.turns, Turn.sent, Turn.adoptions, Labels.settle]
  | cons shift shifts ih =>
      rw [List.foldl_cons, ih]
      simp [after, Shift.turns_cons, Labels.settle_append, Turn.sent_append,
        Turn.adoptions_append, Nat.add_assoc]

end Round

variable {g : PropertyGraph} {job : Job W} {index : Nat} {merged : IdSet} {before : Labels W}
  {round round' : Round W} {worker : Worker W} {workers : List (Worker W)} {aborted : Aborted W}

theorem advance_ok (hdistinct : ((worker.due index).map Prod.fst).Nodup)
    (hagree : round.labels.Agree before (worker.due index))
    (h : advance g job index merged round worker = .ok round') :
    ∃ turns, Turns g job before merged (worker.due index) turns ∧
      round' = round.after job merged (worker, turns) := by
  unfold advance at h
  obtain ⟨pass, hpass, h⟩ := bind_eq_ok.mp h
  rw [Worker.compute_eq] at hpass
  obtain ⟨turns, hturns, rfl⟩ := Pass.foldlM_take_ok hdistinct hagree hpass
  refine ⟨turns, hturns, ?_⟩
  cases h
  simp only [Pass.labels_foldl_after, Pass.replica_foldl_after, Pass.outbox_foldl_after,
    Pass.active_foldl_after, Pass.sent_foldl_after, Pass.adoptions_foldl_after,
    Pass.events_foldl_after, Nat.zero_add]
  rfl

theorem advance_error (hdistinct : ((worker.due index).map Prod.fst).Nodup)
    (hagree : round.labels.Agree before (worker.due index))
    (h : advance g job index merged round worker = .error aborted) :
    ∃ call ∈ worker.due index, ∃ replica,
      job.act g call (before.label call.1).value replica = .error aborted.fault := by
  unfold advance at h
  rcases bind_eq_error.mp h with hfound | ⟨pass, _, h⟩
  · rw [Worker.compute_eq] at hfound
    exact Pass.foldlM_take_error hdistinct hagree hfound
  · cases h

theorem agree_after {turns : List (Turn W)} {calls : List (Call W)}
    (hturns : Turns g job before merged (worker.due index) turns)
    (hagree : round.labels.Agree before calls)
    (hapart : ((worker.due index).map Prod.fst).Disjoint (calls.map Prod.fst)) :
    (round.after job merged (worker, turns)).labels.Agree before calls := by
  apply Labels.Agree.settle hagree
  intro turn hturn
  apply hapart (List.mem_map.mpr ⟨turn.call, ?_, rfl⟩)
  rw [← hturns.calls]
  exact List.mem_map_of_mem hturn

theorem foldlM_advance_ok (hdistinct : ((workers.flatMap (Worker.due index)).map Prod.fst).Nodup)
    (hagree : round.labels.Agree before (workers.flatMap (Worker.due index)))
    (h : workers.foldlM (advance g job index merged) round = .ok round') :
    ∃ shifts : List (Shift W), shifts.map Prod.fst = workers ∧
      (∀ shift ∈ shifts, Turns g job before merged (shift.1.due index) shift.2) ∧
      round' = shifts.foldl (Round.after job merged) round := by
  induction workers generalizing round with
  | nil =>
      cases h
      exact ⟨[], rfl, by simp, rfl⟩
  | cons worker workers ih =>
      rw [List.flatMap_cons, List.map_append, List.nodup_append'] at hdistinct
      obtain ⟨hfirst, hrest, hapart⟩ := hdistinct
      rw [List.flatMap_cons] at hagree
      rw [List.foldlM_cons] at h
      obtain ⟨next, hnext, h⟩ := bind_eq_ok.mp h
      obtain ⟨turns, hturns, rfl⟩ := advance_ok hfirst (fun call hcall =>
        hagree call (List.mem_append_left _ hcall)) hnext
      have hlater := agree_after hturns (fun call hcall =>
        hagree call (List.mem_append_right _ hcall)) hapart
      obtain ⟨shifts, hworkers, hall, rfl⟩ := ih hrest hlater h
      refine ⟨(worker, turns) :: shifts, by rw [List.map_cons, hworkers], ?_, rfl⟩
      intro shift hshift
      rcases List.mem_cons.mp hshift with rfl | hmem
      · exact hturns
      · exact hall shift hmem

theorem foldlM_advance_error
    (hdistinct : ((workers.flatMap (Worker.due index)).map Prod.fst).Nodup)
    (hagree : round.labels.Agree before (workers.flatMap (Worker.due index)))
    (h : workers.foldlM (advance g job index merged) round = .error aborted) :
    ∃ call ∈ workers.flatMap (Worker.due index), ∃ replica,
      job.act g call (before.label call.1).value replica = .error aborted.fault := by
  induction workers generalizing round with
  | nil => cases h
  | cons worker workers ih =>
      rw [List.flatMap_cons, List.map_append, List.nodup_append'] at hdistinct
      obtain ⟨hfirst, hrest, hapart⟩ := hdistinct
      rw [List.flatMap_cons] at hagree ⊢
      have hhere : round.labels.Agree before (worker.due index) := fun call hcall =>
        hagree call (List.mem_append_left _ hcall)
      rw [List.foldlM_cons] at h
      rcases bind_eq_error.mp h with hfound | ⟨next, hnext, h⟩
      · obtain ⟨call, hcall, hact⟩ := advance_error hfirst hhere hfound
        exact ⟨call, List.mem_append_left _ hcall, hact⟩
      · obtain ⟨turns, hturns, rfl⟩ := advance_ok hfirst hhere hnext
        have hlater := agree_after hturns (fun call hcall =>
          hagree call (List.mem_append_right _ hcall)) hapart
        obtain ⟨call, hcall, hact⟩ := ih hrest hlater h
        exact ⟨call, List.mem_append_right _ hcall, hact⟩

theorem advance_of_turns {turns : List (Turn W)}
    (hdistinct : ((worker.due index).map Prod.fst).Nodup)
    (hagree : round.labels.Agree before (worker.due index))
    (h : Turns g job before merged (worker.due index) turns) :
    advance g job index merged round worker = .ok (round.after job merged (worker, turns)) := by
  let pass : Pass W :=
    { labels := round.labels, replica := merged, outbox := worker.outbox, active := 0, sent := 0,
      adoptions := 0, events := round.events }
  have hpass : (worker.due index).foldlM (Pass.take g job worker.index) pass =
      .ok (turns.foldl (Pass.after job worker.index) pass) :=
    Pass.foldlM_take_of_turns hdistinct hagree h
  unfold advance
  refine bind_eq_ok.mpr ⟨_, (Worker.compute_eq ..).trans hpass, ?_⟩
  simp only [pass, Pass.labels_foldl_after, Pass.replica_foldl_after, Pass.outbox_foldl_after,
    Pass.active_foldl_after, Pass.sent_foldl_after, Pass.adoptions_foldl_after,
    Pass.events_foldl_after, Nat.zero_add]
  rfl

theorem foldlM_advance_of_turns {shifts : List (Shift W)}
    (hdistinct : (((shifts.map Prod.fst).flatMap (Worker.due index)).map Prod.fst).Nodup)
    (hagree : round.labels.Agree before ((shifts.map Prod.fst).flatMap (Worker.due index)))
    (h : ∀ shift ∈ shifts, Turns g job before merged (shift.1.due index) shift.2) :
    (shifts.map Prod.fst).foldlM (advance g job index merged) round =
      .ok (shifts.foldl (Round.after job merged) round) := by
  induction shifts generalizing round with
  | nil => rfl
  | cons shift shifts ih =>
      rw [List.map_cons, List.flatMap_cons] at hdistinct hagree
      rw [List.map_append, List.nodup_append'] at hdistinct
      obtain ⟨hfirst, hrest, hapart⟩ := hdistinct
      have hturns := h shift List.mem_cons_self
      rw [List.map_cons, List.foldlM_cons, advance_of_turns hfirst
        (fun call hcall => hagree call (List.mem_append_left _ hcall)) hturns]
      exact ih hrest (agree_after hturns (fun call hcall =>
        hagree call (List.mem_append_right _ hcall)) hapart) fun later hlater =>
          h later (List.mem_cons_of_mem _ hlater)

/-- The round that is made of the shifts, from the state. -/
def Round.ofShifts (job : Job W) (s : State W) (shifts : List (Shift W)) : Round W :=
  { workers := shifts.map fun shift => shift.1.worked job s.aggregator.merged shift.2
    labels := s.labels.settle (Shift.turns shifts)
    active := (Shift.turns shifts).length
    sent := (Turn.sent (Shift.turns shifts)).length
    adoptions := Turn.adoptions (Shift.turns shifts)
    events := s.events ++ shifts.flatMap fun shift => Turn.notes shift.1.index shift.2 }

/-- What the workers do in a superstep that gets through: each takes a turn for every one of its
calls. -/
structure Works (g : PropertyGraph) (job : Job W) (index : Nat) (s : State W)
    (shifts : List (Shift W)) : Prop where
  workers : shifts.map Prod.fst = s.workers
  turns : ∀ shift ∈ shifts,
    Turns g job s.labels s.aggregator.merged (shift.1.due index) shift.2

theorem round_ok {s : State W}
    (hdistinct : ((s.workers.flatMap (Worker.due index)).map Prod.fst).Nodup)
    (h : s.round g job index = .ok round) :
    ∃ shifts, s.Works g job index shifts ∧ round = .ofShifts job s shifts := by
  have hagree : s.labels.Agree s.labels (s.workers.flatMap (Worker.due index)) := fun _ _ => rfl
  obtain ⟨shifts, hworkers, hturns, rfl⟩ := foldlM_advance_ok hdistinct hagree h
  refine ⟨shifts, ⟨hworkers, hturns⟩, ?_⟩
  rw [Round.foldl_after]
  simp only [List.nil_append, Nat.zero_add, Round.ofShifts]

theorem round_of_works {s : State W} {shifts : List (Shift W)}
    (hdistinct : ((s.workers.flatMap (Worker.due index)).map Prod.fst).Nodup)
    (h : s.Works g job index shifts) : s.round g job index = .ok (.ofShifts job s shifts) := by
  have hagree : s.labels.Agree s.labels (s.workers.flatMap (Worker.due index)) := fun _ _ => rfl
  rw [← h.workers] at hdistinct hagree
  unfold State.round
  rw [← h.workers, foldlM_advance_of_turns hdistinct hagree h.turns, Round.foldl_after]
  simp only [List.nil_append, Nat.zero_add, Round.ofShifts]

theorem advance_of_fault {calls rest : List (Call W)} {call : Call W} {turns : List (Turn W)}
    {fault : Fault} (hdistinct : ((worker.due index).map Prod.fst).Nodup)
    (hagree : round.labels.Agree before (worker.due index))
    (hdue : worker.due index = calls ++ call :: rest)
    (h : Turns g job before merged calls turns)
    (hact : job.act g call (before.label call.1).value (job.replicaAfter merged turns) =
      .error fault) :
    ∃ aborted, advance g job index merged round worker = .error aborted ∧
      aborted.fault = fault := by
  let pass : Pass W :=
    { labels := round.labels, replica := merged, outbox := worker.outbox, active := 0, sent := 0,
      adoptions := 0, events := round.events }
  have hpass : ∃ aborted, (worker.due index).foldlM (Pass.take g job worker.index) pass =
      .error aborted ∧ aborted.fault = fault := by
    rw [hdue] at hdistinct hagree ⊢
    exact Pass.foldlM_take_of_fault hdistinct hagree h hact
  obtain ⟨aborted, hfold, hfault⟩ := hpass
  refine ⟨aborted, ?_, hfault⟩
  unfold advance
  exact bind_eq_error.mpr (.inl ((Worker.compute_eq ..).trans hfold))

/-- A round fails with the first call that fails in the order of the workers. -/
theorem round_of_fault {s : State W} {shifts : List (Shift W)} {later : List (Worker W)}
    {calls rest : List (Call W)} {call : Call W} {turns : List (Turn W)} {fault : Fault}
    (hdistinct : ((s.workers.flatMap (Worker.due index)).map Prod.fst).Nodup)
    (hworkers : s.workers = shifts.map Prod.fst ++ worker :: later)
    (hshifts : ∀ shift ∈ shifts,
      Turns g job s.labels s.aggregator.merged (shift.1.due index) shift.2)
    (hdue : worker.due index = calls ++ call :: rest)
    (h : Turns g job s.labels s.aggregator.merged calls turns)
    (hact : job.act g call (s.labels.label call.1).value
      (job.replicaAfter s.aggregator.merged turns) = .error fault) :
    ∃ aborted, s.round g job index = .error aborted ∧ aborted.fault = fault := by
  have hagree : ∀ calls, s.labels.Agree s.labels calls := fun _ _ _ => rfl
  rw [hworkers, List.flatMap_append, List.flatMap_cons, List.map_append, List.map_append,
    List.nodup_append', List.nodup_append'] at hdistinct
  obtain ⟨hearlier, ⟨hhere, _, _⟩, hapart⟩ := hdistinct
  have hlabels : (s.labels.settle (Shift.turns shifts)).Agree s.labels (worker.due index) := by
    apply (hagree _).settle
    intro turn hturn hmem
    obtain ⟨shift, hshift, hin⟩ := List.mem_flatMap.mp hturn
    refine hapart (List.mem_map.mpr ⟨turn.call, ?_, rfl⟩) (List.mem_append_left _ hmem)
    refine List.mem_flatMap.mpr ⟨shift.1, List.mem_map_of_mem hshift, ?_⟩
    rw [← (hshifts shift hshift).calls]
    exact List.mem_map_of_mem hin
  unfold State.round
  rw [hworkers, List.foldlM_append, foldlM_advance_of_turns hearlier (hagree _) hshifts]
  generalize hround : shifts.foldl (Round.after job s.aggregator.merged) _ = middle
  rw [Round.foldl_after] at hround
  have hmiddle : middle.labels.Agree s.labels (worker.due index) := by
    rw [← hround]
    exact hlabels
  obtain ⟨aborted, hadvance, hfault⟩ := advance_of_fault hhere hmiddle hdue h hact
  refine ⟨aborted, bind_eq_error.mpr (.inr ⟨_, rfl, ?_⟩), hfault⟩
  rw [List.foldlM_cons]
  exact bind_eq_error.mpr (.inl hadvance)

theorem round_error {s : State W}
    (hdistinct : ((s.workers.flatMap (Worker.due index)).map Prod.fst).Nodup)
    (h : s.round g job index = .error aborted) :
    ∃ call ∈ s.workers.flatMap (Worker.due index), ∃ replica,
      job.act g call (s.labels.label call.1).value replica = .error aborted.fault :=
  foldlM_advance_error hdistinct (fun _ _ => rfl) h

end State

end BulkPaths
