import BulkPaths.Proofs.Mailboxes
import BulkPaths.Proofs.WholeWeights

/-!
# Combined before a step

A vertex that hears several messages adopts one after the other, as long as they get better, and
each time passes the new value on. Of the messages combined it adopts once. What it has sent in
between does not matter: the last batch goes along the same edges, and because addition is monotone
every message of an earlier one is matched by one of the last that is no heavier.
-/

namespace BulkPaths

open PathWeight OrderedPathWeight Message Mailbox

variable {W : Type} [PathWeight W]

/-- The least weight that is sent to the vertex. -/
def Lightest (v : VertexId) (sent : List (Outbound W)) (w : W) : Prop :=
  (∃ m ∈ addressed v sent, m.weight = w) ∧ ∀ m ∈ addressed v sent, AtMost w m.weight

/-- Whatever was sent, something no heavier was sent to the same vertex by the batch. -/
def Covers (batch sent : List (Outbound W)) : Prop :=
  ∀ out ∈ sent, ∃ out' ∈ batch, out'.recipient = out.recipient ∧
    AtMost out'.message.weight out.message.weight

/-- The results leave the vertex alike, but for its path, and tell its neighbours the same. -/
structure StepResult.Agrees (result result' : StepResult W) : Prop where
  newlyReached : result.newlyReached = result'.newlyReached
  reachable : result.value.reachable = result'.value.reachable
  weight : result.value.weight = result'.value.weight
  adopts : result.adoptions = 0 ↔ result'.adoptions = 0
  recipients : ∀ v, addressed v result.messages = [] ↔ addressed v result'.messages = []
  lightest : ∀ v w, Lightest v result.messages w ↔ Lightest v result'.messages w

namespace Covers

variable {sent sent' batch : List (Outbound W)} {v : VertexId} {m : Message W} {w : W}

theorem exists_addressed (h : Covers batch sent) (hm : m ∈ addressed v sent) :
    ∃ m' ∈ addressed v batch, AtMost m'.weight m.weight := by
  obtain ⟨out, hout, hrecipient, hle⟩ := h _ (mem_addressed.mp hm)
  refine ⟨out.message, mem_addressed.mpr ?_, hle⟩
  rw [← show out.recipient = v from hrecipient]
  exact hout

theorem recipients (h : Covers batch sent) (hempty : addressed v batch = []) :
    addressed v sent = [] := by
  rw [List.eq_nil_iff_forall_not_mem]
  intro m hm
  obtain ⟨m', hm', -⟩ := h.exists_addressed hm
  rw [hempty] at hm'
  cases hm'

theorem of_subset (h : sent ⊆ batch) : Covers batch sent := fun out hout =>
  ⟨out, h hout, rfl, .refl _⟩

variable [OrderedPathWeight W]

theorem trans {more : List (Outbound W)} (h : Covers batch sent) (h' : Covers sent more) :
    Covers batch more := by
  intro out hout
  obtain ⟨out', hout', hrecipient, hle⟩ := h' out hout
  obtain ⟨out'', hout'', hrecipient', hle'⟩ := h out' hout'
  exact ⟨out'', hout'', hrecipient'.trans hrecipient, hle'.trans hle⟩

/-- Lots that cover each other have the same least weights. -/
theorem lightest (h : Covers sent' sent) (h' : Covers sent sent') (hw : Lightest v sent w) :
    Lightest v sent' w := by
  obtain ⟨⟨m, hm, rfl⟩, hall⟩ := hw
  obtain ⟨m', hm', hle⟩ := h.exists_addressed hm
  have hlower : ∀ other ∈ addressed v sent', AtMost m.weight other.weight := by
    intro other hother
    obtain ⟨back, hback, hle⟩ := h'.exists_addressed hother
    exact (hall back hback).trans hle
  exact ⟨⟨m', hm', hle.antisymm (hlower m' hm')⟩, hlower⟩

end Covers

namespace Job

variable {job : Job W} {id : VertexId} {edges : List Edge} {value value' : PathValue W}
  {m : Message W} {replica : IdSet} {result result' : StepResult W} {batch : List (Outbound W)}
  {inbound : List (Message W)} {fault : Fault}

/-- A later superstep of a vertex, with the replica that it leaves even if it fails. -/
def hear (job : Job W) (id : VertexId) (edges : List Edge) (value : PathValue W)
    (inbound : List (Message W)) (replica : IdSet) : IdSet × Except Fault (StepResult W) :=
  (job.targets.enroll id replica, job.step id edges value inbound replica)

/-- What a vertex sends when it has adopted a value. -/
def passOn (job : Job W) (id : VertexId) (edges : List Edge) (replica : IdSet)
    (value : PathValue W) : Except Fault (List (Outbound W)) :=
  if job.silences id replica then .ok [] else job.forward value edges

section Sending

/-- The edges are weighed before anything is added to their weights. -/
theorem forward_eq (value : PathValue W) (edges : List Edge) :
    job.forward value edges =
      (edges.mapM fun edge => (job.weigh edge).map (edge, ·)).map
        (List.map fun weighed => value.along weighed.1 weighed.2) := by
  induction edges with
  | nil => rfl
  | cons edge edges ih =>
      rw [forward_cons, ih, List.mapM_cons]
      cases job.weigh edge with
      | error fault => rfl
      | ok weight =>
          cases edges.mapM fun edge => (job.weigh edge).map (edge, ·) with
          | error fault => rfl
          | ok weighed => rfl

/-- Whether a vertex fails to pass a value on does not depend on the value. -/
theorem passOn_error (h : job.passOn id edges replica value = .error fault)
    (value' : PathValue W) : job.passOn id edges replica value' = .error fault := by
  unfold passOn at h ⊢
  split at h
  case isTrue => cases h
  case isFalse hsilent =>
    rw [if_neg hsilent, forward_eq]
    rw [forward_eq] at h
    cases hweighed : edges.mapM fun edge => (job.weigh edge).map (edge, ·) with
    | error other =>
        rw [hweighed] at h
        exact h
    | ok weighed =>
        rw [hweighed] at h
        cases h

/-- A lighter value is passed on along the same edges, and every message is no heavier. -/
theorem exists_passOn [OrderedPathWeight W] (h : job.passOn id edges replica value = .ok batch)
    (hvalue : Proper value.weight) (hvalue' : Proper value'.weight)
    (hle : AtMost value'.weight value.weight) :
    ∃ batch', job.passOn id edges replica value' = .ok batch' ∧ Covers batch' batch := by
  cases h' : job.passOn id edges replica value' with
  | error fault => cases h.symm.trans (passOn_error h' value)
  | ok batch' =>
      refine ⟨batch', rfl, fun out hout => ?_⟩
      unfold passOn at h h'
      split at h
      case isTrue =>
        cases h
        cases hout
      case isFalse hsilent =>
        rw [if_neg hsilent] at h'
        obtain ⟨edge, hedge, weight, hweigh, rfl⟩ := exists_edge_of_forward h hout
        obtain ⟨weight', hweigh', hmem⟩ := along_mem_of_forward h' hedge
        obtain rfl := Except.ok.inj (hweigh.symm.trans hweigh')
        have hpositive := (job.positive hweigh).1
        exact ⟨_, hmem, rfl, add_mono hvalue' hvalue hpositive hpositive hle (.refl weight)⟩

end Sending

section Receiving

/-- How a vertex comes out of the messages that it has heard one after the other. -/
inductive Hears (job : Job W) (id : VertexId) (edges : List Edge) (replica : IdSet)
    (start : StepResult W) (inbound : List (Message W)) : Except Fault (StepResult W) → Prop
  | ignored (kept : ∀ m ∈ inbound, less m.weight start.value.weight = false) :
      Hears job id edges replica start inbound (.ok start)
  | failed {m : Message W} {fault : Fault} (mem : m ∈ inbound)
      (better : less m.weight start.value.weight)
      (fails : job.passOn id edges replica start.value = .error fault) :
      Hears job id edges replica start inbound (.error fault)
  | adopted {best : Message W} {result : StepResult W} {batch : List (Outbound W)}
      (mem : best ∈ inbound) (better : less best.weight start.value.weight)
      (least : ∀ m ∈ inbound, AtMost best.weight m.weight)
      (newlyReached : result.newlyReached = start.newlyReached)
      (reachable : result.value.reachable = true) (weight : result.value.weight = best.weight)
      (adoptions : result.adoptions ≠ 0)
      (passed : job.passOn id edges replica result.value = .ok batch)
      (last : batch ⊆ result.messages) (covers : Covers batch result.messages) :
      Hears job id edges replica start inbound (.ok result)

theorem receive_of_kept (h : less m.weight result.value.weight = false) :
    job.receive id edges replica result m = .ok result := by
  rw [receive, h, Bool.not_false, if_pos rfl]

theorem receive_of_better (hbetter : less m.weight result.value.weight)
    (hfinite : isFinite m.weight) :
    job.receive id edges replica result m =
      (job.passOn id edges replica (m.adopted id)).map (result.adopted (m.adopted id)) := by
  have hadopt : result.value.adopt id m.path m.weight = .ok (m.adopted id) := by
    simp [PathValue.adopt, PathValue.adoptWhen, hbetter, hfinite, Message.adopted]
  rw [receive, hbetter, Bool.not_true, if_neg Bool.false_ne_true, hadopt, passOn, silences]
  dsimp only [bind, Except.bind]
  split
  case isTrue => rfl
  case isFalse => cases job.forward (m.adopted id) edges <;> rfl

/-- Some message is better than the value. -/
def Improves (start : StepResult W) (inbound : List (Message W)) : Prop :=
  ∃ m ∈ inbound, less m.weight start.value.weight

variable {start : StepResult W}

theorem not_improves (h : ∀ m ∈ inbound, less m.weight start.value.weight = false) :
    ¬Improves start inbound := by
  rintro ⟨m, hm, hbetter⟩
  rw [h m hm] at hbetter
  cases hbetter

variable [OrderedPathWeight W]

/-- What lies above a positive weight is not below zero. -/
theorem proper_of_better {x y : W} (hx : less zero x) (h : less x y) : Proper y :=
  .inr (less_trans hx h)

/-- One message more: it is adopted if it is better than the best so far. -/
theorem Hears.concat {outcome : Except Fault (StepResult W)}
    (h : Hears job id edges replica start inbound outcome)
    (hpositive : ∀ m ∈ inbound, less zero m.weight) (hm : less zero m.weight)
    (hquiet : start.messages = []) :
    Hears job id edges replica start (inbound ++ [m])
      (outcome >>= fun result => job.receive id edges replica result m) := by
  cases h with
  | failed mem better fails => exact .failed (List.mem_append_left _ mem) better fails
  | ignored kept =>
      dsimp only [bind, Except.bind]
      cases hless : less m.weight start.value.weight with
      | false =>
          rw [receive_of_kept hless]
          refine .ignored fun other hother => ?_
          rcases List.mem_append.mp hother with hold | hnew
          · exact kept other hold
          · rw [List.mem_singleton.mp hnew, hless]
      | true =>
          have hproper := proper_of_better hm hless
          rw [receive_of_better hless (finite_of_less (.inr hm) hproper hless)]
          cases hpassed : job.passOn id edges replica (m.adopted id) with
          | error fault => exact .failed (by simp) hless (passOn_error hpassed _)
          | ok batch =>
              refine .adopted (by simp) hless (fun other hother => ?_) rfl rfl rfl
                (Nat.succ_ne_zero _) hpassed ?_ ?_
              · rcases List.mem_append.mp hother with hold | hnew
                · have hle := atMost_of_not_less hproper (.inr (hpositive other hold))
                    (kept other hold)
                  exact AtMost.trans (.inr hless) hle
                · rw [List.mem_singleton.mp hnew]
                  exact .refl _
              · simp [StepResult.adopted]
              · simp only [StepResult.adopted, hquiet, List.nil_append]
                exact .of_subset (List.Subset.refl _)
  | @adopted best result batch mem better least newlyReached reachable weight adoptions passed last
      covers =>
      have hbest : Proper best.weight := .inr (hpositive best mem)
      dsimp only [bind, Except.bind]
      cases hless : less m.weight result.value.weight with
      | false =>
          rw [receive_of_kept hless]
          refine .adopted (List.mem_append_left _ mem) better (fun other hother => ?_) newlyReached
            reachable weight adoptions passed last covers
          rcases List.mem_append.mp hother with hold | hnew
          · exact least other hold
          · rw [List.mem_singleton.mp hnew]
            rw [weight] at hless
            exact atMost_of_not_less hbest (.inr hm) hless
      | true =>
          have hvalue : Proper result.value.weight := by rwa [weight]
          rw [receive_of_better hless (finite_of_less (.inr hm) hvalue hless)]
          have hadopted : Proper (m.adopted id).weight := .inr hm
          obtain ⟨batch', hpassed, hcovers⟩ :=
            exists_passOn passed hvalue hadopted (.inr hless)
          rw [hpassed]
          rw [weight] at hless
          refine .adopted (by simp) (less_trans hless better) (fun other hother => ?_)
            newlyReached rfl rfl (Nat.succ_ne_zero _) hpassed ?_ ?_
          · rcases List.mem_append.mp hother with hold | hnew
            · exact AtMost.trans (.inr hless) (least other hold)
            · rw [List.mem_singleton.mp hnew]
              exact .refl _
          · simp [StepResult.adopted]
          · intro out hout
            rcases List.mem_append.mp hout with hold | hnew
            · exact hcovers.trans covers out hold
            · exact Covers.of_subset (List.Subset.refl _) out hnew

theorem hears_foldlM (hpositive : ∀ m ∈ inbound, less zero m.weight)
    (hquiet : start.messages = []) :
    Hears job id edges replica start inbound
      (inbound.foldlM (job.receive id edges replica) start) := by
  induction inbound using List.reverseRecOn with
  | nil => exact .ignored nofun
  | append_singleton inbound m ih =>
      obtain ⟨hinbound, hm⟩ := List.forall_mem_append.mp hpositive
      rw [List.foldlM_append]
      simp only [List.foldlM_cons, List.foldlM_nil, bind_pure]
      exact (ih hinbound).concat hinbound (hm m List.mem_cons_self) hquiet

/-- For every message there is one among the others that is no heavier. -/
def Matches (inbound others : List (Message W)) : Prop :=
  ∀ m ∈ inbound, ∃ m' ∈ others, AtMost m'.weight m.weight

theorem Improves.of_matches {others : List (Message W)} (h : Improves start inbound)
    (hmatches : Matches inbound others) : Improves start others := by
  obtain ⟨m, hm, hbetter⟩ := h
  obtain ⟨m', hm', hle⟩ := hmatches m hm
  exact ⟨m', hm', less_of_atMost_of_less hle hbetter⟩

/-- Lots of messages that match each other have the same effect. -/
theorem Hears.agree {others : List (Message W)} {outcome outcome' : Except Fault (StepResult W)}
    (h : Hears job id edges replica start inbound outcome)
    (h' : Hears job id edges replica start others outcome')
    (hpositive : ∀ m ∈ inbound, less zero m.weight) (hmatches : Matches inbound others)
    (hmatches' : Matches others inbound) :
    Agree StepResult.Agrees outcome outcome' := by
  cases h with
  | ignored kept =>
      cases h' with
      | ignored => exact .ok ⟨rfl, rfl, rfl, .rfl, fun _ => .rfl, fun _ _ => .rfl⟩
      | failed mem better _ | adopted mem better =>
          exact absurd (Improves.of_matches ⟨_, mem, better⟩ hmatches') (not_improves kept)
  | failed mem better fails =>
      cases h' with
      | ignored kept =>
          exact absurd (Improves.of_matches ⟨_, mem, better⟩ hmatches) (not_improves kept)
      | failed _ _ fails' =>
          obtain rfl := Except.error.inj (fails.symm.trans fails')
          exact .error _
      | adopted _ _ _ _ _ _ _ passed => cases (passOn_error fails _).symm.trans passed
  | @adopted best result batch mem better least newlyReached reachable weight adoptions passed last
      covers =>
      cases h' with
      | ignored kept =>
          exact absurd (Improves.of_matches ⟨_, mem, better⟩ hmatches) (not_improves kept)
      | failed _ _ fails => cases (passOn_error fails _).symm.trans passed
      | @adopted best' result' batch' mem' _ least' newlyReached' reachable' weight' adoptions'
          passed' last' covers' =>
          have hsame : result.value.weight = result'.value.weight := by
            obtain ⟨m, hm, hle⟩ := hmatches' best' mem'
            obtain ⟨m', hm', hle'⟩ := hmatches best mem
            rw [weight, weight']
            exact ((least m hm).trans hle).antisymm ((least' m' hm').trans hle')
          have hproper : Proper result.value.weight := by
            rw [weight]
            exact .inr (hpositive best mem)
          have hproper' : Proper result'.value.weight := hsame ▸ hproper
          obtain ⟨_, hpassed', hbatch'⟩ := exists_passOn passed hproper hproper' (.inl hsame.symm)
          obtain rfl := Except.ok.inj (passed'.symm.trans hpassed')
          obtain ⟨_, hpassed, hbatch⟩ := exists_passOn passed' hproper' hproper (.inl hsame)
          obtain rfl := Except.ok.inj (passed.symm.trans hpassed)
          have hleft : Covers result'.messages result.messages :=
            (Covers.of_subset last').trans (hbatch'.trans covers)
          have hright : Covers result.messages result'.messages :=
            (Covers.of_subset last).trans (hbatch.trans covers')
          exact .ok {
            newlyReached := newlyReached.trans newlyReached'.symm
            reachable := reachable.trans reachable'.symm
            weight := hsame
            adopts := iff_of_false adoptions adoptions'
            recipients := fun v => ⟨hright.recipients, hleft.recipients⟩
            lightest := fun v w => ⟨hleft.lightest hright, hright.lightest hleft⟩ }

/-- **Combining before a step loses nothing that matters.** A vertex that hears messages of positive
weights one after the other and one that hears what is left of them when they are combined both
fail, with the same fault, or both come out alike: with the same replica, entry among the reached
targets, reachability and weight, both with a new value or both without one, and they send to the
same vertices, each the same least weight. Of addition only monotonicity is assumed. -/
theorem combined_step_agrees (job : Job W) (id : VertexId) (edges : List Edge)
    (value : PathValue W) (replica : IdSet) (hpositive : ∀ m ∈ inbound, less zero m.weight) :
    (job.hear id edges value inbound replica).1 =
        (job.hear id edges value (combineAll inbound).toList replica).1 ∧
      Agree StepResult.Agrees (job.hear id edges value inbound replica).2
        (job.hear id edges value (combineAll inbound).toList replica).2 := by
  have hproper : AllProper inbound := fun m hm => .inr (hpositive m hm)
  have hcollects := collects_combineAll hproper
  have hmem : ∀ m ∈ (combineAll inbound).toList, m ∈ inbound := by
    intro m hm
    rw [Option.mem_toList.mp hm] at hcollects
    exact hcollects.mem_of_some
  have hpositive' : ∀ m ∈ (combineAll inbound).toList, less zero m.weight := fun m hm =>
    hpositive m (hmem m hm)
  refine ⟨rfl, (hears_foldlM hpositive rfl).agree (hears_foldlM hpositive' rfl) hpositive ?_
    fun m hm => ⟨m, hmem m hm, .refl _⟩⟩
  intro m hm
  obtain ⟨best, hbest, hfirst⟩ := hcollects.exists_of_mem hm
  have hbestmem : best ∈ (combineAll inbound).toList := Option.mem_toList.mpr hbest
  exact ⟨best, hbestmem, atMost_of_precedes (hproper best (hmem best hbestmem)) (hproper m hm)
    hfirst⟩

/-- A detour, a better path, another one of the same weight, and one that comes too late. -/
def fourPaths : List (Message Float) :=
  [⟨[.long 0, .long 4, .long 5], 5⟩, ⟨[.long 0, .long 2], 3⟩, ⟨[.long 0], 3⟩, ⟨[.long 4], 9⟩]

/-- Two parallel edges and a loop. -/
def threeEdges : List Edge := [⟨.long 2, []⟩, ⟨.long 2, []⟩, ⟨.long 1, []⟩]

/-- The weights that were sent. -/
def sentWeights (outcome : Except Fault (StepResult Float)) : Option (List Float) :=
  outcome.toOption.map fun result => result.messages.map fun out => out.message.weight

theorem combined_step_agrees_four_paths :
    ∃ result result', diamondJob.step (.long 1) threeEdges .unreached fourPaths [] = .ok result ∧
      diamondJob.step (.long 1) threeEdges .unreached (combineAll fourPaths).toList [] =
        .ok result' ∧
      result.messages.map (fun out => out.message.weight) = [6, 6, 6, 4, 4, 4] ∧
      result'.messages.map (fun out => out.message.weight) = [4, 4, 4] ∧
      result.Agrees result' := by
  have hpositive : ∀ m ∈ fourPaths, less zero m.weight := by
    simp only [fourPaths, List.forall_mem_cons]
    exact ⟨rfl, rfl, rfl, rfl, nofun⟩
  have hagree := (combined_step_agrees diamondJob (.long 1) threeEdges .unreached [] hpositive).2
  have hsent : sentWeights (diamondJob.hear (.long 1) threeEdges .unreached fourPaths []).2 =
      some [6, 6, 6, 4, 4, 4] := by decide +kernel
  have hsent' : sentWeights (diamondJob.hear (.long 1) threeEdges .unreached
      (combineAll fourPaths).toList []).2 = some [4, 4, 4] := by decide +kernel
  unfold hear at hagree hsent hsent'
  generalize diamondJob.step (.long 1) threeEdges .unreached fourPaths [] = outcome
    at hagree hsent ⊢
  generalize diamondJob.step (.long 1) threeEdges .unreached (combineAll fourPaths).toList [] =
    outcome' at hagree hsent' ⊢
  cases hagree with
  | error fault => cases hsent
  | ok both => exact ⟨_, _, rfl, rfl, Option.some.inj hsent, Option.some.inj hsent', both⟩

end Receiving

end Job

end BulkPaths
