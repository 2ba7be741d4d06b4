import BulkPaths.Proofs.Renewals
import Mathlib.Data.List.Perm.Basic

/-!
# Counterparts

Two supersteps, perhaps on different graphs and with different workers, whose vertices hold the same
values and hear the same messages. A vertex then does the same in both, up to the order in which it
sends, if it is muted in both or in none. What is delivered does not depend on the order, so the
states are alike again afterwards, and the counts of the superstep are the same.
-/

namespace BulkPaths

open PathWeight Message Mailbox

/-- Lists with the same keys in another order can be paired by their keys. -/
theorem exists_paired {α β γ : Type} {f : α → γ} {f' : β → γ} {l : List α} {l' : List β}
    (h : (l.map f).Perm (l'.map f')) :
    ∃ mid, l.Perm mid ∧ List.Forall₂ (fun a b => f a = f' b) mid l' := by
  have hkeys : List.Forall₂ (fun key b => key = f' b) (l'.map f') l' :=
    List.forall₂_map_left_iff.mpr (List.forall₂_same.mpr fun _ _ => rfl)
  obtain ⟨more, hpaired, hperm⟩ := List.perm_comp_forall₂ h hkeys
  rw [List.forall₂_map_left_iff] at hpaired
  obtain ⟨mid, hmid, hback⟩ := List.perm_comp_forall₂ hperm.symm hpaired.flip
  exact ⟨mid, hback.symm, hmid.flip⟩

variable {W : Type}

theorem addressed_perm (v : VertexId) {sent sent' : List (Outbound W)} (h : sent.Perm sent') :
    (addressed v sent).Perm (addressed v sent') :=
  h.filterMap _

/-- The counts of a superstep, without that of the reached targets. -/
def Stats.work (stats : Stats) : Stats := { stats with reached := 0 }

/-- A vertex did the same, up to the order of its messages. -/
structure StepResult.Matches (result result' : StepResult W) : Prop where
  value : result.value = result'.value
  adoptions : result.adoptions = result'.adoptions
  messages : result.messages.Perm result'.messages

namespace StepResult.Matches

variable {result result' : StepResult W}

theorem refl (result : StepResult W) : result.Matches result :=
  ⟨rfl, rfl, .refl _⟩

theorem quiet (value : PathValue W) (newlyReached newlyReached' : Bool) :
    (StepResult.quiet value newlyReached).Matches (.quiet value newlyReached') :=
  ⟨rfl, rfl, .refl _⟩

theorem adopted (h : result.Matches result') {sent sent' : List (Outbound W)}
    (hsent : sent.Perm sent') (value : PathValue W) :
    (result.adopted value sent).Matches (result'.adopted value sent') :=
  ⟨rfl, congrArg (· + 1) h.adoptions, h.messages.append hsent⟩

end StepResult.Matches

namespace Turn

variable {turns turns' : List (Turn W)}

theorem called_iff {v : VertexId} : Called turns v ↔ ∃ m, (v, some m) ∈ turns.map call := by
  constructor
  · rintro ⟨⟨vertex, message, replica, result⟩, hturn, rfl, hcalled⟩
    obtain ⟨m, rfl⟩ := Option.isSome_iff_exists.mp hcalled
    exact ⟨m, List.mem_map_of_mem hturn⟩
  · rintro ⟨m, hmem⟩
    obtain ⟨turn, hturn, hcall⟩ := List.mem_map.mp hmem
    have hmessage : turn.message = some m := congrArg Prod.snd hcall
    exact ⟨turn, hturn, congrArg Prod.fst hcall, by rw [hmessage, Option.isSome_some]⟩

theorem adoptions_perm (h : turns.Perm turns') : adoptions turns = adoptions turns' := by
  induction h with
  | nil => rfl
  | cons turn _ ih => rw [adoptions_cons, adoptions_cons, ih]
  | swap first second rest =>
      simp only [adoptions_cons]
      omega
  | trans _ _ ih ih' => exact ih.trans ih'

theorem totals_of_paired
    (h : List.Forall₂ (fun turn turn' => turn.result.Matches turn'.result) turns turns') :
    (sent turns).Perm (sent turns') ∧ adoptions turns = adoptions turns' := by
  induction h with
  | nil => exact ⟨.refl _, rfl⟩
  | cons hmatches _ ih =>
      rw [sent_cons, sent_cons, adoptions_cons, adoptions_cons]
      exact ⟨hmatches.messages.append ih.1, congrArg₂ _ hmatches.adoptions ih.2⟩

theorem totals_of_calls (hcalls : (turns.map call).Perm (turns'.map call))
    (hmatches : ∀ turn ∈ turns, ∀ turn' ∈ turns', turn.call = turn'.call →
      turn.result.Matches turn'.result) :
    (sent turns).Perm (sent turns') ∧ adoptions turns = adoptions turns' := by
  obtain ⟨mid, hperm, hpaired⟩ := exists_paired hcalls
  have hall : List.Forall₂ (fun turn turn' => turn.result.Matches turn'.result) mid turns' := by
    rw [List.forall₂_iff_get] at hpaired ⊢
    refine ⟨hpaired.1, fun i h h' => ?_⟩
    exact hmatches _ (hperm.mem_iff.mpr (List.get_mem ..)) _ (List.get_mem ..) (hpaired.2 i h h')
  obtain ⟨hsent, hadoptions⟩ := totals_of_paired hall
  exact ⟨(hperm.flatMap_right _).trans hsent, (adoptions_perm hperm).trans hadoptions⟩

end Turn

variable [PathWeight W]

/-- What goes over an edge to the given vertex, if the edge has a weight. -/
def PathValue.over (value : PathValue W) : VertexId × Option W → Option (Outbound W)
  | (recipient, weight?) => weight?.map fun weight =>
    { recipient, message := { path := value.path, weight := add value.weight weight } }

namespace Job

/-- Where an edge leads, and its weight unless it is refused. -/
def offer (job : Job W) (edge : Edge) : VertexId × Option W :=
  (edge.target, (job.weigh edge).toOption)

/-- The vertex is called with a message and, if it adopts it, keeps it to itself. -/
def mutes (job : Job W) (call : Call W) (replica : IdSet) : Bool :=
  call.2.isSome && job.silences call.1 (job.enrolled call replica)

/-- Jobs on two graphs that are the same up to the order of vertices and edges. What they are about
may differ, but either both are about their source alone or none is. -/
structure Twin (job : Job W) (g : PropertyGraph) (job' : Job W) (g' : PropertyGraph) : Prop where
  source : job.source = job'.source
  alone : job.targets = .single job.source ↔ job'.targets = .single job'.source
  ids : ∀ v, v ∈ g.ids ↔ v ∈ g'.ids
  offers : ∀ {v edges edges'}, g.edges? v = some edges → g'.edges? v = some edges' →
    (edges.map job.offer).Perm (edges'.map job'.offer)

variable {job job' : Job W} {g g' : PropertyGraph} {v : VertexId} {edges edges' : List Edge}
  {value : PathValue W} {m : Message W} {call : Call W} {replica replica' : IdSet}
  {result : StepResult W} {sent : List (Outbound W)}

namespace Twin

theorem symm (h : job.Twin g job' g') : job'.Twin g' job g where
  source := h.source.symm
  alone := h.alone.symm
  ids v := (h.ids v).symm
  offers hedges hedges' := (h.offers hedges' hedges).symm

theorem aimed (job : Job W) (g : PropertyGraph) {targets targets' : Targets}
    (halone : targets = .single job.source ↔ targets' = .single job.source) :
    (job.aimed targets).Twin g (job.aimed targets') g where
  source := rfl
  alone := halone
  ids _ := .rfl
  offers hedges hedges' := by
    obtain rfl := Option.some.inj (hedges.symm.trans hedges')
    exact .refl _

theorem exists_edges (h : job.Twin g job' g') (hedges : g.edges? v = some edges) :
    ∃ edges', g'.edges? v = some edges' :=
  g'.exists_edges ((h.ids v).mp (Assoc.mem_keys_of_get? hedges))

end Twin

theorem eq_filterMap_of_forward (h : job.forward value edges = .ok sent) :
    sent = (edges.map job.offer).filterMap value.over := by
  have hall := forward_ok h
  clear h
  induction hall with
  | nil => rfl
  | cons hout _ ih =>
      obtain ⟨weight, hweigh, rfl⟩ := hout
      rw [List.map_cons, List.filterMap_cons, offer, hweigh, ← ih]
      rfl

theorem forward_ok_of_perm (hperm : (edges.map job.offer).Perm (edges'.map job'.offer))
    (h : job.forward value edges = .ok sent) :
    ∃ sent', job'.forward value edges' = .ok sent' ∧ sent.Perm sent' := by
  cases h' : job'.forward value edges' with
  | ok sent' =>
      refine ⟨sent', rfl, ?_⟩
      rw [eq_filterMap_of_forward h, eq_filterMap_of_forward h']
      exact hperm.filterMap _
  | error fault =>
      -- an edge that is refused has its like among the edges that were not
      obtain ⟨edge', hedge', hweigh'⟩ := forward_error h'
      obtain ⟨edge, hedge, hoffer⟩ :=
        List.mem_map.mp (hperm.mem_iff.mpr (List.mem_map_of_mem hedge'))
      obtain ⟨weight, hweigh, _⟩ := along_mem_of_forward h hedge
      simp [offer, hweigh, hweigh', Except.toOption] at hoffer

theorem init_ok_of_twin (htwin : job.Twin g job' g') (hedges : g.edges? v = some edges)
    (hedges' : g'.edges? v = some edges') (h : job.init v edges = .ok result) :
    ∃ result', job'.init v edges' = .ok result' ∧ result.Matches result' := by
  have hoffers := htwin.offers hedges hedges'
  have hempty : edges.isEmpty = edges'.isEmpty := by
    have hlength := hoffers.length_eq
    rw [List.length_map, List.length_map] at hlength
    rw [Bool.eq_iff_iff, List.isEmpty_iff_length_eq_zero, List.isEmpty_iff_length_eq_zero, hlength]
  have halone : (job.targets == .single job.source) = (job'.targets == .single job'.source) := by
    rw [Bool.eq_iff_iff, beq_iff_eq, beq_iff_eq]
    exact htwin.alone
  unfold init at h ⊢
  rw [halone, hempty, htwin.source] at h
  by_cases hother : (v != job'.source) = true
  · rw [if_pos hother] at h ⊢
    exact ⟨result, h, .refl _⟩
  rw [if_neg hother] at h ⊢
  dsimp only at h ⊢
  by_cases htarget : (job'.targets == .single job'.source) = true
  · rw [if_pos htarget] at h ⊢
    exact ⟨result, h, .refl _⟩
  rw [if_neg htarget] at h ⊢
  by_cases hnone : edges'.isEmpty = true
  · rw [if_pos hnone] at h ⊢
    exact ⟨result, h, .refl _⟩
  rw [if_neg hnone] at h ⊢
  obtain ⟨sent, hsent, h⟩ := bind_eq_ok.mp h
  cases h
  obtain ⟨sent', hsent', hperm⟩ := forward_ok_of_perm hoffers hsent
  exact ⟨_, bind_eq_ok.mpr ⟨sent', hsent', rfl⟩, rfl, rfl, hperm⟩

theorem receive_ok_of_twin (htwin : job.Twin g job' g') (hedges : g.edges? v = some edges)
    (hedges' : g'.edges? v = some edges')
    (hmutes : job.silences v replica = job'.silences v replica')
    {start start' : StepResult W} (hstart : start.Matches start')
    (h : job.receive v edges replica start m = .ok result) :
    ∃ result', job'.receive v edges' replica' start' m = .ok result' ∧ result.Matches result' := by
  unfold silences at hmutes
  unfold receive at h ⊢
  rw [← hstart.value, ← hmutes]
  split at h
  case isTrue hkept =>
    cases h
    exact ⟨start', if_pos hkept, hstart⟩
  case isFalse hbetter =>
    obtain ⟨value, hadopt, h⟩ := bind_eq_ok.mp h
    simp only [if_neg hbetter, bind_eq_ok]
    split at h
    case isTrue hmuted =>
      cases h
      have hquiet := hstart.adopted (.refl []) value
      exact ⟨start'.adopted value [], ⟨value, hadopt, if_pos hmuted⟩, hquiet⟩
    case isFalse hopen =>
      obtain ⟨sent, hsent, h⟩ := bind_eq_ok.mp h
      cases h
      obtain ⟨sent', hsent', hperm⟩ := forward_ok_of_perm (htwin.offers hedges hedges') hsent
      refine ⟨start'.adopted value sent', ⟨value, hadopt, ?_⟩, hstart.adopted hperm value⟩
      rw [if_neg hopen]
      exact bind_eq_ok.mpr ⟨sent', hsent', rfl⟩

theorem step_ok_of_twin (htwin : job.Twin g job' g') (hedges : g.edges? v = some edges)
    (hedges' : g'.edges? v = some edges')
    (hmutes : job.mutes (v, some m) replica = job'.mutes (v, some m) replica')
    (h : job.step v edges value [m] replica = .ok result) :
    ∃ result', job'.step v edges' value [m] replica' = .ok result' ∧ result.Matches result' := by
  simp only [mutes, enrolled, Option.isSome_some, Bool.true_and] at hmutes
  rw [step_singleton] at h ⊢
  exact receive_ok_of_twin htwin hedges hedges' hmutes (.quiet ..) h

theorem act_ok_of_twin (htwin : job.Twin g job' g')
    (hmutes : job.mutes call replica = job'.mutes call replica')
    (h : job.act g call value replica = .ok result) :
    ∃ result', job'.act g' call value replica' = .ok result' ∧ result.Matches result' := by
  obtain ⟨v, message⟩ := call
  cases hedges : g.edges? v with
  | none => simp [act, hedges] at h
  | some edges =>
      obtain ⟨edges', hedges'⟩ := htwin.exists_edges hedges
      simp only [act, hedges, hedges'] at h ⊢
      cases message with
      | none => exact init_ok_of_twin htwin hedges hedges' h
      | some m => exact step_ok_of_twin htwin hedges hedges' hmutes h

theorem Seeded.value_eq (h : Seeded job v edges result) :
    result.value = if v = job.source then .source v else .unreached := by
  cases h with
  | other ne value _ => rw [value, if_neg ne]
  | silent source value _ _ | told source value _ => rw [value, if_pos source]

theorem Heard.value_eq (h : Heard job v edges value m replica result) :
    result.value = if less m.weight value.weight then m.adopted v else value := by
  cases h with
  | ignored kept value _ _ => rw [value, kept, if_neg Bool.false_ne_true]
  | silenced better _ value _ _ _ | told better _ value _ _ => rw [value, if_pos better]

/-- Muted or not, a vertex takes on the same value. -/
theorem act_value_of_twin (htwin : job.Twin g job' g') {result' : StepResult W}
    (h : job.act g call value replica = .ok result)
    (h' : job'.act g' call value replica' = .ok result') : result.value = result'.value := by
  obtain ⟨v, message⟩ := call
  cases message with
  | none =>
      obtain ⟨_, _, hseeded, _⟩ := act_first h
      obtain ⟨_, _, hseeded', _⟩ := act_first h'
      rw [hseeded.value_eq, hseeded'.value_eq, htwin.source]
  | some m =>
      obtain ⟨_, _, hheard⟩ := act_later h
      obtain ⟨_, _, hheard'⟩ := act_later h'
      rw [hheard.value_eq, hheard'.value_eq]

end Job

namespace State

/-- The vertices hold the same values and hear the same messages. -/
structure Alike (s t : State W) : Prop where
  value : ∀ v, s.value v = t.value v
  waiting : ∀ v, s.waiting v = t.waiting v

variable {job job' : Job W} {g g' : PropertyGraph} {count count' index : Nat} {s s' t t' : State W}
  {turns turns' : List (Turn W)} {v : VertexId}

theorem pending_eq_of_waiting (hs : s.Sound g job count) (ht : t.Sound g' job' count')
    (hmail : ∀ v, s.waiting v = t.waiting v) : s.pending = t.pending := by
  obtain ⟨_, hs⟩ := hs.routed
  obtain ⟨_, ht⟩ := ht.routed
  have hmem : ∀ entry, entry ∈ s.workers.flatMap Worker.inbox ↔
      entry ∈ t.workers.flatMap Worker.inbox := by
    rintro ⟨v, m⟩
    have hv := hmail v
    unfold waiting at hv
    constructor
    · intro hentry
      exact Assoc.mem_of_get? (hv ▸ Assoc.get?_of_mem hs.nodup_mail hentry)
    · intro hentry
      exact Assoc.mem_of_get? (hv ▸ Assoc.get?_of_mem ht.nodup_mail hentry)
  exact ((List.perm_ext_iff_of_nodup hs.nodup_mail.of_map ht.nodup_mail.of_map).mpr hmem).length_eq

/-- Sound states of twin jobs that are alike. -/
structure Abreast (job : Job W) (g : PropertyGraph) (count : Nat) (job' : Job W)
    (g' : PropertyGraph) (count' : Nat) (s t : State W) : Prop extends s.Alike t where
  twin : job.Twin g job' g'
  sound : s.Sound g job count
  sound' : t.Sound g' job' count'
  staffed : 0 < count
  staffed' : 0 < count'

theorem Abreast.due_perm (h : Abreast job g count job' g' count' s t) (index : Nat) :
    (s.due index).Perm (t.due index) := by
  obtain ⟨_, hs⟩ := h.sound.routed
  obtain ⟨_, ht⟩ := h.sound'.routed
  rw [List.perm_ext_iff_of_nodup (hs.nodup_due index).of_map (ht.nodup_due index).of_map]
  intro call
  cases index with
  | zero => rw [hs.mem_due_zero h.staffed, ht.mem_due_zero h.staffed', h.twin.ids]
  | succ index => simp only [hs.mem_due_succ, ht.mem_due_succ, h.waiting]

namespace Superstep

variable (h : s.Superstep g job index s' turns) (h' : t.Superstep g' job' index t' turns')
  (habreast : Abreast job g count job' g' count' s t)

include h h' habreast

theorem calls_perm : (turns.map Turn.call).Perm (turns'.map Turn.call) := by
  rw [h.calls, h'.calls]
  exact habreast.due_perm index

/-- The values after a superstep depend on those of before and on the mail, not on who is muted. -/
theorem value_eq_of_twin (v : VertexId) : s'.value v = t'.value v := by
  have hdue := habreast.due_perm index
  by_cases hv : v ∈ (s.due index).map Prod.fst
  case neg =>
    have hv' : v ∉ (t.due index).map Prod.fst := fun hmem =>
      hv ((hdue.map Prod.fst).mem_iff.mpr hmem)
    rw [h.value_of_not_due hv, h'.value_of_not_due hv', habreast.value]
  case pos =>
    obtain ⟨call, hcall, rfl⟩ := List.mem_map.mp hv
    obtain ⟨turn, hturn, rfl⟩ := h.exists_turn hcall
    obtain ⟨turn', hturn', hsame⟩ := h'.exists_turn (hdue.mem_iff.mp hcall)
    have hvertex : turn'.vertex = turn.vertex := congrArg Prod.fst hsame
    have hact' := h'.acted turn' hturn'
    rw [hvertex, ← habreast.value, hsame] at hact'
    calc s'.value turn.vertex = turn.result.value := h.value_of_turn habreast.sound hturn
      _ = turn'.result.value := Job.act_value_of_twin habreast.twin (h.acted turn hturn) hact'
      _ = t'.value turn'.vertex := (h'.value_of_turn habreast.sound' hturn').symm
      _ = t'.value turn.vertex := by rw [hvertex]

variable (hmutes : ∀ turn ∈ turns, ∀ turn' ∈ turns', turn.call = turn'.call →
    job.mutes turn.call turn.replica = job'.mutes turn'.call turn'.replica)

include hmutes

theorem totals_eq_of_twin :
    (Turn.sent turns).Perm (Turn.sent turns') ∧ Turn.adoptions turns = Turn.adoptions turns' := by
  apply Turn.totals_of_calls (h.calls_perm h' habreast)
  intro turn hturn turn' hturn' hsame
  have hvertex : turn.vertex = turn'.vertex := congrArg Prod.fst hsame
  have hboth := hmutes turn hturn turn' hturn' hsame
  rw [← hsame] at hboth
  obtain ⟨result, hact, hmatches⟩ := Job.act_ok_of_twin habreast.twin hboth (h.acted turn hturn)
  have hact' := h'.acted turn' hturn'
  rw [← hvertex, ← habreast.value, ← hsame] at hact'
  obtain rfl := Except.ok.inj (hact.symm.trans hact')
  exact hmatches

theorem work_eq_of_twin (hpending : s'.pending = t'.pending) :
    (stats index turns s').work = (stats index turns' t').work := by
  obtain ⟨hsent, hadoptions⟩ := h.totals_eq_of_twin h' habreast hmutes
  have hactive : turns.length = turns'.length := by
    simpa using (h.calls_perm h' habreast).length_eq
  simp only [stats, Stats.work, hactive, hsent.length_eq, hadoptions, hpending]

variable [LawfulPathWeight W]

theorem alike_of_twin : s'.Alike t' := by
  refine ⟨h.value_eq_of_twin h' habreast, fun v => ?_⟩
  -- what was sent differs in its order only, and the combined message does not depend on it
  obtain ⟨hsent, _⟩ := h.totals_eq_of_twin h' habreast hmutes
  have hproper := (h.sent_proper habreast.sound habreast.staffed).addressed v
  have hcollects := (h'.waiting v).of_perm (addressed_perm v hsent.symm)
  exact (h.waiting v).unique hproper hcollects

end Superstep

end State

end BulkPaths
