import BulkPaths.Proofs.Supersteps
import BulkPaths.Proofs.Walks

/-!
# Renewals

A vertex that takes on a new value in a superstep is renewed: the source in the first one, later a
vertex that adopts its message. Only renewed vertices send, and what waits for a vertex after the
superstep came from a renewed one, over the lightest of its edges to there.
-/

namespace BulkPaths

open PathWeight LawfulPathWeight Message

variable {W : Type} [PathWeight W]

namespace State

structure Adopts (s s' : State W) (v : VertexId) (m : Message W) : Prop where
  waiting : s.waiting v = some m
  better : less m.weight (s.value v).weight
  finite : isFinite m.weight
  value : s'.value v = m.adopted v

/-- The vertex takes on a new value in the superstep. -/
inductive Renewed (g : PropertyGraph) (job : Job W) (s s' : State W) : Nat → VertexId → Prop
  | source (mem : job.source ∈ g.ids) (value : s'.value job.source = .source job.source) :
      Renewed g job s s' 0 job.source
  | adopted {index : Nat} {v : VertexId} {m : Message W} (adopts : s.Adopts s' v m) :
      Renewed g job s s' (index + 1) v

variable {g : PropertyGraph} {job : Job W} {count index : Nat} {s s' : State W}
  {turns : List (Turn W)} {v : VertexId}

theorem Sound.mem_ids_of_waiting (h : s.Sound g job count) (hcount : 0 < count) {m : Message W}
    (hm : s.waiting v = some m) : v ∈ g.ids := by
  obtain ⟨box, hrouted⟩ := h.routed
  exact hrouted.mem_ids_of_waiting hcount hm

namespace Taken

theorem turn_zero (h : s.Taken g job 0 turns) (hsound : s.Sound g job count)
    (hcount : 0 < count) {turn : Turn W} (hturn : turn ∈ turns) :
    turn.vertex ∈ g.ids ∧ ∃ edges, g.edges? turn.vertex = some edges ∧
      Job.Seeded job turn.vertex edges turn.result ∧ turn.result.adoptions = 0 := by
  obtain ⟨box, hrouted⟩ := hsound.routed
  obtain ⟨hmem, hnone⟩ := (hrouted.mem_due_zero hcount).mp (h.mem_due hturn)
  have hcall : turn.call = (turn.vertex, none) := Prod.ext rfl hnone
  have hacted := h.acted turn hturn
  rw [hcall] at hacted
  exact ⟨hmem, Job.act_first hacted⟩

theorem exists_turn_zero (h : s.Taken g job 0 turns) (hsound : s.Sound g job count)
    (hcount : 0 < count) (hv : v ∈ g.ids) : ∃ turn ∈ turns, turn.vertex = v := by
  obtain ⟨box, hrouted⟩ := hsound.routed
  have hdue : (v, none) ∈ s.due 0 := (hrouted.mem_due_zero hcount).mpr ⟨hv, rfl⟩
  obtain ⟨turn, hturn, hcall⟩ := h.exists_turn hdue
  exact ⟨turn, hturn, congrArg Prod.fst hcall⟩

theorem exists_turn_succ (h : s.Taken g job (index + 1) turns) (hsound : s.Sound g job count)
    {m : Message W} (hm : s.waiting v = some m) : ∃ turn ∈ turns, turn.vertex = v := by
  obtain ⟨box, hrouted⟩ := hsound.routed
  have hdue : (v, some m) ∈ s.due (index + 1) := hrouted.mem_due_succ.mpr ⟨m, rfl, hm⟩
  obtain ⟨turn, hturn, hcall⟩ := h.exists_turn hdue
  exact ⟨turn, hturn, congrArg Prod.fst hcall⟩

theorem turn_succ (h : s.Taken g job (index + 1) turns) (hsound : s.Sound g job count)
    {turn : Turn W} (hturn : turn ∈ turns) :
    ∃ m edges, s.waiting turn.vertex = some m ∧ g.edges? turn.vertex = some edges ∧
      Job.Heard job turn.vertex edges (s.value turn.vertex) m turn.replica turn.result := by
  obtain ⟨box, hrouted⟩ := hsound.routed
  obtain ⟨m, hm, hwaiting⟩ := hrouted.mem_due_succ.mp (h.mem_due hturn)
  have hcall : turn.call = (turn.vertex, some m) := Prod.ext rfl hm
  have hacted := h.acted turn hturn
  rw [hcall] at hacted
  obtain ⟨edges, hedges, hheard⟩ := Job.act_later hacted
  exact ⟨m, edges, hwaiting, hedges, hheard⟩

theorem not_called_zero (h : s.Taken g job 0 turns) (hsound : s.Sound g job count)
    (hcount : 0 < count) : ¬Turn.Called turns v := by
  rintro ⟨turn, hturn, rfl, hcalled⟩
  obtain ⟨_, hrouted⟩ := hsound.routed
  have hnone : turn.message = none := ((hrouted.mem_due_zero hcount).mp (h.mem_due hturn)).2
  rw [hnone] at hcalled
  cases hcalled

/-- Later the vertices for which a message waits are called. -/
theorem called_iff_waiting (h : s.Taken g job (index + 1) turns) (hsound : s.Sound g job count) :
    Turn.Called turns v ↔ (s.waiting v).isSome := by
  obtain ⟨_, hrouted⟩ := hsound.routed
  constructor
  · rintro ⟨turn, hturn, rfl, _⟩
    obtain ⟨m, _, hm, _⟩ := h.turn_succ hsound hturn
    rw [hm, Option.isSome_some]
  · intro hv
    obtain ⟨m, hm⟩ := Option.isSome_iff_exists.mp hv
    obtain ⟨turn, hturn, rfl⟩ := h.exists_turn_succ hsound hm
    obtain ⟨m', hm', _⟩ := hrouted.mem_due_succ.mp (h.mem_due hturn)
    have hmessage : turn.message = some m' := hm'
    exact ⟨turn, hturn, rfl, by rw [hmessage, Option.isSome_some]⟩

end Taken

namespace Superstep

/-- After the first superstep the source has its value, and no other vertex has one. -/
theorem value_zero (h : s.Superstep g job 0 s' turns) (hsound : s.Sound g job count)
    (hcount : 0 < count) (hfresh : ∀ v, s.value v = .unreached) (v : VertexId) :
    s'.value v = if v = job.source ∧ v ∈ g.ids then .source v else .unreached := by
  obtain ⟨box, hrouted⟩ := hsound.routed
  by_cases hv : v ∈ g.ids
  case neg =>
    have hdue : v ∉ (s.due 0).map Prod.fst := by
      intro hmem
      obtain ⟨call, hcall, rfl⟩ := List.mem_map.mp hmem
      exact hv ((hrouted.mem_due_zero hcount).mp hcall).1
    rw [h.value_of_not_due hdue, hfresh, if_neg fun hboth => hv hboth.2]
  case pos =>
    obtain ⟨turn, hturn, rfl⟩ := h.exists_turn_zero hsound hcount hv
    rw [h.value_of_turn hsound hturn]
    obtain ⟨_, edges, _, hseeded, _⟩ := h.turn_zero hsound hcount hturn
    cases hseeded with
    | other ne value _ => rw [value, if_neg fun hboth => ne hboth.1]
    | silent source value _ _ | told source value _ => rw [value, if_pos ⟨source, hv⟩]

/-- Later a vertex adopts its message, or keeps its value if the message is no better. -/
theorem value_succ (h : s.Superstep g job (index + 1) s' turns) (hsound : s.Sound g job count)
    (v : VertexId) :
    (s'.value v = s.value v ∧
      ∀ m, s.waiting v = some m → less m.weight (s.value v).weight = false) ∨
      ∃ m, s.Adopts s' v m := by
  obtain ⟨box, hrouted⟩ := hsound.routed
  cases hwaiting : s.waiting v with
  | none =>
      have hdue : v ∉ (s.due (index + 1)).map Prod.fst := by
        intro hmem
        obtain ⟨call, hcall, rfl⟩ := List.mem_map.mp hmem
        obtain ⟨m, _, hm⟩ := hrouted.mem_due_succ.mp hcall
        rw [hwaiting] at hm
        cases hm
      refine .inl ⟨h.value_of_not_due hdue, ?_⟩
      intro m hm
      cases hm
  | some m =>
      obtain ⟨turn, hturn, rfl⟩ := h.exists_turn_succ hsound hwaiting
      obtain ⟨m', edges, hwaiting', _, hheard⟩ := h.turn_succ hsound hturn
      obtain rfl := Option.some.inj (hwaiting.symm.trans hwaiting')
      have hvalue := h.value_of_turn hsound hturn
      cases hheard with
      | ignored kept value _ _ =>
          refine .inl ⟨hvalue.trans value, ?_⟩
          intro m' hm'
          obtain rfl := Option.some.inj hm'
          exact kept
      | silenced better finite value _ _ _ | told better finite value _ _ =>
          exact .inr ⟨m, hwaiting, better, finite, hvalue.trans value⟩

/-- Only renewed vertices send, and they send along all their edges. -/
theorem sent_cases (h : s.Superstep g job index s' turns) (hsound : s.Sound g job count)
    (hcount : 0 < count) {out : Outbound W} (hout : out ∈ Turn.sent turns) :
    ∃ v edges sent, s.Renewed g job s' index v ∧ g.edges? v = some edges ∧
      job.forward (s'.value v) edges = .ok sent ∧ out ∈ sent ∧
      ∀ other ∈ sent, other ∈ Turn.sent turns := by
  obtain ⟨turn, hturn, hmem⟩ := List.mem_flatMap.mp hout
  have hall : ∀ other ∈ turn.result.messages, other ∈ Turn.sent turns := by
    intro other hother
    exact List.mem_flatMap.mpr ⟨turn, hturn, hother⟩
  have hvalue := h.value_of_turn hsound hturn
  cases index with
  | zero =>
      obtain ⟨hids, edges, hedges, hseeded, _⟩ := h.turn_zero hsound hcount hturn
      cases hseeded with
      | other _ _ silent | silent _ _ silent _ => simp [silent] at hmem
      | told source value sent =>
          rw [← value, ← hvalue] at sent
          rw [value] at hvalue
          rw [source] at hids hedges hvalue sent
          exact ⟨_, edges, _, .source hids hvalue, hedges, sent, hmem, hall⟩
  | succ index =>
      obtain ⟨m, edges, hwaiting, hedges, hheard⟩ := h.turn_succ hsound hturn
      cases hheard with
      | ignored _ _ silent _ | silenced _ _ _ silent _ _ => simp [silent] at hmem
      | told better finite value _ sent =>
          rw [← value, ← hvalue] at sent
          exact ⟨_, edges, _, .adopted ⟨hwaiting, better, finite, hvalue.trans value⟩, hedges,
            sent, hmem, hall⟩

/-- A renewed vertex that is not silenced sends along all its edges. -/
theorem exists_sent (h : s.Superstep g job index s' turns) (hsound : s.Sound g job count)
    (hcount : 0 < count) (hrenewed : s.Renewed g job s' index v)
    (hopen : ∀ replica, job.silences v replica = false) :
    ∃ edges sent, g.edges? v = some edges ∧ job.forward (s'.value v) edges = .ok sent ∧
      ∀ out ∈ sent, out ∈ Turn.sent turns := by
  have hall : ∀ turn ∈ turns, ∀ out ∈ turn.result.messages, out ∈ Turn.sent turns := by
    intro turn hturn out hout
    exact List.mem_flatMap.mpr ⟨turn, hturn, hout⟩
  cases hrenewed with
  | source mem value =>
      obtain ⟨turn, hturn, hvertex⟩ := h.exists_turn_zero hsound hcount mem
      obtain ⟨_, edges, hedges, hseeded, _⟩ := h.turn_zero hsound hcount hturn
      rw [hvertex] at hedges hseeded
      rw [value]
      cases hseeded with
      | other ne _ _ => exact absurd rfl ne
      | silent _ _ _ reason =>
          rcases reason with htarget | rfl
          · have hsilenced := hopen []
            simp [Job.silences, htarget, Targets.contains, Targets.ids, Targets.allReached]
              at hsilenced
          · exact ⟨[], [], hedges, rfl, fun _ hout => absurd hout List.not_mem_nil⟩
      | told _ _ sent => exact ⟨edges, _, hedges, sent, hall turn hturn⟩
  | @adopted index v m adopts =>
      obtain ⟨turn, hturn, hvertex⟩ := h.exists_turn_succ hsound adopts.waiting
      obtain ⟨m', edges, hwaiting, hedges, hheard⟩ := h.turn_succ hsound hturn
      rw [hvertex] at hwaiting hedges hheard
      obtain rfl := Option.some.inj (adopts.waiting.symm.trans hwaiting)
      rw [adopts.value]
      cases hheard with
      | ignored kept _ _ _ =>
          rw [adopts.better] at kept
          cases kept
      | silenced _ _ _ _ _ reason =>
          rw [hopen] at reason
          cases reason
      | told _ _ _ _ sent => exact ⟨edges, _, hedges, sent, hall turn hturn⟩

/-- What a renewed vertex that is not silenced sends along an edge arrives, or something better. -/
theorem exists_mail (h : s.Superstep g job index s' turns) (hsound : s.Sound g job count)
    (hcount : 0 < count) {u : VertexId} (hrenewed : s.Renewed g job s' index u)
    (hopen : ∀ replica, job.silences u replica = false) {w : W} (hhop : job.Hop g u v w) :
    ∃ m, s'.waiting v = some m ∧
      m.precedes { path := (s'.value u).path, weight := add (s'.value u).weight w } := by
  obtain ⟨edges, sent, hedges, hforward, hall⟩ := h.exists_sent hsound hcount hrenewed hopen
  obtain ⟨edges', hedges', edge, hedge, rfl, hw⟩ := hhop
  obtain rfl := Option.some.inj (hedges.symm.trans hedges')
  obtain ⟨w', hw', halong⟩ := Job.along_mem_of_forward hforward hedge
  obtain rfl := Except.ok.inj (hw.symm.trans hw')
  exact (h.waiting edge.target).exists_of_mem (mem_addressed.mpr (hall _ halong))

/-- Where nothing is renewed nothing is adopted. -/
theorem adoptions_eq_zero (h : s.Superstep g job index s' turns) (hsound : s.Sound g job count)
    (hcount : 0 < count) (hkept : ∀ v, s.Renewed g job s' index v → index = 0) :
    Turn.adoptions turns = 0 := by
  apply Turn.adoptions_eq_zero
  intro turn hturn
  have hvalue := h.value_of_turn hsound hturn
  cases index with
  | zero =>
      obtain ⟨_, _, _, _, hadoptions⟩ := h.turn_zero hsound hcount hturn
      exact hadoptions
  | succ index =>
      obtain ⟨m, edges, hwaiting, _, hheard⟩ := h.turn_succ hsound hturn
      cases hheard with
      | ignored _ _ _ adoptions => exact adoptions
      | silenced better finite value _ _ _ | told better finite value _ _ =>
          cases hkept _ (.adopted ⟨hwaiting, better, finite, hvalue.trans value⟩)

variable [LawfulPathWeight W]

/-- What waits for a vertex came from a renewed one, over its lightest edge to there. -/
theorem mail_cases (h : s.Superstep g job index s' turns) (hsound : s.Sound g job count)
    (hcount : 0 < count) {m : Message W} (hm : s'.waiting v = some m) :
    ∃ u w, s.Renewed g job s' index u ∧ job.LeastHop g u v w ∧
      m = { path := (s'.value u).path, weight := add (s'.value u).weight w } := by
  have hcollects := h.waiting v
  rw [hm] at hcollects
  have hsent := mem_addressed.mp hcollects.mem_of_some
  obtain ⟨u, edges, sent, hrenewed, hedges, hforward, hout, hall⟩ :=
    h.sent_cases hsound hcount hsent
  obtain ⟨edge, hedge, w', hw', hm'⟩ := Job.exists_edge_of_forward hforward hout
  have htarget : edge.target = v := (congrArg Outbound.recipient hm').symm
  have haccepted : ∀ edge ∈ edges, edge.target = v → ∃ w, job.weigh edge = .ok w := by
    intro edge hedge _
    obtain ⟨w, hw, _⟩ := Job.along_mem_of_forward hforward hedge
    exact ⟨w, hw⟩
  obtain ⟨w, hleast⟩ := Job.exists_leastHop hedges haccepted ⟨edge, hedge, htarget⟩
  refine ⟨u, w, hrenewed, hleast, ?_⟩
  -- rounding may hide that this edge is not the lightest, but then the sums are the same
  have hvalue := h.values_proper hsound hcount u
  have hmessage : m = { path := (s'.value u).path, weight := add (s'.value u).weight w' } :=
    congrArg Outbound.message hm'
  have hlow : AtMost (add (s'.value u).weight w) m.weight := by
    obtain ⟨w'', hw'', hle⟩ := hleast.least edges hedges edge hedge htarget
    obtain rfl := Except.ok.inj (hw'.symm.trans hw'')
    rw [hmessage]
    exact add_mono hvalue hvalue hleast.hop.positive (job.positive hw').1 (.refl _) hle
  have hhigh : AtMost m.weight (add (s'.value u).weight w) := by
    obtain ⟨edges', hedges', best, hbest, hto, hw⟩ := hleast.hop
    obtain rfl := Option.some.inj (hedges.symm.trans hedges')
    obtain ⟨w'', hw'', halong⟩ := Job.along_mem_of_forward hforward hbest
    obtain rfl := Except.ok.inj (hw.symm.trans hw'')
    have hmem : { path := (s'.value u).path, weight := add (s'.value u).weight w } ∈
        addressed v (Turn.sent turns) := by
      rw [mem_addressed, ← hto]
      exact hall _ halong
    have hfirst := hcollects.first_of_some _ hmem
    exact atMost_of_precedes (h.mail_proper hsound hcount hm)
      (proper_add hvalue hleast.hop.positive) hfirst
  subst hmessage
  have hsame : add (s'.value u).weight w' = add (s'.value u).weight w := hhigh.antisymm hlow
  rw [hsame]

end Superstep

end State

end BulkPaths
