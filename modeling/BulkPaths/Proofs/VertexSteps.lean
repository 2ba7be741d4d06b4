import BulkPaths.Program
import BulkPaths.Proofs.WeightLaws
import Mathlib.Data.List.Forall2

/-!
# What a vertex does with a message

A message is ignored, adopted in silence, or adopted and passed on along every outgoing edge. Where
the weights are proper nothing can go wrong but the weight of an edge.
-/

namespace BulkPaths

open PathWeight

theorem bind_eq_ok {ε α β : Type} {x : Except ε α} {f : α → Except ε β} {b : β} :
    x >>= f = .ok b ↔ ∃ a, x = .ok a ∧ f a = .ok b := by
  cases x <;> simp [bind, Except.bind]

theorem bind_eq_error {ε α β : Type} {x : Except ε α} {f : α → Except ε β} {e : ε} :
    x >>= f = .error e ↔ x = .error e ∨ ∃ a, x = .ok a ∧ f a = .error e := by
  cases x <;> simp [bind, Except.bind]

theorem exists_fault {α : Type} {outcome : Except Fault α} {kind : FaultKind}
    (h : (match outcome with
      | .error fault => fault.kind == kind
      | .ok _ => false) = true) :
    ∃ fault, outcome = .error fault ∧ fault.kind = kind := by
  cases outcome with
  | error fault => exact ⟨fault, rfl, eq_of_beq h⟩
  | ok result => cases h

/-- Both computations succeed, with related results, or both fail with the same fault. -/
inductive Agree {α β : Type} (related : α → β → Prop) :
    Except Fault α → Except Fault β → Prop
  | ok {a : α} {b : β} (both : related a b) : Agree related (.ok a) (.ok b)
  | error (fault : Fault) : Agree related (.error fault) (.error fault)

variable {W : Type} [PathWeight W]

def Message.adopted (m : Message W) (id : VertexId) : PathValue W :=
  { reachable := true, weight := m.weight, path := m.path ++ [id] }

/-- What a vertex sends along an edge of the given weight. -/
def PathValue.along (value : PathValue W) (edge : Edge) (weight : W) : Outbound W :=
  { recipient := edge.target
    message := { path := value.path, weight := add value.weight weight } }

namespace Job

variable {job : Job W} {id : VertexId} {edges : List Edge} {value : PathValue W} {m : Message W}
  {replica : IdSet} {result : StepResult W} {sent : List (Outbound W)} {fault : Fault}

theorem forward_cons (edge : Edge) :
    job.forward value (edge :: edges) = (do
      let weight ← job.weigh edge
      let sent ← job.forward value edges
      .ok (value.along edge weight :: sent)) := by
  simp only [forward, List.mapM_cons]
  cases job.weigh edge <;> rfl

theorem forward_ok (h : job.forward value edges = .ok sent) :
    List.Forall₂ (fun edge out => ∃ weight, job.weigh edge = .ok weight ∧
      out = value.along edge weight) edges sent := by
  induction edges generalizing sent with
  | nil =>
      cases h
      exact .nil
  | cons edge edges ih =>
      rw [forward_cons] at h
      obtain ⟨weight, hweigh, h⟩ := bind_eq_ok.mp h
      obtain ⟨rest, hrest, h⟩ := bind_eq_ok.mp h
      cases h
      exact .cons ⟨weight, hweigh, rfl⟩ (ih hrest)

theorem forward_error (h : job.forward value edges = .error fault) :
    ∃ edge ∈ edges, job.weigh edge = .error fault := by
  induction edges with
  | nil => cases h
  | cons edge edges ih =>
      rw [forward_cons] at h
      rcases bind_eq_error.mp h with hweigh | ⟨weight, _, h⟩
      · exact ⟨edge, List.mem_cons_self, hweigh⟩
      · rcases bind_eq_error.mp h with hrest | ⟨rest, _, h⟩
        · obtain ⟨bad, hmem, hbad⟩ := ih hrest
          exact ⟨bad, List.mem_cons_of_mem _ hmem, hbad⟩
        · cases h

theorem along_mem_of_forward (h : job.forward value edges = .ok sent) {edge : Edge}
    (hedge : edge ∈ edges) :
    ∃ weight, job.weigh edge = .ok weight ∧ value.along edge weight ∈ sent := by
  have hall := forward_ok h
  clear h
  induction hall with
  | nil => cases hedge
  | cons hout _ ih =>
      rcases List.mem_cons.mp hedge with rfl | hrest
      · obtain ⟨weight, hweigh, rfl⟩ := hout
        exact ⟨weight, hweigh, List.mem_cons_self⟩
      · obtain ⟨weight, hweigh, hmem⟩ := ih hrest
        exact ⟨weight, hweigh, List.mem_cons_of_mem _ hmem⟩

theorem exists_edge_of_forward (h : job.forward value edges = .ok sent) {out : Outbound W}
    (hout : out ∈ sent) :
    ∃ edge ∈ edges, ∃ weight, job.weigh edge = .ok weight ∧ out = value.along edge weight := by
  have hall := forward_ok h
  clear h
  induction hall with
  | nil => cases hout
  | cons hfirst _ ih =>
      rcases List.mem_cons.mp hout with rfl | hrest
      · exact ⟨_, List.mem_cons_self, hfirst⟩
      · obtain ⟨edge, hmem, hweigh⟩ := ih hrest
        exact ⟨edge, List.mem_cons_of_mem _ hmem, hweigh⟩

/-- The job about other targets. -/
def aimed (job : Job W) (targets : Targets) : Job W := { job with targets }

/-- A target at which the last of the targets is reached keeps what it hears to itself. -/
def silences (job : Job W) (id : VertexId) (replica : IdSet) : Bool :=
  job.targets.contains id && job.targets.allReached replica id

inductive Seeded (job : Job W) (id : VertexId) (edges : List Edge) (result : StepResult W) : Prop
  | other (ne : id ≠ job.source) (value : result.value = .unreached) (silent : result.messages = [])
  | silent (source : id = job.source) (value : result.value = .source id)
      (silent : result.messages = []) (reason : job.targets = .single job.source ∨ edges = [])
  | told (source : id = job.source) (value : result.value = .source id)
      (sent : job.forward (.source id) edges = .ok result.messages)

theorem init_ok (h : job.init id edges = .ok result) :
    Seeded job id edges result ∧ result.adoptions = 0 := by
  unfold init at h
  split at h
  case isTrue hne =>
    cases h
    exact ⟨.other (by simpa using hne) rfl rfl, rfl⟩
  case isFalse heq =>
    have hsource : id = job.source := by simpa using heq
    dsimp only at h
    split at h
    case isTrue htarget =>
      cases h
      exact ⟨.silent hsource rfl rfl (.inl (by simpa using htarget)), rfl⟩
    case isFalse =>
      split at h
      case isTrue hempty =>
        cases h
        exact ⟨.silent hsource rfl rfl (.inr (by simpa using hempty)), rfl⟩
      case isFalse =>
        obtain ⟨sent, hsent, h⟩ := bind_eq_ok.mp h
        cases h
        exact ⟨.told hsource rfl hsent, rfl⟩

/-- Nothing is sent in the first superstep if the source is all that is asked for. -/
theorem messages_of_init (halone : job.targets = .single job.source)
    (h : job.init id edges = .ok result) : result.messages = [] := by
  unfold init at h
  split at h
  case isTrue =>
    cases h
    rfl
  case isFalse =>
    dsimp only at h
    rw [if_pos (by simp [halone])] at h
    cases h
    rfl

theorem init_error (h : job.init id edges = .error fault) :
    id = job.source ∧ ∃ edge ∈ edges, job.weigh edge = .error fault := by
  unfold init at h
  split at h
  case isTrue => cases h
  case isFalse heq =>
    dsimp only at h
    split at h
    case isTrue => cases h
    case isFalse =>
      split at h
      case isTrue => cases h
      case isFalse =>
        rcases bind_eq_error.mp h with hsent | ⟨sent, _, h⟩
        · exact ⟨by simpa using heq, forward_error hsent⟩
        · cases h

/-- A later superstep of a vertex that hears one message. -/
inductive Heard (job : Job W) (id : VertexId) (edges : List Edge) (value : PathValue W)
    (m : Message W) (replica : IdSet) (result : StepResult W) : Prop
  | ignored (kept : less m.weight value.weight = false) (value : result.value = value)
      (silent : result.messages = []) (adoptions : result.adoptions = 0)
  | silenced (better : less m.weight value.weight) (finite : isFinite m.weight)
      (value : result.value = m.adopted id) (silent : result.messages = [])
      (adoptions : result.adoptions = 1)
      (reason : job.silences id (job.targets.enroll id replica))
  | told (better : less m.weight value.weight) (finite : isFinite m.weight)
      (value : result.value = m.adopted id) (adoptions : result.adoptions = 1)
      (sent : job.forward (m.adopted id) edges = .ok result.messages)

theorem adopt_ok {adopted : PathValue W} (h : value.adopt id m.path m.weight = .ok adopted) :
    less m.weight value.weight ∧ isFinite m.weight ∧ adopted = m.adopted id := by
  unfold PathValue.adopt PathValue.adoptWhen at h
  split at h
  case isTrue => cases h
  case isFalse hless =>
    split at h
    case isTrue => cases h
    case isFalse hfinite =>
      cases h
      exact ⟨by simpa using hless, by simpa using hfinite, rfl⟩

theorem step_singleton : job.step id edges value [m] replica =
    job.receive id edges (job.targets.enroll id replica)
      (.quiet value (job.targets.contains id && !replica.contains id)) m := by
  rw [step, List.foldlM_cons]
  exact bind_pure _

theorem step_ok (h : job.step id edges value [m] replica = .ok result) :
    Heard job id edges value m replica result := by
  rw [step_singleton] at h
  unfold receive at h
  split at h
  case isTrue hkept =>
    cases h
    exact .ignored (by simpa [StepResult.quiet] using hkept) rfl rfl rfl
  case isFalse =>
    obtain ⟨adopted, hadopt, h⟩ := bind_eq_ok.mp h
    obtain ⟨hbetter, hfinite, rfl⟩ := adopt_ok hadopt
    split at h
    case isTrue hreason =>
      cases h
      exact .silenced hbetter hfinite rfl rfl rfl hreason
    case isFalse =>
      obtain ⟨sent, hsent, h⟩ := bind_eq_ok.mp h
      cases h
      exact .told hbetter hfinite rfl rfl hsent

/-- Among proper weights only the weight of an edge can fail, and only for a message that would be
adopted. -/
theorem step_error [LawfulPathWeight W] (hm : Proper m.weight) (hvalue : Proper value.weight)
    (h : job.step id edges value [m] replica = .error fault) :
    less m.weight value.weight ∧ ∃ edge ∈ edges, job.weigh edge = .error fault := by
  rw [step_singleton] at h
  unfold receive at h
  split at h
  case isTrue => cases h
  case isFalse hless =>
    have hbetter : less m.weight value.weight := by simpa [StepResult.quiet] using hless
    have hadopt : value.adopt id m.path m.weight = .ok (m.adopted id) := by
      simp [PathValue.adopt, PathValue.adoptWhen, hbetter, finite_of_less hm hvalue hbetter,
        Message.adopted]
    refine ⟨hbetter, ?_⟩
    rcases bind_eq_error.mp h with hrefused | ⟨adopted, hadopted, h⟩
    · cases hadopt.symm.trans hrefused
    · split at h
      case isTrue => cases h
      case isFalse =>
        rcases bind_eq_error.mp h with hsent | ⟨sent, _, h⟩
        · exact forward_error hsent
        · cases h

end Job

end BulkPaths
