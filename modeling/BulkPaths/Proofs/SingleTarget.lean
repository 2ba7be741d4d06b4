import BulkPaths.Proofs.Exposure

/-!
# A single target

A single target that keeps what it hears to itself changes nothing that matters to it: whatever it
would have passed on weighs at least as much as it does itself. So a job about one target and the
job about all vertices agree on everything that is lighter than the target, superstep by superstep,
and on the target. The one run may have gone on longer than the other; it then stands still.
-/

namespace BulkPaths

open PathWeight LawfulPathWeight Message

variable {W : Type} [PathWeight W]

theorem Job.open_of_ne {job : Job W} {targets : Targets} {target v : VertexId}
    (htargets : targets = .all ∨ targets = .single target) (hv : v ≠ target) :
    (job.aimed targets).Open v := by
  intro replica
  rcases htargets with rfl | rfl
  · rfl
  · simp [silences, aimed, Targets.allReached, hv]

namespace State

/-- What is lighter than the bound is in both states or in neither. -/
structure AgreeBelow (bound : W) (s t : State W) : Prop where
  value : ∀ v x, less x.weight bound → (s.value v = x ↔ t.value v = x)
  waiting : ∀ v m, less m.weight bound → (s.waiting v = some m ↔ t.waiting v = some m)

theorem AgreeBelow.symm {bound : W} {s t : State W} (h : AgreeBelow bound s t) :
    AgreeBelow bound t s :=
  ⟨fun v x hx => (h.value v x hx).symm, fun v m hm => (h.waiting v m hm).symm⟩

/-- The target has the same value in both states, and so has all that is lighter. -/
structure Aligned (target : VertexId) (s t : State W) : Prop where
  held : s.value target = t.value target
  below : AgreeBelow (s.value target).weight s t

theorem Aligned.symm {target : VertexId} {s t : State W} (h : s.Aligned target t) :
    t.Aligned target s :=
  ⟨h.held.symm, h.held ▸ h.below.symm⟩

/-- The messages that wait are those of the new values: what such a value would send over an edge
waits there, or something better, if its vertex passes it on. -/
structure Posted (g : PropertyGraph) (job : Job W) (new : VertexId → Prop) (s : State W) :
    Prop where
  origin : ∀ {v m}, s.waiting v = some m → ∃ u w, new u ∧ job.Hop g u v w ∧
    m = { path := (s.value u).path, weight := add (s.value u).weight w }
  spread : ∀ {u v w}, new u → job.Open u → job.Hop g u v w → ∃ m, s.waiting v = some m ∧
    m.precedes { path := (s.value u).path, weight := add (s.value u).weight w }

/-- A superstep after the first, or none where nothing is pending. -/
structure Advances (g : PropertyGraph) (job : Job W) (s s' : State W) : Prop where
  takes : ∀ v, (s'.value v = s.value v ∧
    ∀ m, s.waiting v = some m → less m.weight (s.value v).weight = false) ∨
      ∃ m, s.Adopts s' v m
  posted : s'.Posted g job fun v => ∃ m, s.Adopts s' v m

variable {g : PropertyGraph} {job job' : Job W} {count index : Nat} {s s' t t' : State W}
  {turns : List (Turn W)} {targets targets' : Targets} {target : VertexId} {bound : W}
  {new new' : VertexId → Prop}

theorem advances_of_empty (hempty : s.pending = 0) : s.Advances g job s := by
  have hnone := pending_eq_zero.mp hempty
  refine ⟨fun v => .inl ⟨rfl, fun m hm => ?_⟩, ⟨fun {v m} hm => ?_, fun {u v w} hnew _ _ => ?_⟩⟩
  · rw [hnone] at hm
    cases hm
  · rw [hnone] at hm
    cases hm
  · obtain ⟨m, hadopts⟩ := hnew
    have hwaiting := hadopts.waiting
    rw [hnone] at hwaiting
    cases hwaiting

theorem Advances.value_atMost (h : s.Advances g job s') (v : VertexId) :
    AtMost (s'.value v).weight (s.value v).weight := by
  rcases h.takes v with ⟨hkept, _⟩ | ⟨m, hadopts⟩
  · rw [hkept]
    exact .refl _
  · rw [hadopts.value]
    exact .inr hadopts.better

variable [LawfulPathWeight W]

theorem Superstep.posted (h : s.Superstep g job index s' turns) (hs : s.Sound g job count)
    (hcount : 0 < count) : s'.Posted g job (s.Renewed g job s' index) where
  origin := by
    intro v m hm
    obtain ⟨u, w, hrenewed, hleast, hm⟩ := h.mail_cases hs hcount hm
    exact ⟨u, w, hrenewed, hleast.hop, hm⟩
  spread hrenewed hopen hhop := h.exists_mail hs hcount hrenewed hopen hhop

theorem Superstep.advances (h : s.Superstep g job (index + 1) s' turns) (hs : s.Sound g job count)
    (hcount : 0 < count) : s.Advances g job s' where
  takes := h.value_succ hs
  posted := by
    have hposted := h.posted hs hcount
    refine ⟨fun {v m} hm => ?_, fun {u v w} hnew hopen hhop => ?_⟩
    · obtain ⟨u, w, hrenewed, hrest⟩ := hposted.origin hm
      cases hrenewed with
      | adopted adopts => exact ⟨u, w, ⟨_, adopts⟩, hrest⟩
    · obtain ⟨m, hadopts⟩ := hnew
      exact hposted.spread (.adopted hadopts) hopen hhop

/-- A light message has a light sender, so the other state has mail from there as well. -/
theorem Posted.exists_mail (hs : s.Posted g (job.aimed targets) new)
    (ht : t.Posted g (job.aimed targets') new') (hproper : ∀ v, Proper (s.value v).weight)
    (hopen : ∀ u, less (s.value u).weight bound → (job.aimed targets').Open u)
    (hvalue : ∀ u, less (s.value u).weight bound → t.value u = s.value u)
    (hnew : ∀ u, less (s.value u).weight bound → new u → new' u) {v : VertexId} {m : Message W}
    (hm : s.waiting v = some m) (hlight : less m.weight bound) :
    ∃ m', t.waiting v = some m' ∧ m'.precedes m := by
  obtain ⟨u, w, hu, hhop, rfl⟩ := hs.origin hm
  have hsender : less (s.value u).weight bound :=
    less_of_atMost_of_less (atMost_add (hproper u) hhop.positive) hlight
  have hmail := ht.spread (hnew u hsender hu) (hopen u hsender) hhop
  rwa [hvalue u hsender] at hmail

/-- Mail that is preceded by mail on the other side, and that by mail on this one, is the same. -/
theorem waiting_of_precedes {v : VertexId} {m : Message W}
    (hs : ∀ v m, s.waiting v = some m → Proper m.weight)
    (ht : ∀ v m, t.waiting v = some m → Proper m.weight)
    (hforth : ∀ {v m}, s.waiting v = some m → less m.weight bound →
      ∃ m', t.waiting v = some m' ∧ m'.precedes m)
    (hback : ∀ {v m}, t.waiting v = some m → less m.weight bound →
      ∃ m', s.waiting v = some m' ∧ m'.precedes m)
    (hm : s.waiting v = some m) (hlight : less m.weight bound) : t.waiting v = some m := by
  obtain ⟨m', hm', hfirst⟩ := hforth hm hlight
  have hproper := hs v m hm
  have hproper' := ht v m' hm'
  have hlight' := less_of_atMost_of_less (atMost_of_precedes hproper' hproper hfirst) hlight
  obtain ⟨m'', hm'', hfirst'⟩ := hback hm' hlight'
  obtain rfl := Option.some.inj (hm.symm.trans hm'')
  rw [precedes_antisymm hproper hproper' hfirst' hfirst, hm']

theorem aligned_of_posted (hs : s.Posted g (job.aimed targets) new)
    (ht : t.Posted g (job.aimed targets') new')
    (htargets : targets = .all ∨ targets = .single target)
    (htargets' : targets' = .all ∨ targets' = .single target)
    (hs' : s.Sound g (job.aimed targets) count) (ht' : t.Sound g (job.aimed targets') count)
    (hheld : s.value target = t.value target)
    (hvalue : ∀ v x, less x.weight (s.value target).weight → (s.value v = x ↔ t.value v = x))
    (hnew : ∀ v, less (s.value v).weight (s.value target).weight → (new v ↔ new' v)) :
    s.Aligned target t := by
  -- whoever is lighter than the target is another vertex, and passes on what it adopts
  have hopen : ∀ {targets : Targets} {u : VertexId},
      (targets = .all ∨ targets = .single target) →
        less (s.value u).weight (s.value target).weight → (job.aimed targets).Open u := by
    intro targets u htargets hlight
    apply Job.open_of_ne htargets
    rintro rfl
    rw [less_self] at hlight
    cases hlight
  have hsame : ∀ u, less (t.value u).weight (s.value target).weight → s.value u = t.value u :=
    fun u hlight => (hvalue u _ hlight).mpr rfl
  have hforth : ∀ {v m}, s.waiting v = some m → less m.weight (s.value target).weight →
      ∃ m', t.waiting v = some m' ∧ m'.precedes m := by
    refine hs.exists_mail ht hs'.values (fun u => hopen htargets') (fun u hlight => ?_)
      fun u hlight => (hnew u hlight).mp
    exact (hvalue u _ hlight).mp rfl
  have hback : ∀ {v m}, t.waiting v = some m → less m.weight (s.value target).weight →
      ∃ m', s.waiting v = some m' ∧ m'.precedes m := by
    refine ht.exists_mail hs ht'.values (fun u hlight => ?_) hsame fun u hlight => ?_
    · exact hopen htargets (hsame u hlight ▸ hlight)
    · exact (hnew u (hsame u hlight ▸ hlight)).mpr
  refine ⟨hheld, hvalue, fun v m hlight => ⟨fun hm => ?_, fun hm => ?_⟩⟩
  · exact waiting_of_precedes hs'.mail ht'.mail hforth hback hm hlight
  · exact waiting_of_precedes ht'.mail hs'.mail hback hforth hm hlight

namespace Aligned

theorem adopts (h : s.Aligned target t) (ht' : t.Sound g job' count)
    (ht : t.Advances g job' t') {v : VertexId} {m : Message W}
    (hlight : less m.weight (s.value target).weight) (hadopts : s.Adopts s' v m) :
    t.Adopts t' v m := by
  have hwaiting := (h.below.waiting v m hlight).mp hadopts.waiting
  rcases ht.takes v with ⟨_, hworse⟩ | ⟨m', hadopts'⟩
  · -- a value that is no heavier than the message would be held here too
    have hle := atMost_of_not_less (ht'.values v) (ht'.mail v m hwaiting) (hworse m hwaiting)
    have hheld := (h.below.value v _ (less_of_atMost_of_less hle hlight)).mpr rfl
    have hbetter := hadopts.better
    rw [hheld, hworse m hwaiting] at hbetter
    cases hbetter
  · obtain rfl := Option.some.inj (hwaiting.symm.trans hadopts'.waiting)
    exact hadopts'

theorem held_next (h : s.Aligned target t) (hs' : s.Sound g job count) (ht' : t.Sound g job' count)
    (hs : s.Advances g job s') (ht : t.Advances g job' t') :
    s'.value target = t'.value target := by
  rcases hs.takes target with ⟨hkept, _⟩ | ⟨m, hadopts⟩
  · rcases ht.takes target with ⟨hkept', _⟩ | ⟨m, hadopts⟩
    · rw [hkept, hkept', h.held]
    · rw [hadopts.value, (h.symm.adopts hs' hs hadopts.better hadopts).value]
  · rw [hadopts.value, (h.adopts ht' ht hadopts.better hadopts).value]

theorem value_next (h : s.Aligned target t) (hs' : s.Sound g job count)
    (ht' : t.Sound g job' count) (hs : s.Advances g job s') (ht : t.Advances g job' t')
    {v : VertexId} (hlight : less (s'.value v).weight (s.value target).weight) :
    t'.value v = s'.value v := by
  rcases hs.takes v with ⟨hkept, hworse⟩ | ⟨m, hadopts⟩
  · rw [hkept] at hlight ⊢
    have hheld := (h.below.value v _ hlight).mp rfl
    rcases ht.takes v with ⟨hkept', _⟩ | ⟨m, hadopts⟩
    · rw [hkept', hheld]
    · have hbetter := hadopts.better
      rw [hheld] at hbetter
      have hadopts' := h.symm.adopts hs' hs (h.held ▸ less_trans hbetter hlight) hadopts
      rw [hworse m hadopts'.waiting] at hbetter
      cases hbetter
  · rw [hadopts.value] at hlight ⊢
    exact (h.adopts ht' ht hlight hadopts).value

theorem next (h : s.Aligned target t) (htargets : targets = .all ∨ targets = .single target)
    (htargets' : targets' = .all ∨ targets' = .single target)
    (hs : s.Sound g (job.aimed targets) count) (ht : t.Sound g (job.aimed targets') count)
    (hs' : s'.Sound g (job.aimed targets) count) (ht' : t'.Sound g (job.aimed targets') count)
    (hstep : s.Advances g (job.aimed targets) s') (hstep' : t.Advances g (job.aimed targets') t') :
    s'.Aligned target t' := by
  have hheld := h.held_next hs ht hstep hstep'
  have hlower : ∀ x, less x (s'.value target).weight → less x (s.value target).weight :=
    fun x hx => less_of_less_of_atMost hx (hstep.value_atMost target)
  have hvalue : ∀ v x, less x.weight (s'.value target).weight →
      (s'.value v = x ↔ t'.value v = x) := by
    intro v x hlight
    have hlight := hlower _ hlight
    constructor
    · rintro rfl
      exact h.value_next hs ht hstep hstep' hlight
    · rintro rfl
      exact h.symm.value_next ht hs hstep' hstep (h.held ▸ hlight)
  refine aligned_of_posted hstep.posted hstep'.posted htargets htargets' hs' ht' hheld hvalue ?_
  intro v hlight
  have hsame : t'.value v = s'.value v := (hvalue v _ hlight).mp rfl
  have hlight := hlower _ hlight
  constructor
  · rintro ⟨m, hadopts⟩
    rw [hadopts.value] at hlight
    exact ⟨m, h.adopts ht hstep' hlight hadopts⟩
  · rintro ⟨m, hadopts⟩
    rw [← hsame, hadopts.value, h.held] at hlight
    exact ⟨m, h.symm.adopts hs hstep hlight hadopts⟩

end Aligned

end State

namespace Run

variable {g : PropertyGraph} {job : Job W} {limits : Limits} {k : Nat} {s t : State W}
  {targets targets' : Targets} {target : VertexId}

/-- The state at barrier `k`, or the last one if the run was over before. -/
inductive Standing (g : PropertyGraph) (job : Job W) (limits : Limits) : Nat → State W → Prop
  | running {k : Nat} {s : State W} (boundary : Boundary g job limits k s) :
      Standing g job limits k s
  | rested {k : Nat} {s : State W} (before : Standing g job limits k s) (empty : s.pending = 0) :
      Standing g job limits (k + 1) s

theorem Boundary.standing (h : Boundary g job limits k s) (hempty : s.pending = 0) (n : Nat) :
    Standing g job limits (k + n) s := by
  induction n with
  | zero => exact .running h
  | succ n ih => exact ih.rested hempty

variable [LawfulPathWeight W]

theorem Standing.sound (h : Standing g job limits k s) : s.Sound g job limits.workers := by
  induction h with
  | running boundary => exact boundary.sound
  | rested _ _ ih => exact ih

theorem Standing.exists_before (h : Standing g job limits (k + 1) s) :
    ∃ t, Standing g job limits k t ∧ t.Advances g job s := by
  cases h with
  | rested before empty => exact ⟨s, before, State.advances_of_empty empty⟩
  | running boundary =>
      cases boundary with
      | @next _ t _ before _ step =>
          obtain ⟨turns, hstep, _⟩ := State.superstep_ok limits.staffed before.sound step
          exact ⟨t, .running before, hstep.advances before.sound limits.staffed⟩

theorem Boundary.aligned_zero (h : Boundary g (job.aimed targets) limits 0 s)
    (h' : Boundary g (job.aimed targets') limits 0 t)
    (htargets : targets = .all ∨ targets = .single target)
    (htargets' : targets' = .all ∨ targets' = .single target) : s.Aligned target t := by
  have hsound := h.sound
  have hsound' := h'.sound
  cases h with
  | first _ step =>
  cases h' with
  | first _ step' =>
    obtain ⟨turns, hstep, _⟩ := State.superstep_ok limits.staffed sound_initial step
    obtain ⟨turns', hstep', _⟩ := State.superstep_ok limits.staffed sound_initial step'
    have hvalue : ∀ v, s.value v = t.value v := by
      intro v
      rw [hstep.value_zero sound_initial limits.staffed value_initial,
        hstep'.value_zero sound_initial limits.staffed value_initial]
      rfl
    refine State.aligned_of_posted (hstep.posted sound_initial limits.staffed)
      (hstep'.posted sound_initial limits.staffed) htargets htargets' hsound hsound'
      (hvalue target) (fun v x _ => by rw [hvalue]) fun v _ => ⟨?_, ?_⟩
    · rintro ⟨mem, value⟩
      exact .source mem ((hvalue _).symm.trans value)
    · rintro ⟨mem, value⟩
      exact .source mem ((hvalue _).trans value)

theorem Standing.aligned (htargets : targets = .all ∨ targets = .single target)
    (htargets' : targets' = .all ∨ targets' = .single target)
    (h : Standing g (job.aimed targets) limits k s)
    (h' : Standing g (job.aimed targets') limits k t) : s.Aligned target t := by
  induction k generalizing s t with
  | zero =>
      cases h with
      | running boundary =>
      cases h' with
      | running boundary' => exact boundary.aligned_zero boundary' htargets htargets'
  | succ k ih =>
      obtain ⟨_, hbefore, hstep⟩ := h.exists_before
      obtain ⟨_, hbefore', hstep'⟩ := h'.exists_before
      exact (ih hbefore hbefore').next htargets htargets' hbefore.sound hbefore'.sound h.sound
        h'.sound hstep hstep'

theorem Boundary.not_failsIn (h : Boundary g (job.aimed .all) limits k s) (hempty : s.pending = 0)
    {j : Nat} {fault : Fault} : ¬FailsIn g (job.aimed targets) limits j fault :=
  fun hfails => h.not_exposes_of_empty rfl hempty hfails.exposes

/-- Whenever the job about all vertices completes, the one about a single target ends with the same
value of that target, unless it needs more supersteps than it is allowed. -/
theorem single_target_agrees {result : Result W} (htarget : target ∈ g.ids)
    (hlate : limits.stopEarly = false)
    (hall : (ofJob g (job.aimed .all) limits).outcome = .ok result) :
    (∃ result' value, (ofJob g (job.aimed (.single target)) limits).outcome = .ok result' ∧
      Assoc.get? target result.values = some value ∧
      Assoc.get? target result'.values = some value) ∨
    ∃ pending, (ofJob g (job.aimed (.single target)) limits).outcome =
        .error (.noConvergence limits.maxSupersteps pending) ∧
      limits.maxSupersteps ≠ 0 ∧ limits.maxSupersteps < g.vertexCount := by
  obtain ⟨k, s, hs, hempty, rfl⟩ := exists_boundary_of_all rfl hall
  rcases exists_end (job.aimed (.single target)) hs.divided with
    ⟨j, fault, hfails⟩ | ⟨j, t, ht, hhalts⟩ | ⟨j, t, ht, hbounded⟩
  · exact absurd hfails (hs.not_failsIn hempty)
  · have hempty' : t.pending = 0 := by
      refine hhalts.resolve_right fun henough => ?_
      rw [hlate] at henough
      cases henough
    -- each run stands still at its end until the other has come as far
    have haligned : s.Aligned target t :=
      Standing.aligned (.inl rfl) (.inr rfl) (hs.standing hempty j)
        (Nat.add_comm j k ▸ ht.standing hempty' k)
    refine .inl ⟨_, s.value target, ht.outcome_of_halts hhalts, get?_result_values htarget, ?_⟩
    rw [get?_result_values htarget, haligned.held]
  · have hpending := ht.tracked.lt_reachables_of_pending hbounded.pending
    have hcount := t.length_reachables_le g
    have hbound := hbounded.bound
    exact .inr ⟨t.pending, ht.outcome_of_bounded hbounded, hbound.1, by omega⟩

theorem single_target_agrees_diamond :
    ∃ result result' value, (ofJob diamond diamondJob diamondLimits).outcome = .ok result ∧
      (ofJob diamond (diamondJob.aimed (.single (.long 1))) diamondLimits).outcome = .ok result' ∧
      Assoc.get? (.long 1) result.values = some value ∧
      Assoc.get? (.long 1) result'.values = some value := by
  obtain ⟨result, hresult, _⟩ := diamond_run
  have htarget : .long 1 ∈ diamond.ids := by decide +kernel
  have hcount : diamond.vertexCount = 4 := by decide +kernel
  rcases @single_target_agrees Float _ diamond diamondJob diamondLimits (.long 1) _ result htarget
    rfl hresult with ⟨result', value, hresult', hvalue, hvalue'⟩ | ⟨_, _, _, hbound⟩
  · exact ⟨result, result', value, hresult, hresult', hvalue, hvalue'⟩
  · rw [hcount] at hbound
    exact absurd hbound (by decide)

/-- The short way to `2` leads through `1`, and the one to `3` through `2`. -/
def bypass : PropertyGraph :=
  [(0, 1), (1, 2), (2, 3), (0, 4), (4, 5), (5, 2)].foldl
    (fun g (tail, head) => g.connect (.long tail) (.long head) []) .empty

def bypassLimits : Limits :=
  { workers := 1, staffed := Nat.one_pos, maxSupersteps := 3, stopEarly := false }

/-- Where `1` is the target, `3` hears of a path only in the last superstep, over the long way. -/
theorem bypass_needs_more_supersteps :
    ∃ result pending, (ofJob bypass diamondJob bypassLimits).outcome = .ok result ∧
      .long 1 ∈ bypass.ids ∧
      (ofJob bypass (diamondJob.aimed (.single (.long 1))) bypassLimits).outcome =
        .error (.noConvergence 3 pending) := by
  obtain ⟨result, hresult, _⟩ : ∃ result,
      (ofJob bypass diamondJob bypassLimits).outcome = .ok result ∧ result.supersteps = 4 :=
    exists_result (by decide +kernel)
  have hbounded : (match (ofJob bypass (diamondJob.aimed (.single (.long 1))) bypassLimits).outcome
      with
      | .error (.noConvergence 3 _) => true
      | _ => false) = true := by decide +kernel
  split at hbounded
  case h_1 pending hpending => exact ⟨result, pending, hresult, by decide +kernel, hpending⟩
  case h_2 => cases hbounded

end Run

end BulkPaths
