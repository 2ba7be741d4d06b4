import BulkPaths.Proofs.Runs
import BulkPaths.Proofs.WholeWeights

/-!
# The routes that values stand for

At every barrier a value is that of no path or of a simple path from the source that was adopted in
the superstep its hops count, and its weight is the sum of the lightest edges. The invariant speaks
of the messages under way too: each stands for the value of its sender extended by one edge. A
vertex never adopts a path through itself, since the vertices of a path weigh no more than its end
and sums do not fall.
-/

namespace BulkPaths

open PathWeight LawfulPathWeight

variable {W : Type} [PathWeight W]

/-- Number of edges of the path. -/
def PathValue.hops (value : PathValue W) : Nat := value.path.length - 1

/-- A value of a path to the vertex that may be known after superstep `k`. -/
structure Grounded (g : PropertyGraph) (job : Job W) (k : Nat) (v : VertexId)
    (value : PathValue W) : Prop where
  known : v ∈ g.ids
  reachable : value.reachable = true
  finite : isFinite value.weight
  walk : Walk (job.LeastHop g) job.source value.path v value.weight
  simple : value.path.Nodup
  hops : value.hops ≤ k

namespace Grounded

variable {g : PropertyGraph} {job : Job W} {k : Nat} {v : VertexId} {value : PathValue W}

theorem length (h : Grounded g job k v value) : value.path.length = value.hops + 1 := by
  have hpos := h.walk.length_pos
  unfold PathValue.hops
  omega

theorem later (h : Grounded g job k v value) : Grounded g job (k + 1) v value :=
  { h with hops := Nat.le_succ_of_le h.hops }

theorem hop_walk (h : Grounded g job k v value) :
    Walk (job.Hop g) job.source value.path v value.weight :=
  h.walk.mono fun hleast => hleast.hop

end Grounded

namespace State

/-- What holds after superstep `k` of values and of messages under way. -/
structure Tracked (g : PropertyGraph) (job : Job W) (k : Nat) (s : State W) : Prop where
  values : ∀ v, s.value v = .unreached ∨ Grounded g job k v (s.value v)
  support : ∀ v, (s.value v).reachable → ∀ u ∈ (s.value v).path,
    (s.value u).reachable ∧ AtMost (s.value u).weight (s.value v).weight
  mail : ∀ v m, s.waiting v = some m → ∃ u w, (s.value u).reachable ∧ (s.value u).hops = k ∧
    job.LeastHop g u v w ∧
    m = { path := (s.value u).path, weight := add (s.value u).weight w }
  source : job.source ∈ g.ids → s.value job.source = .source job.source

variable {g : PropertyGraph} {job : Job W} {k count : Nat} {s s' : State W}
  {turns : List (Turn W)} {u v : VertexId}

theorem Tracked.grounded (h : s.Tracked g job k) (hv : (s.value v).reachable) :
    Grounded g job k v (s.value v) := by
  apply (h.values v).resolve_left
  intro hnone
  rw [hnone] at hv
  cases hv

namespace Superstep

theorem value_atMost (h : s.Superstep g job (k + 1) s' turns) (hsound : s.Sound g job count)
    (v : VertexId) : AtMost (s'.value v).weight (s.value v).weight := by
  rcases h.value_succ hsound v with ⟨hkept, _⟩ | ⟨m, hadopts⟩
  · rw [hkept]
    exact .refl _
  · rw [hadopts.value]
    exact .inr hadopts.better

theorem reachable_mono (h : s.Superstep g job (k + 1) s' turns) (hsound : s.Sound g job count)
    (hv : (s.value v).reachable) : (s'.value v).reachable := by
  rcases h.value_succ hsound v with ⟨hkept, _⟩ | ⟨m, hadopts⟩
  · rw [hkept]
    exact hv
  · rw [hadopts.value]
    rfl

end Superstep

theorem Tracked.hops_le (h : s.Tracked g job k) (v : VertexId) : (s.value v).hops ≤ k := by
  rcases h.values v with hnone | hgrounded
  · rw [hnone]
    exact Nat.zero_le k
  · exact hgrounded.hops

variable [LawfulPathWeight W]

theorem tracked_zero (h : s.Superstep g job 0 s' turns) (hsound : s.Sound g job count)
    (hcount : 0 < count) (hfresh : ∀ v, s.value v = .unreached) : s'.Tracked g job 0 := by
  have hvalue := h.value_zero hsound hcount hfresh
  have hsource : ∀ v, (s'.value v).reachable → v = job.source ∧ v ∈ g.ids := by
    intro v hv
    by_contra hnot
    rw [hvalue v, if_neg hnot] at hv
    cases hv
  refine ⟨?_, ?_, ?_, ?_⟩
  · intro v
    by_cases hv : v = job.source ∧ v ∈ g.ids
    · rw [hvalue v, if_pos hv]
      obtain ⟨rfl, hmem⟩ := hv
      exact .inr ⟨hmem, rfl, zero_finite, .here, List.nodup_singleton _, Nat.le_refl 0⟩
    · rw [hvalue v, if_neg hv]
      exact .inl rfl
  · intro v hv u hu
    obtain ⟨rfl, hmem⟩ := hsource v hv
    have hat : s'.value job.source = .source job.source := by
      rw [hvalue, if_pos ⟨rfl, hmem⟩]
    rw [hat] at hu
    obtain rfl := List.mem_singleton.mp hu
    exact ⟨hv, .refl _⟩
  · intro v m hm
    obtain ⟨u, w, hrenewed, hhop, rfl⟩ := h.mail_cases hsound hcount hm
    cases hrenewed with
    | source mem value =>
        refine ⟨job.source, w, ?_, ?_, hhop, rfl⟩
        · rw [value]
          rfl
        · rw [value]
          rfl
  · intro hmem
    rw [hvalue, if_pos ⟨rfl, hmem⟩]

/-- A message that improves a value stands for a simple path, so a vertex does not adopt a path that
it is on. -/
theorem Tracked.adopted (h : s.Tracked g job k) (hsound : s.Sound g job count)
    (hcount : 0 < count) {m : Message W} (hm : s.waiting v = some m)
    (hbetter : less m.weight (s.value v).weight) :
    Grounded g job (k + 1) v (m.adopted v) ∧ (m.adopted v).hops = k + 1 ∧
      ∀ u ∈ m.path, (s.value u).reachable ∧ AtMost (s.value u).weight m.weight := by
  have hfinite := finite_of_less (hsound.mail v m hm) (hsound.values v) hbetter
  obtain ⟨u, w, hreachable, hhops, hhop, rfl⟩ := h.mail v m hm
  have hgrounded := h.grounded hreachable
  have hgrows : AtMost (s.value u).weight (add (s.value u).weight w) :=
    atMost_add (hsound.values u) hhop.hop.positive
  have hsupport : ∀ x ∈ (s.value u).path, (s.value x).reachable ∧
      AtMost (s.value x).weight (add (s.value u).weight w) := fun x hx =>
    ⟨(h.support u hreachable x hx).1, (h.support u hreachable x hx).2.trans hgrows⟩
  -- a sum may equal its first argument, so `v` on the path is ruled out by its own weight
  have hnew : v ∉ (s.value u).path := by
    intro hmem
    rw [(hsupport v hmem).2.not_less] at hbetter
    cases hbetter
  have hlength : (Message.adopted ⟨(s.value u).path, add (s.value u).weight w⟩ v).hops = k + 1 := by
    have hpath := hgrounded.length
    simp only [Message.adopted, PathValue.hops, List.length_append, List.length_singleton]
    omega
  refine ⟨⟨hsound.mem_ids_of_waiting hcount hm, rfl, hfinite, hgrounded.walk.step hhop, ?_,
    Nat.le_of_eq hlength⟩, hlength, hsupport⟩
  exact hgrounded.simple.append (List.nodup_singleton v) (by simpa using hnew)

theorem tracked_succ (h : s.Superstep g job (k + 1) s' turns) (hsound : s.Sound g job count)
    (hcount : 0 < count) (htracked : s.Tracked g job k) : s'.Tracked g job (k + 1) := by
  refine ⟨?_, ?_, ?_, ?_⟩
  · intro v
    rcases h.value_succ hsound v with ⟨hkept, _⟩ | ⟨m, hadopts⟩
    · rw [hkept]
      exact (htracked.values v).imp_right Grounded.later
    · rw [hadopts.value]
      exact .inr (htracked.adopted hsound hcount hadopts.waiting hadopts.better).1
  · intro v hv u hu
    rcases h.value_succ hsound v with ⟨hkept, _⟩ | ⟨m, hadopts⟩
    · rw [hkept] at hv hu ⊢
      obtain ⟨hreachable, hle⟩ := htracked.support v hv u hu
      exact ⟨h.reachable_mono hsound hreachable, (h.value_atMost hsound u).trans hle⟩
    · rw [hadopts.value] at hu ⊢
      -- the vertices of the path have since got better themselves, if anything
      rcases List.mem_append.mp hu with hold | hnew
      · obtain ⟨_, _, hsupport⟩ :=
          htracked.adopted hsound hcount hadopts.waiting hadopts.better
        obtain ⟨hreachable, hle⟩ := hsupport u hold
        exact ⟨h.reachable_mono hsound hreachable, (h.value_atMost hsound u).trans hle⟩
      · rw [List.mem_singleton.mp hnew, hadopts.value]
        exact ⟨rfl, .refl _⟩
  · intro v m hm
    obtain ⟨u, w, hrenewed, hhop, rfl⟩ := h.mail_cases hsound hcount hm
    cases hrenewed with
    | adopted hadopts =>
        refine ⟨u, w, ?_, ?_, hhop, rfl⟩
        · rw [hadopts.value]
          rfl
        · rw [hadopts.value]
          exact (htracked.adopted hsound hcount hadopts.waiting hadopts.better).2.1
  · intro hmem
    rcases h.value_succ hsound job.source with ⟨hkept, _⟩ | ⟨m, hadopts⟩
    · rw [hkept]
      exact htracked.source hmem
    · have hbetter := hadopts.better
      have hproper := hsound.mail _ m hadopts.waiting
      rw [htracked.source hmem, PathValue.source, hproper.zero_atMost.not_less] at hbetter
      cases hbetter

end State

namespace Run.Boundary

variable [LawfulPathWeight W] {g : PropertyGraph} {job : Job W} {limits : Limits} {k : Nat}
  {s : State W}

theorem tracked (h : Boundary g job limits k s) : s.Tracked g job k := by
  induction h using induct with
  | first _ hstep => exact State.tracked_zero hstep sound_initial limits.staffed value_initial
  | next before hstep ih => exact State.tracked_succ hstep before.sound limits.staffed ih

/-- A value was adopted in the superstep that its hops count: from then on it is the value, and
before there was a heavier one. -/
theorem adopted_at (h : Boundary g job limits k s) {j : Nat} {t : State W}
    (ht : Boundary g job limits j t) (hj : j ≤ k) (v : VertexId) :
    ((s.value v).hops ≤ j → t.value v = s.value v) ∧
      (j < (s.value v).hops → less (s.value v).weight (t.value v).weight) := by
  induction h generalizing j t with
  | first divided step =>
      obtain rfl := Nat.le_zero.mp hj
      obtain rfl := ht.unique (.first divided step)
      exact ⟨fun _ => rfl, fun hlate => absurd (ht.tracked.hops_le v) (Nat.not_le_of_lt hlate)⟩
  | @next k s s' before goes step ih =>
      have hafter := before.next goes step
      rcases Nat.le_succ_iff.mp hj with hle | rfl
      case inr =>
        obtain rfl := ht.unique hafter
        exact ⟨fun _ => rfl, fun hlate => absurd (ht.tracked.hops_le v) (Nat.not_le_of_lt hlate)⟩
      case inl =>
        obtain ⟨hsame, hless⟩ := ih ht hle
        obtain ⟨turns, hstep, _⟩ := State.superstep_ok limits.staffed before.sound step
        rcases hstep.value_succ before.sound v with ⟨hkept, _⟩ | ⟨m, hadopts⟩
        · rw [hkept]
          exact ⟨hsame, hless⟩
        · obtain ⟨_, hhops, _⟩ := before.tracked.adopted before.sound limits.staffed
            hadopts.waiting hadopts.better
          rw [hadopts.value, hhops]
          refine ⟨fun hearly => by omega, fun _ => ?_⟩
          have hold : AtMost (s.value v).weight (t.value v).weight := by
            rcases Nat.lt_or_ge j (s.value v).hops with hlate | hearly
            · exact .inr (hless hlate)
            · rw [hsame hearly]
              exact .refl _
          exact less_of_less_of_atMost hadopts.better hold

/-- The value of a path with edges was a message for the vertex in the superstep before. -/
theorem exists_adopted (h : Boundary g job limits k s) {j : Nat} {v : VertexId}
    (hv : (s.value v).hops = j + 1) :
    ∃ t m, Boundary g job limits j t ∧ t.waiting v = some m ∧ s.value v = m.adopted v := by
  have hle := h.tracked.hops_le v
  rw [hv] at hle
  obtain ⟨t', hafter⟩ := h.exists_le hle
  have hvalue := (h.adopted_at hafter hle v).1 (Nat.le_of_eq hv)
  cases hafter with
  | @next _ t t' before goes step =>
      obtain ⟨turns, hstep, _⟩ := State.superstep_ok limits.staffed before.sound step
      have hheavier := (h.adopted_at before (Nat.le_of_succ_le hle) v).2 (by omega)
      rcases hstep.value_succ before.sound v with ⟨hkept, _⟩ | ⟨m, hadopts⟩
      · rw [← hvalue, hkept, less_irrefl] at hheavier
        cases hheavier
      · exact ⟨t, m, before, hadopts.waiting, hvalue.symm.trans hadopts.value⟩

/-- In the next superstep a vertex keeps its value, or adopts a lighter one that has a hop for every
superstep. -/
theorem value_next (h : Boundary g job limits k s) {s' : State W}
    (hstep : s.superstep g job (k + 1) = .ok s') (v : VertexId) :
    s'.value v = s.value v ∨ ∃ m, s.Adopts s' v m ∧ (s'.value v).hops = k + 1 := by
  obtain ⟨turns, hstep, _⟩ := State.superstep_ok limits.staffed h.sound hstep
  rcases hstep.value_succ h.sound v with ⟨hkept, _⟩ | ⟨m, hadopts⟩
  · exact .inl hkept
  · refine .inr ⟨m, hadopts, ?_⟩
    rw [hadopts.value]
    exact (h.tracked.adopted h.sound limits.staffed hadopts.waiting hadopts.better).2.1

/-- At every barrier each value is that of no path or of a simple one over the lightest edges, and
was adopted in the superstep that its hops count; the source keeps its own. -/
theorem values_are_routes (h : Boundary g job limits k s) :
    (∀ v, s.value v = .unreached ∨ Grounded g job k v (s.value v)) ∧
      (∀ j t, Boundary g job limits j t → j ≤ k → ∀ v,
        ((s.value v).hops ≤ j → t.value v = s.value v) ∧
          (j < (s.value v).hops → less (s.value v).weight (t.value v).weight)) ∧
      (∀ s', s.superstep g job (k + 1) = .ok s' → ∀ v,
        s'.value v = s.value v ∨ ∃ m, s.Adopts s' v m ∧ (s'.value v).hops = k + 1) ∧
      (job.source ∈ g.ids → s.value job.source = .source job.source) :=
  ⟨h.tracked.values, fun _ _ ht hj v => h.adopted_at ht hj v,
    fun _ hstep v => h.value_next hstep v, h.tracked.source⟩

theorem values_are_routes_diamond : ∃ s, Boundary diamond diamondJob diamondLimits 2 s ∧
    (∀ v, s.value v = .unreached ∨ Grounded diamond diamondJob 2 v (s.value v)) ∧
      s.value (.long 0) = .source (.long 0) := by
  obtain ⟨s, hs⟩ := diamond_boundary
  obtain ⟨hvalues, _, _, hsource⟩ := values_are_routes hs
  exact ⟨s, hs, hvalues, hsource (by decide +kernel)⟩

end Run.Boundary

end BulkPaths
