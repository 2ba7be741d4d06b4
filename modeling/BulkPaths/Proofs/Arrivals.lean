import BulkPaths.Proofs.Distances
import BulkPaths.Proofs.MissingTargets

/-!
# When messages arrive

What waits for a vertex after superstep `k` has come along a walk of `k + 1` edges. Conversely, as
long as sums do not overflow, a walk of `k + 1` edges has brought the vertex at its end a message
after superstep `k` at the latest: not always along this walk, since a vertex passes on only what
improves its value, but the first message that a vertex hears does. This is so in a run about all
vertices, and in any other one while a target is missing.
-/

namespace BulkPaths

open PathWeight LawfulPathWeight

/-- A walk of `k` edges from the source, whatever they weigh. -/
inductive PropertyGraph.Leads (g : PropertyGraph) (source : VertexId) : Nat → VertexId → Prop
  | here : Leads g source 0 source
  | step {k : Nat} {u : VertexId} {edges : List Edge} {edge : Edge} (before : Leads g source k u)
      (out : g.edges? u = some edges) (mem : edge ∈ edges) : Leads g source (k + 1) edge.target

theorem PropertyGraph.Leads.source_mem_ids {g : PropertyGraph} {source v : VertexId} {k : Nat}
    (h : g.Leads source (k + 1) v) : source ∈ g.ids := by
  generalize hn : k + 1 = n at h
  induction h generalizing k with
  | here => cases hn
  | step before out _ ih =>
      cases before with
      | here => exact Assoc.mem_keys_of_get? out
      | step => exact ih rfl

variable {W : Type} [PathWeight W] {g : PropertyGraph} {job : Job W}

theorem Job.Hop.leads {source u v : VertexId} {k : Nat} {w : W} (h : job.Hop g u v w)
    (hu : g.Leads source k u) : g.Leads source (k + 1) v := by
  obtain ⟨edges, hedges, edge, hedge, rfl, _⟩ := h
  exact hu.step hedges hedge

theorem Walk.leads {source v : VertexId} {path : List VertexId} {x : W}
    (h : Walk (job.Hop g) source path v x) : g.Leads source (path.length - 1) v := by
  induction h with
  | here => exact .here
  | @step path u v _ _ before last ih =>
      have hpos := before.length_pos
      have hlength : (path ++ [v]).length - 1 = path.length - 1 + 1 := by
        rw [List.length_append, List.length_singleton]
        omega
      rw [hlength]
      exact last.leads ih

theorem State.Tracked.leads {k : Nat} {s : State W} {v : VertexId} {m : Message W}
    (h : s.Tracked g job k) (hm : s.waiting v = some m) : g.Leads job.source (k + 1) v := by
  obtain ⟨u, w, hreachable, rfl, hhop, _⟩ := h.mail v m hm
  exact hhop.hop.leads (h.grounded hreachable).hop_walk.leads

namespace Run

/-- What waits at the first `k` barriers has not overflowed. -/
def NoOverflow (g : PropertyGraph) (job : Job W) (limits : Limits) (k : Nat) : Prop :=
  ∀ j < k, ∀ s, Boundary g job limits j s → ∀ v m, s.waiting v = some m → isFinite m.weight

/-- A message for the vertex was delivered in one of the supersteps `1` to `k`. -/
def Notified (g : PropertyGraph) (job : Job W) (limits : Limits) (k : Nat) (v : VertexId) : Prop :=
  ∃ j < k, ∃ s, Boundary g job limits j s ∧ (s.waiting v).isSome

variable {limits : Limits} {j k : Nat} {s t : State W} {u v : VertexId} {m : Message W}

theorem Notified.mono (h : Notified g job limits j v) (hj : j ≤ k) :
    Notified g job limits k v := by
  obtain ⟨i, hi, hmail⟩ := h
  exact ⟨i, Nat.lt_of_lt_of_le hi hj, hmail⟩

theorem Boundary.lt_of_mail (h : Boundary g job limits k s) (hempty : s.pending = 0)
    (ht : Boundary g job limits j t) (hj : j ≤ k) (hm : t.waiting v = some m) : j < k := by
  refine Nat.lt_of_le_of_ne hj ?_
  rintro rfl
  obtain rfl := ht.unique h
  rw [State.pending_eq_zero.mp hempty v] at hm
  cases hm

variable [LawfulPathWeight W]

/-- A vertex that has heard of a path that has not overflowed is reachable from then on. -/
theorem Boundary.reachable_of_mail (h : Boundary g job limits k s)
    (ht : Boundary g job limits j t) (hj : j < k) (hm : t.waiting v = some m)
    (hfinite : isFinite m.weight) : (s.value v).reachable := by
  obtain ⟨t', hafter⟩ := h.exists_le hj
  have hnext : AtMost (t'.value v).weight m.weight := by
    cases hafter with
    | next before _ step =>
        obtain rfl := before.unique ht
        obtain ⟨turns, hstep, _⟩ := State.superstep_ok limits.staffed before.sound step
        exact hstep.value_atMost_mail before.sound hm
  have hlater : AtMost (s.value v).weight (t'.value v).weight := by
    rcases Nat.lt_or_ge (j + 1) (s.value v).hops with hlate | hearly
    · exact .inr ((h.adopted_at hafter hj v).2 hlate)
    · rw [(h.adopted_at hafter hj v).1 hearly]
      exact .refl _
  have hproper := ht.sound.mail v m hm
  rw [h.reachable_iff_finite, finite_iff (h.sound.values v)]
  intro hinfinite
  have hbelow := hlater.trans hnext
  rw [hinfinite] at hbelow
  exact (finite_iff hproper).mp hfinite (eq_infinite_of_atMost hproper hbelow)

section All

variable (hall : job.targets = .all)

include hall

/-- A reachable vertex has sent its neighbours a message in the superstep that its hops count. -/
theorem Boundary.exists_mail_along (h : Boundary g job limits k s) (hu : (s.value u).reachable)
    {edges : List Edge} (hedges : g.edges? u = some edges) {edge : Edge} (hedge : edge ∈ edges) :
    ∃ t m, Boundary g job limits (s.value u).hops t ∧ t.waiting edge.target = some m := by
  have hle := h.tracked.hops_le u
  obtain ⟨t, ht⟩ := h.exists_le hle
  have hvalue := (h.adopted_at ht hle u).1 (Nat.le_refl _)
  have hopen := Job.open_all hall u
  rw [← hvalue] at hu
  obtain ⟨w, hw⟩ := ht.relaxed.accepted hopen hu hedges edge hedge
  obtain ⟨m, hm, _⟩ := ht.relaxed.fresh hopen hu (by rw [hvalue])
    ⟨edges, hedges, edge, hedge, rfl, hw⟩
  exact ⟨t, m, ht, hm⟩

theorem Boundary.reachable_of_leads (h : Boundary g job limits k s)
    (hfinite : NoOverflow g job limits k) (hsource : job.source ∈ g.ids) {d : Nat}
    (hleads : g.Leads job.source d v) (hd : d ≤ k) : (s.value v).reachable := by
  induction hleads generalizing k s with
  | here =>
      rw [h.tracked.source hsource]
      rfl
  | @step d u edges edge _ out mem ih =>
      obtain ⟨t, ht⟩ := h.exists_le (Nat.le_of_succ_le hd)
      have hu := ih ht (fun j hj => hfinite j (by omega)) (Nat.le_refl d)
      -- the tail may have sent its last message long before superstep `d`
      obtain ⟨t', m, ht', hm⟩ := ht.exists_mail_along hall hu out mem
      have hhops := ht.tracked.hops_le u
      have hlt : (t.value u).hops < k := by omega
      exact h.reachable_of_mail ht' hlt hm (hfinite _ hlt t' ht' _ m hm)

theorem Boundary.reachable_of_empty (h : Boundary g job limits k s)
    (hfinite : NoOverflow g job limits k) (hsource : job.source ∈ g.ids)
    (hempty : s.pending = 0) {d : Nat} (hleads : g.Leads job.source d v) :
    (s.value v).reachable := by
  induction hleads with
  | here =>
      rw [h.tracked.source hsource]
      rfl
  | @step d u edges edge _ out mem ih =>
      obtain ⟨t, m, ht, hm⟩ := h.exists_mail_along hall ih out mem
      have hlt := h.lt_of_mail hempty ht (h.tracked.hops_le u) hm
      exact h.reachable_of_mail ht hlt hm (hfinite _ hlt t ht _ m hm)

theorem Boundary.notified_of_leads (h : Boundary g job limits k s)
    (hfinite : NoOverflow g job limits k) {d : Nat} (hleads : g.Leads job.source (d + 1) v)
    (hd : d ≤ k) : Notified g job limits (d + 1) v := by
  have hsource := hleads.source_mem_ids
  cases hleads with
  | @step _ u edges edge before out mem =>
      obtain ⟨t, ht⟩ := h.exists_le hd
      have hu := ht.reachable_of_leads hall (fun j hj => hfinite j (by omega)) hsource before
        (Nat.le_refl d)
      obtain ⟨t', m, ht', hm⟩ := ht.exists_mail_along hall hu out mem
      exact ⟨_, Nat.lt_succ_of_le (ht.tracked.hops_le u), t', ht', by rw [hm]; rfl⟩

theorem Boundary.notified_of_empty (h : Boundary g job limits k s)
    (hfinite : NoOverflow g job limits k) (hempty : s.pending = 0) {d : Nat}
    (hleads : g.Leads job.source (d + 1) v) : Notified g job limits k v := by
  have hsource := hleads.source_mem_ids
  cases hleads with
  | @step _ u edges edge before out mem =>
      have hu := h.reachable_of_empty hall hfinite hsource hempty before
      obtain ⟨t, m, ht, hm⟩ := h.exists_mail_along hall hu out mem
      exact ⟨_, h.lt_of_mail hempty ht (h.tracked.hops_le u) hm, t, ht, by rw [hm]; rfl⟩

end All

section Missing

variable (halone : job.targets ≠ .single job.source)

include halone

theorem NoOverflow.of_missing (hfinite : NoOverflow g job limits k)
    (h : Boundary g job limits k s) (hmissing : s.aggregator.converged = false) :
    NoOverflow g (job.aimed .all) limits k := by
  intro j hj t ht v m hm
  obtain ⟨s', hs', hlevel⟩ := h.exists_level_le halone hmissing ht (Nat.le_of_lt hj)
  rw [← hlevel.waiting] at hm
  exact hfinite j hj s' hs' v m hm

theorem Notified.of_missing (hnotified : Notified g (job.aimed .all) limits j v)
    (h : Boundary g job limits k s) (hmissing : s.aggregator.converged = false) (hj : j ≤ k + 1) :
    Notified g job limits j v := by
  obtain ⟨i, hi, t, ht, hmail⟩ := hnotified
  obtain ⟨s', hs', hlevel⟩ := h.exists_level_le halone hmissing ht (by omega)
  exact ⟨i, hi, s', hs', by rwa [hlevel.waiting]⟩

/-- While a target is missing, nobody who sends is muted: the vertex at the end of a walk of `d + 1`
edges has had a message after superstep `d`. -/
theorem Boundary.notified_of_missing (h : Boundary g job limits k s)
    (hmissing : s.aggregator.converged = false) (hfinite : NoOverflow g job limits k) {d : Nat}
    (hleads : g.Leads job.source (d + 1) v) (hd : d ≤ k) : Notified g job limits (d + 1) v := by
  obtain ⟨t, ht, _⟩ := h.exists_level_of_missing halone hmissing
  have hall := ht.notified_of_leads rfl (hfinite.of_missing halone h hmissing) hleads hd
  exact hall.of_missing halone h hmissing (Nat.succ_le_succ hd)

theorem Boundary.notified_of_missing_of_empty (h : Boundary g job limits k s)
    (hmissing : s.aggregator.converged = false) (hfinite : NoOverflow g job limits k)
    (hempty : s.pending = 0) {d : Nat} (hleads : g.Leads job.source (d + 1) v) :
    Notified g job limits k v := by
  obtain ⟨t, ht, hlevel⟩ := h.exists_level_of_missing halone hmissing
  have hempty' : t.pending = 0 := by
    rw [← State.pending_eq_of_waiting h.sound ht.sound hlevel.waiting, hempty]
  have hall :=
    ht.notified_of_empty rfl (hfinite.of_missing halone h hmissing) hempty' hleads
  exact hall.of_missing halone h hmissing (Nat.le_succ k)

end Missing

end Run

end BulkPaths
