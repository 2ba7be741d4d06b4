import BulkPaths.Proofs.Routes

/-!
# Relaxed edges

A vertex that passes its value on does so once for every value, in the superstep in which it takes
it on. So after superstep `k` an edge of a vertex whose value is of that superstep has its message
under way, and the edges of all others are relaxed: the value at the head is no worse than the one
at the tail and the edge together.
-/

namespace BulkPaths

open PathWeight LawfulPathWeight Message

variable {W : Type} [PathWeight W]

/-- The vertex passes on every value that it takes on. -/
def Job.Open (job : Job W) (v : VertexId) : Prop := ∀ replica, job.silences v replica = false

theorem Job.open_all {job : Job W} (hall : job.targets = .all) (v : VertexId) : job.Open v := by
  intro replica
  unfold silences
  rw [hall]
  rfl

namespace State

/-- Where the edges of vertices stand after superstep `k`. -/
structure Relaxed (g : PropertyGraph) (job : Job W) (k : Nat) (s : State W) : Prop where
  fresh : ∀ {u v w}, job.Open u → (s.value u).reachable → (s.value u).hops = k → job.Hop g u v w →
    ∃ m, s.waiting v = some m ∧
      m.precedes { path := (s.value u).path, weight := add (s.value u).weight w }
  settled : ∀ {u v w}, job.Open u → (s.value u).reachable → (s.value u).hops < k →
    job.Hop g u v w → AtMost (s.value v).weight (add (s.value u).weight w)
  accepted : ∀ {u edges}, job.Open u → (s.value u).reachable → g.edges? u = some edges →
    ∀ edge ∈ edges, ∃ w, job.weigh edge = .ok w

variable {g : PropertyGraph} {job : Job W} {k count : Nat} {s s' : State W}
  {turns : List (Turn W)} {u v : VertexId} {w : W}

theorem Superstep.accepted {index : Nat} (h : s.Superstep g job index s' turns)
    (hsound : s.Sound g job count) (hcount : 0 < count) (hrenewed : s.Renewed g job s' index u)
    (hopen : job.Open u) {edges : List Edge} (hedges : g.edges? u = some edges) :
    ∀ edge ∈ edges, ∃ w, job.weigh edge = .ok w := by
  intro edge hedge
  obtain ⟨edges', sent, hedges', hforward, _⟩ := h.exists_sent hsound hcount hrenewed hopen
  obtain rfl := Option.some.inj (hedges.symm.trans hedges')
  obtain ⟨w, hw, _⟩ := Job.along_mem_of_forward hforward hedge
  exact ⟨w, hw⟩

theorem relaxed_zero (h : s.Superstep g job 0 s' turns) (hsound : s.Sound g job count)
    (hcount : 0 < count) (hfresh : ∀ v, s.value v = .unreached) : s'.Relaxed g job 0 := by
  have hvalue := h.value_zero hsound hcount hfresh
  have hrenewed : ∀ {u}, (s'.value u).reachable → s.Renewed g job s' 0 u := by
    intro u hu
    by_cases hsource : u = job.source ∧ u ∈ g.ids
    · obtain ⟨rfl, hmem⟩ := hsource
      exact .source hmem (by rw [hvalue, if_pos ⟨rfl, hmem⟩])
    · rw [hvalue, if_neg hsource] at hu
      cases hu
  refine ⟨?_, ?_, ?_⟩
  · intro u v w hopen hu _ hhop
    exact h.exists_mail hsound hcount (hrenewed hu) hopen hhop
  · intro u v w _ _ hlate
    exact absurd hlate (Nat.not_lt_zero _)
  · intro u edges hopen hu hedges
    exact h.accepted hsound hcount (hrenewed hu) hopen hedges

variable [LawfulPathWeight W]

/-- After a superstep a vertex is no worse off than with the message that waited for it. -/
theorem Superstep.value_atMost_mail (h : s.Superstep g job (k + 1) s' turns)
    (hsound : s.Sound g job count) {m : Message W} (hm : s.waiting v = some m) :
    AtMost (s'.value v).weight m.weight := by
  rcases h.value_succ hsound v with ⟨hkept, hworse⟩ | ⟨m', hadopts⟩
  · rw [hkept]
    exact atMost_of_not_less (hsound.values v) (hsound.mail v m hm) (hworse m hm)
  · obtain rfl := Option.some.inj (hm.symm.trans hadopts.waiting)
    rw [hadopts.value]
    exact .refl _

/-- The next superstep relaxes all edges of vertices that have passed on their value, whatever its
own job silences. -/
theorem Relaxed.value_next {job' : Job W} (h : s.Relaxed g job' k) (htracked : s.Tracked g job k)
    (hsound : s.Sound g job count) (hstep : s.Superstep g job (k + 1) s' turns)
    (hopen : job'.Open u) (hu : (s.value u).reachable) (hhop : job'.Hop g u v w) :
    AtMost (s'.value v).weight (add (s.value u).weight w) := by
  rcases Nat.lt_or_eq_of_le (htracked.hops_le u) with hold | hnew
  · exact (hstep.value_atMost hsound v).trans (h.settled hopen hu hold hhop)
  · obtain ⟨m, hm, hfirst⟩ := h.fresh hopen hu hnew hhop
    have hle := atMost_of_precedes (hsound.mail v m hm)
      (proper_add (hsound.values u) hhop.positive) hfirst
    exact (hstep.value_atMost_mail hsound hm).trans hle

theorem relaxed_succ (h : s.Superstep g job (k + 1) s' turns) (hsound : s.Sound g job count)
    (hcount : 0 < count) (htracked : s.Tracked g job k) (hrelaxed : s.Relaxed g job k) :
    s'.Relaxed g job (k + 1) := by
  refine ⟨?_, ?_, ?_⟩
  · intro u v w hopen hu hnew hhop
    rcases h.value_succ hsound u with ⟨hkept, _⟩ | ⟨m, hadopts⟩
    · have hhops := htracked.hops_le u
      rw [← hkept] at hhops
      omega
    · exact h.exists_mail hsound hcount (.adopted hadopts) hopen hhop
  · intro u v w hopen hu hold hhop
    rcases h.value_succ hsound u with ⟨hkept, _⟩ | ⟨m, hadopts⟩
    · rw [hkept] at hu ⊢
      exact hrelaxed.value_next htracked hsound h hopen hu hhop
    · have hhops := (htracked.adopted hsound hcount hadopts.waiting hadopts.better).2.1
      rw [hadopts.value, hhops] at hold
      exact absurd hold (Nat.lt_irrefl _)
  · intro u edges hopen hu hedges
    rcases h.value_succ hsound u with ⟨hkept, _⟩ | ⟨m, hadopts⟩
    · rw [hkept] at hu
      exact hrelaxed.accepted hopen hu hedges
    · exact h.accepted hsound hcount (.adopted hadopts) hopen hedges

end State

theorem Run.Boundary.relaxed [LawfulPathWeight W] {g : PropertyGraph} {job : Job W}
    {limits : Limits} {k : Nat} {s : State W} (h : Boundary g job limits k s) :
    s.Relaxed g job k := by
  induction h using induct with
  | first _ hstep => exact State.relaxed_zero hstep sound_initial limits.staffed value_initial
  | next before hstep ih =>
      exact State.relaxed_succ hstep before.sound limits.staffed before.tracked ih

end BulkPaths
