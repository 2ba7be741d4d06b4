import BulkPaths.Proofs.Distances
import BulkPaths.Proofs.Termination

/-!
# The path of the result is canonical

Where sums are exact, the path that a vertex ends up with is the first of its minimal walks: by the
number of edges, and then by the identifiers. Two local rules add up to this. A held path wins a tie
across supersteps, so it has the fewest edges; within a superstep the first message wins, and the
senders of minimal walks hold their own first paths by then.
-/

namespace BulkPaths

open PathWeight LawfulPathWeight

variable {W : Type} [PathWeight W]

/-- The value of the first among the minimal walks. -/
structure Canonical (g : PropertyGraph) (job : Job W) (v : VertexId) (value : PathValue W) :
    Prop where
  walk : Walk (job.Hop g) job.source value.path v value.weight
  least : ∀ p x, Walk (job.Hop g) job.source p v x → AtMost value.weight x
  fewest : ∀ p, Walk (job.Hop g) job.source p v value.weight → value.path.length ≤ p.length
  first : ∀ p, Walk (job.Hop g) job.source p v value.weight → value.path.length = p.length →
    (VertexId.cmpPath value.path p).isLE

namespace Run.Boundary

variable [LawfulPathWeight W] {g : PropertyGraph} {job : Job W} {limits : Limits} {k : Nat}
  {s : State W} {u v : VertexId} {p q : List VertexId} {w y : W}

/-- A walk with fewer edges than the path weighs more: otherwise its value would be held. -/
theorem length_le_of_minimal (h : Boundary g job limits k s) (hall : job.targets = .all)
    (hv : (s.value v).reachable) (hwalk : Walk (job.Hop g) job.source p v (s.value v).weight) :
    (s.value v).path.length ≤ p.length := by
  have hgrounded := h.tracked.grounded hv
  rw [hgrounded.length]
  by_contra hfewer
  have hpos := hwalk.length_pos
  -- after as many supersteps as the walk has edges the value was still a heavier one
  obtain ⟨t, ht⟩ := h.exists_le (j := p.length - 1) (by have := hgrounded.hops; omega)
  have hbefore := (h.adopted_at ht (by have := hgrounded.hops; omega) v).2 (by omega)
  have hsum := ht.atMost_sum hall hgrounded.known ⟨p, hwalk, by omega⟩
  rw [hsum.not_less] at hbefore
  cases hbefore

/-- In the superstep that follows on its tail's, a vertex adopts the first of the messages that are
as light. -/
theorem path_first (h : Boundary g job limits k s) (hall : job.targets = .all)
    (hu : (s.value u).reachable) (hv : (s.value v).reachable)
    (hhops : (s.value v).hops = (s.value u).hops + 1) (hhop : job.Hop g u v w)
    (hsum : add (s.value u).weight w = (s.value v).weight) :
    ∃ r, (s.value v).path = r ++ [v] ∧ r.length = (s.value u).path.length ∧
      (VertexId.cmpPath r (s.value u).path).isLE := by
  obtain ⟨t, m, ht, hm, hadopted⟩ := h.exists_adopted hhops
  -- at `t` the tail holds its last value for the first time
  have hheld := (h.adopted_at ht (h.tracked.hops_le u) u).1 (Nat.le_refl _)
  obtain ⟨m', hm', hfirst⟩ := ht.relaxed.fresh (Job.open_all hall u) (by rwa [hheld])
    (by rw [hheld]) hhop
  obtain rfl := Option.some.inj (hm.symm.trans hm')
  rw [hheld] at hfirst
  have hlength : m.path.length = (s.value u).path.length := by
    have hpath := (h.tracked.grounded hv).length
    rw [hhops, hadopted, Message.adopted, List.length_append, List.length_singleton] at hpath
    rw [(h.tracked.grounded hu).length]
    omega
  have hweight : m.weight = add (s.value u).weight w := by
    rw [hsum, hadopted]
    rfl
  refine ⟨m.path, by rw [hadopted]; rfl, hlength, ?_⟩
  rw [Message.precedes_iff (ht.sound.mail v m hm)
    (proper_add (h.sound.values u) hhop.positive)] at hfirst
  rcases hfirst with hless | ⟨_, hroute⟩
  · rw [hweight, less_irrefl] at hless
    cases hless
  · rwa [VertexId.cmpRoute_of_length_eq hlength] at hroute

/-- Where sums are exact, the walk to the last edge of a minimal walk with the fewest edges is one
itself. -/
theorem minimal_before_last (h : Boundary g job limits k s) (hall : job.targets = .all)
    (hempty : s.pending = 0) (hexact : job.Exact g) (hv : (s.value v).reachable)
    (hwalk : Walk (job.Hop g) job.source q u y) (hhop : job.Hop g u v w)
    (hsum : add y w = (s.value v).weight) (hlength : (s.value v).path.length = q.length + 1) :
    (s.value u).reachable ∧ (s.value u).weight = y ∧ (s.value u).path.length = q.length := by
  have hgrounded := h.tracked.grounded hv
  have hu := hhop.tail_mem_ids
  have hlower := h.atMost_sum_of_empty hall hempty hu hwalk
  have hfinite : isFinite (add y w) := by
    rw [hsum]
    exact hgrounded.finite
  have hreachable : (s.value u).reachable := by
    rcases h.tracked.reachable_or_infinite u with hreachable | hinfinite
    · exact hreachable
    · rw [hinfinite] at hlower
      rw [eq_infinite_of_atMost hwalk.proper hlower, add_infinite hhop.positive,
        infinite_not_finite] at hfinite
      cases hfinite
  have hpath := (h.tracked.grounded hreachable).hop_walk
  have hextended := h.atMost_sum_of_empty hall hempty hgrounded.known (hpath.step hhop)
  have hweight : (s.value u).weight = y := by
    apply hlower.resolve_right
    intro hless
    have hcount := s.length_reachables_le g
    have hlimit := h.tracked.hops_lt hv
    have hlimit' := h.tracked.hops_lt hreachable
    have hlengthu := (h.tracked.grounded hreachable).length
    rw [hgrounded.length] at hlength
    have hstrict := hexact hpath hwalk (by omega) (by omega) hhop hless hfinite
    rw [hsum, hextended.not_less] at hstrict
    cases hstrict
  refine ⟨hreachable, hweight, ?_⟩
  have hshort := h.length_le_of_minimal hall hreachable (hweight ▸ hwalk)
  have hsum' : add (s.value u).weight w = (s.value v).weight := by rw [hweight, hsum]
  have hlong := h.length_le_of_minimal hall hv (hsum' ▸ hpath.step hhop)
  rw [List.length_append, List.length_singleton] at hlong
  omega

theorem path_least (h : Boundary g job limits k s) (hall : job.targets = .all)
    (hempty : s.pending = 0) (hexact : job.Exact g) {x : W}
    (hwalk : Walk (job.Hop g) job.source p v x) (hx : x = (s.value v).weight)
    (hv : (s.value v).reachable) (hlength : (s.value v).path.length = p.length) :
    (VertexId.cmpPath (s.value v).path p).isLE := by
  induction hwalk with
  | here =>
      rw [h.tracked.source (h.tracked.grounded hv).known]
      exact @Std.ReflCmp.isLE_rfl _ VertexId.cmpPath _ _
  | @step q u v y w walked last ih =>
      rw [List.length_append, List.length_singleton] at hlength
      obtain ⟨hu, hweight, hprefix⟩ := h.minimal_before_last hall hempty hexact hv walked last hx
        hlength
      have hhops : (s.value v).hops = (s.value u).hops + 1 := by
        have hlengthv := (h.tracked.grounded hv).length
        have hlengthu := (h.tracked.grounded hu).length
        omega
      obtain ⟨r, hr, hsame, hfirst⟩ := h.path_first hall hu hv hhops last (by rw [hweight, hx])
      have hrest := ih hweight.symm hu hprefix
      rw [hr, VertexId.cmpPath_append_singleton (hsame.trans hprefix)]
      exact Std.TransCmp.isLE_trans hfirst hrest

end Run.Boundary

/-- Where sums are exact, the path of every reachable vertex is the first among its walks of minimal
weight: it has the fewest edges, and among those with as few it is the least. -/
theorem Run.paths_are_canonical [LawfulPathWeight W] {g : PropertyGraph} {job : Job W}
    {limits : Limits} {result : Result W} (hall : job.targets = .all) (hexact : job.Exact g)
    (hresult : (ofJob g job limits).outcome = .ok result) :
    ∀ entry ∈ result.values, entry.2.reachable → Canonical g job entry.1 entry.2 := by
  obtain ⟨k, s, h, hempty, rfl⟩ := exists_boundary_of_all hall hresult
  intro entry hentry hreachable
  obtain ⟨v, hv, rfl⟩ := List.mem_map.mp hentry
  refine ⟨(h.tracked.grounded hreachable).hop_walk, ?_, ?_, ?_⟩
  · intro p x hwalk
    exact h.atMost_sum_of_empty hall hempty hv hwalk
  · intro p hwalk
    exact h.length_le_of_minimal hall hreachable hwalk
  · intro p hwalk hlength
    exact h.path_least hall hempty hexact hwalk rfl hreachable hlength

theorem Run.paths_are_canonical_diamond :
    ∃ result, (ofJob diamond diamondJob diamondLimits).outcome = .ok result ∧
      ∀ entry ∈ result.values, entry.2.reachable →
        Canonical diamond diamondJob entry.1 entry.2 := by
  obtain ⟨result, hresult, _⟩ := diamond_run
  have hexact : diamondJob.Exact diamond := counting_exact _ _ (by decide +kernel)
  exact ⟨result, hresult, paths_are_canonical rfl hexact hresult⟩

end BulkPaths
