import BulkPaths.Proofs.VertexSteps

/-!
# Walks and their sums

A walk is the sequence of its vertices; between two of them there may be several edges, so one
sequence can have several sums. Sums start at zero and are taken from left to right, since addition
need not be associative.
-/

namespace BulkPaths

open PathWeight LawfulPathWeight

variable {W : Type} [PathWeight W]

namespace Job

/-- An edge with an accepted weight. -/
def Hop (job : Job W) (g : PropertyGraph) (u v : VertexId) (w : W) : Prop :=
  ∃ edges, g.edges? u = some edges ∧ ∃ edge ∈ edges, edge.target = v ∧ job.weigh edge = .ok w

/-- The smallest weight among parallel edges, all of which are accepted. -/
structure LeastHop (job : Job W) (g : PropertyGraph) (u v : VertexId) (w : W) : Prop where
  hop : job.Hop g u v w
  least : ∀ edges, g.edges? u = some edges → ∀ edge ∈ edges, edge.target = v →
    ∃ w', job.weigh edge = .ok w' ∧ AtMost w w'

variable {job : Job W} {g : PropertyGraph} {u v : VertexId} {w : W}

theorem Hop.positive (h : job.Hop g u v w) : less zero w := by
  obtain ⟨_, _, _, _, _, hweigh⟩ := h
  exact (job.positive hweigh).1

theorem Hop.tail_mem_ids (h : job.Hop g u v w) : u ∈ g.ids := by
  obtain ⟨_, hedges, _⟩ := h
  exact Assoc.mem_keys_of_get? hedges

/-- Among accepted parallel edges there is one of smallest weight. -/
theorem exists_leastHop [LawfulPathWeight W] {edges : List Edge} (hedges : g.edges? u = some edges)
    (hall : ∀ edge ∈ edges, edge.target = v → ∃ w, job.weigh edge = .ok w)
    (hsome : ∃ edge ∈ edges, edge.target = v) : ∃ w, job.LeastHop g u v w := by
  let weights := edges.filterMap fun edge =>
    if edge.target = v then (job.weigh edge).toOption else none
  have hmem : ∀ w, w ∈ weights ↔ ∃ edge ∈ edges, edge.target = v ∧ job.weigh edge = .ok w := by
    intro w
    rw [List.mem_filterMap]
    refine exists_congr fun edge => and_congr_right fun _ => ?_
    by_cases htarget : edge.target = v
    · cases hweigh : job.weigh edge <;> simp [htarget, Except.toOption]
    · simp [htarget]
  have hproper : ∀ w ∈ weights, Proper w := by
    intro w hw
    obtain ⟨_, _, _, hweigh⟩ := (hmem w).mp hw
    exact proper_of_less (job.positive hweigh).1
  have hne : weights ≠ [] := by
    obtain ⟨edge, hedge, htarget⟩ := hsome
    obtain ⟨w, hw⟩ := hall edge hedge htarget
    exact List.ne_nil_of_mem ((hmem w).mpr ⟨edge, hedge, htarget, hw⟩)
  obtain ⟨w, hw, hleast⟩ := exists_atMost_all hproper hne
  refine ⟨w, ⟨edges, hedges, (hmem w).mp hw⟩, ?_⟩
  intro edges' hedges' edge hedge htarget
  obtain rfl := Option.some.inj (hedges.symm.trans hedges')
  obtain ⟨w', hw'⟩ := hall edge hedge htarget
  exact ⟨w', hw', hleast w' ((hmem w').mpr ⟨edge, hedge, htarget, hw'⟩)⟩

end Job

/-- A walk over the hops, from the source to a vertex, and one of its sums. -/
inductive Walk (hop : VertexId → VertexId → W → Prop) (source : VertexId) :
    List VertexId → VertexId → W → Prop
  | here : Walk hop source [source] source zero
  | step {path : List VertexId} {u v : VertexId} {x w : W} (before : Walk hop source path u x)
      (last : hop u v w) : Walk hop source (path ++ [v]) v (add x w)

namespace Walk

variable {hop hop' : VertexId → VertexId → W → Prop} {source v : VertexId} {path : List VertexId}
  {x : W}

theorem mono (h : Walk hop source path v x) (himp : ∀ {u v w}, hop u v w → hop' u v w) :
    Walk hop' source path v x := by
  induction h with
  | here => exact .here
  | step _ last ih => exact ih.step (himp last)

theorem head? (h : Walk hop source path v x) : path.head? = some source := by
  induction h with
  | here => rfl
  | step _ _ ih => rw [List.head?_append, ih, Option.some_or]

theorem getLast? (h : Walk hop source path v x) : path.getLast? = some v := by
  cases h with
  | here => rfl
  | step => exact List.getLast?_concat

theorem length_pos (h : Walk hop source path v x) : 0 < path.length := by
  cases h with
  | here => exact Nat.one_pos
  | step => simp

variable {job : Job W} {g : PropertyGraph}

theorem proper [LawfulPathWeight W] (h : Walk (job.Hop g) source path v x) : Proper x := by
  induction h with
  | here => exact proper_zero
  | step _ last ih => exact proper_add ih last.positive

end Walk

/-- Of two sums of walks with fewer edges than there are vertices the smaller one stays so along an
edge, unless the sums overflow. -/
def Job.Exact (job : Job W) (g : PropertyGraph) : Prop :=
  ∀ {u v : VertexId} {p q : List VertexId} {x y w : W},
    Walk (job.Hop g) job.source p u x → Walk (job.Hop g) job.source q u y →
      p.length ≤ g.vertexCount → q.length ≤ g.vertexCount → job.Hop g u v w →
        less x y → isFinite (add y w) → less (add x w) (add y w)

end BulkPaths
