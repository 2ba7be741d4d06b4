import BulkPaths.Proofs.DeadEnds
import BulkPaths.Proofs.TargetsReached
import BulkPaths.Summary

/-!
# The paths of a result form a tree

A vertex copies the path of its neighbour when it hears of it, and the neighbour may change its own
path later. Where sums are exact no stale copy is left in the end: a neighbour that got better has
passed that on, and the copy would have been given up for it. So a path begins with the final path
of the vertex before its last, and by induction every beginning of a path is a path of the result.
The edges on the paths are then a tree.
-/

namespace BulkPaths

open PathWeight LawfulPathWeight

section InsertSorted

variable {α : Type} {cmp : α → α → Ordering} [Std.LawfulEqCmp cmp]

theorem mem_foldl_insertSorted {x : α} (items l : List α) :
    x ∈ items.foldl (fun l a => insertSorted cmp a l) l ↔ x ∈ items ∨ x ∈ l := by
  induction items generalizing l with
  | nil => simp
  | cons a items ih =>
      rw [List.foldl_cons, ih, mem_insertSorted, List.mem_cons]
      tauto

theorem pairwise_foldl_insertSorted [Std.TransCmp cmp] (items : List α) {l : List α}
    (h : l.Pairwise fun x y => cmp x y = .lt) :
    (items.foldl (fun l a => insertSorted cmp a l) l).Pairwise fun x y => cmp x y = .lt := by
  induction items generalizing l with
  | nil => exact h
  | cons a items ih => exact ih (pairwise_insertSorted h)

end InsertSorted

namespace VertexId

instance : Std.TransCmp cmpPair :=
  inferInstanceAs
    (Std.TransCmp (compareLex (Ordering.byKey Prod.fst cmp) (Ordering.byKey Prod.snd cmp)))

instance : Std.LawfulEqCmp cmpPair where
  compare_self := Std.ReflCmp.compare_self
  eq_of_compare h :=
    have ⟨htail, hhead⟩ := Ordering.then_eq_eq.mp h
    Prod.ext (Std.LawfulEqCmp.eq_of_compare htail) (Std.LawfulEqCmp.eq_of_compare hhead)

end VertexId

/-- Two vertices that follow on each other in a path end one of its beginnings. -/
theorem mem_hops {u v : VertexId} {path : List VertexId} :
    (u, v) ∈ hops path ↔ ∃ q, q ++ [u, v] <+: path := by
  induction path with
  | nil => simp [hops]
  | cons a rest ih =>
      cases rest with
      | nil => simp [hops, List.prefix_cons_iff, List.append_eq_cons_iff]
      | cons b rest =>
          have hstep : (u, v) ∈ hops (a :: b :: rest) ↔
              (u = a ∧ v = b) ∨ (u, v) ∈ hops (b :: rest) := by
            simp [hops]
          rw [hstep, ih]
          constructor
          · rintro (⟨rfl, rfl⟩ | ⟨q, hq⟩)
            · exact ⟨[], by simp⟩
            · exact ⟨a :: q, by simpa using hq⟩
          · rintro ⟨q, hq⟩
            cases q with
            | nil =>
                simp only [List.nil_append, List.cons_prefix_cons] at hq
                exact .inl ⟨hq.1, hq.2.1⟩
            | cons c q =>
                rw [List.cons_append, List.cons_prefix_cons] at hq
                exact .inr ⟨q, hq.2⟩

def PropertyGraph.Joins (g : PropertyGraph) (u v : VertexId) : Prop :=
  ∃ edges, g.edges? u = some edges ∧ ∃ edge ∈ edges, edge.target = v

/-- The list of edges followed back from a vertex, up to a vertex into which none of them leads. -/
inductive Ascent (edges : List (VertexId × VertexId)) : VertexId → List VertexId → Prop
  | root {v : VertexId} (last : ∀ u, (u, v) ∉ edges) : Ascent edges v [v]
  | step {u v : VertexId} {path : List VertexId} (edge : (u, v) ∈ edges)
      (before : Ascent edges u path) : Ascent edges v (path ++ [v])

variable {W : Type}

namespace Result

def Reaches (result : Result W) (v : VertexId) (path : List VertexId) : Prop :=
  ∃ value, (v, value) ∈ result.values ∧ value.reachable ∧ value.path = path

/-- Each path is that of the vertex before its last, and one edge more. -/
structure Threaded (g : PropertyGraph) (result : Result W) : Prop where
  first : ∀ {v p}, result.Reaches v p → p.head? = some result.source
  last : ∀ {v p}, result.Reaches v p → ∃ q, p = q ++ [v]
  simple : ∀ {v p}, result.Reaches v p → p.Nodup
  unique : ∀ {v p q}, result.Reaches v p → result.Reaches v q → p = q
  thread : ∀ {v p}, result.Reaches v (p ++ [v]) → p ≠ [] → ∃ u, result.Reaches u p ∧ g.Joins u v

/-- The paths of the reachable vertices are those of a tree of edges, which the result lists. -/
structure PathTree (g : PropertyGraph) (result : Result W) : Prop where
  substructure : ∀ {v u p q}, result.Reaches v p → q ++ [u] <+: p → result.Reaches u (q ++ [u])
  increasing : result.tree.Pairwise fun a b => VertexId.cmpPair a b = .lt
  edge : ∀ {u v}, (u, v) ∈ result.tree →
    g.Joins u v ∧ (∃ p, result.Reaches u p) ∧ (∃ p, result.Reaches v p) ∧ v ≠ result.source
  parent : ∀ {v p}, result.Reaches v p → v ≠ result.source → ∃! u, (u, v) ∈ result.tree
  rebuilt : ∀ {v p}, result.Reaches v p → ∀ q, Ascent result.tree v q ↔ q = p

theorem mem_tree {result : Result W} {u v : VertexId} :
    (u, v) ∈ result.tree ↔ ∃ x p, result.Reaches x p ∧ (u, v) ∈ hops p := by
  unfold tree
  rw [← List.foldl_flatMap, mem_foldl_insertSorted, or_iff_left List.not_mem_nil, List.mem_flatMap]
  constructor
  · rintro ⟨entry, hentry, hhop⟩
    obtain ⟨hmem, hreachable⟩ := List.mem_filter.mp hentry
    exact ⟨entry.1, entry.2.path, ⟨entry.2, hmem, hreachable, rfl⟩, hhop⟩
  · rintro ⟨x, p, ⟨value, hmem, hreachable, rfl⟩, hhop⟩
    exact ⟨(x, value), List.mem_filter.mpr ⟨hmem, hreachable⟩, hhop⟩

theorem increasing_tree (result : Result W) :
    result.tree.Pairwise fun a b => VertexId.cmpPair a b = .lt := by
  unfold tree
  rw [← List.foldl_flatMap]
  exact pairwise_foldl_insertSorted _ .nil

namespace Threaded

variable {g : PropertyGraph} {result : Result W} {u v : VertexId} {p q : List VertexId}

/-- Of the result only the source and the values matter, and of the graph what is joined. -/
theorem transfer (h : result.Threaded g) {result' : Result W} {g' : PropertyGraph}
    (hsource : result'.source = result.source) (hvalues : result'.values = result.values)
    (hjoins : ∀ {u v}, g.Joins u v → g'.Joins u v) : result'.Threaded g' := by
  have hreaches : ∀ {v p}, result'.Reaches v p ↔ result.Reaches v p := by
    intro v p
    rw [Reaches, Reaches, hvalues]
  refine ⟨?_, ?_, ?_, ?_, ?_⟩
  · intro v p hv
    rw [hsource]
    exact h.first (hreaches.mp hv)
  · exact fun hv => h.last (hreaches.mp hv)
  · exact fun hv => h.simple (hreaches.mp hv)
  · exact fun hv hv' => h.unique (hreaches.mp hv) (hreaches.mp hv')
  · intro v p hv hp
    obtain ⟨u, hu, hjoin⟩ := h.thread (hreaches.mp hv) hp
    exact ⟨u, hreaches.mpr hu, hjoins hjoin⟩

theorem reaches_of_prefix (h : result.Threaded g) (hv : result.Reaches v p)
    (hq : q ++ [u] <+: p) : result.Reaches u (q ++ [u]) := by
  induction p using List.reverseRecOn generalizing v with
  | nil => simp at hq
  | append_singleton r x ih =>
      obtain ⟨_, hlast⟩ := h.last hv
      obtain rfl : x = v := by simpa using congrArg List.getLast? hlast
      rcases List.prefix_concat_iff.mp hq with hwhole | hearlier
      · obtain rfl : u = x := by simpa using congrArg List.getLast? hwhole
        rwa [hwhole]
      · have hr : r ≠ [] := by
          rintro rfl
          simp at hearlier
        obtain ⟨w, hw, _⟩ := h.thread hv hr
        exact ih hw hearlier

/-- An edge of the tree is the last one of a path. -/
theorem mem_tree_iff (h : result.Threaded g) :
    (u, v) ∈ result.tree ↔ ∃ p, result.Reaches u p ∧ result.Reaches v (p ++ [v]) := by
  rw [mem_tree]
  constructor
  · rintro ⟨x, p, hx, hhop⟩
    obtain ⟨q, hq⟩ := mem_hops.mp hhop
    have hq : (q ++ [u]) ++ [v] <+: p := by simpa using hq
    have hv := h.reaches_of_prefix hx hq
    exact ⟨q ++ [u], h.reaches_of_prefix hv (List.prefix_append _ _), hv⟩
  · rintro ⟨p, hu, hv⟩
    obtain ⟨q, rfl⟩ := h.last hu
    exact ⟨v, _, hv, mem_hops.mpr ⟨q, by simp⟩⟩

theorem ne_source_of_mem_tree (h : result.Threaded g) (hedge : (u, v) ∈ result.tree) :
    v ≠ result.source := by
  obtain ⟨p, hu, hv⟩ := h.mem_tree_iff.mp hedge
  rintro rfl
  obtain ⟨_, _, hapart⟩ := List.nodup_append.mp (h.simple hv)
  exact hapart _ (List.mem_of_head? (h.first hu)) _ (List.mem_singleton_self _) rfl

/-- A path without a vertex before its last is that of the source. -/
theorem eq_source (h : result.Threaded g) (hv : result.Reaches v [v]) : v = result.source :=
  Option.some.inj (h.first hv)

theorem exists_parent (h : result.Threaded g) (hv : result.Reaches v (p ++ [v])) (hp : p ≠ []) :
    ∃ u, result.Reaches u p ∧ (u, v) ∈ result.tree := by
  obtain ⟨u, hu, _⟩ := h.thread hv hp
  exact ⟨u, hu, h.mem_tree_iff.mpr ⟨p, hu, hv⟩⟩

theorem exists_unique_parent (h : result.Threaded g) (hv : result.Reaches v p)
    (hsource : v ≠ result.source) : ∃! u, (u, v) ∈ result.tree := by
  obtain ⟨q, rfl⟩ := h.last hv
  have hq : q ≠ [] := by
    rintro rfl
    exact hsource (h.eq_source hv)
  obtain ⟨u, hu, hedge⟩ := h.exists_parent hv hq
  refine ⟨u, hedge, fun u' hedge' => ?_⟩
  obtain ⟨q', hu', hv'⟩ := h.mem_tree_iff.mp hedge'
  obtain rfl : q' = q := List.append_cancel_right (h.unique hv' hv)
  obtain ⟨r, hr⟩ := h.last hu
  obtain ⟨r', hr'⟩ := h.last hu'
  simpa using congrArg List.getLast? (hr'.symm.trans hr)

theorem ascent (h : result.Threaded g) (hv : result.Reaches v p) : Ascent result.tree v p := by
  induction p using List.reverseRecOn generalizing v with
  | nil =>
      obtain ⟨q, hq⟩ := h.last hv
      simp at hq
  | append_singleton r x ih =>
      obtain ⟨_, hlast⟩ := h.last hv
      obtain rfl : x = v := by simpa using congrArg List.getLast? hlast
      rcases eq_or_ne r [] with rfl | hr
      · refine .root fun u hedge => ?_
        exact h.ne_source_of_mem_tree hedge (h.eq_source hv)
      · obtain ⟨u, hu, hedge⟩ := h.exists_parent hv hr
        exact .step hedge (ih hu)

theorem eq_of_ascent (h : result.Threaded g) (hascent : Ascent result.tree v q)
    (hv : result.Reaches v p) : q = p := by
  induction hascent generalizing p with
  | @root v hroot =>
      obtain ⟨r, rfl⟩ := h.last hv
      rcases eq_or_ne r [] with rfl | hr
      · rfl
      · obtain ⟨u, _, hedge⟩ := h.exists_parent hv hr
        exact absurd hedge (hroot u)
  | @step u v path edge _ ih =>
      obtain ⟨r, hu, hv'⟩ := h.mem_tree_iff.mp edge
      rw [ih hu, h.unique hv hv']

theorem pathTree (h : result.Threaded g) : result.PathTree g where
  substructure := h.reaches_of_prefix
  increasing := result.increasing_tree
  edge := by
    intro u v hedge
    obtain ⟨p, hu, hv⟩ := h.mem_tree_iff.mp hedge
    have hp : p ≠ [] := by
      rintro rfl
      cases h.first hu
    obtain ⟨u', hu', hjoins⟩ := h.thread hv hp
    obtain ⟨r, hr⟩ := h.last hu
    obtain ⟨r', hr'⟩ := h.last hu'
    obtain rfl : u = u' := by simpa using congrArg List.getLast? (hr.symm.trans hr')
    exact ⟨hjoins, ⟨p, hu⟩, ⟨_, hv⟩, h.ne_source_of_mem_tree hedge⟩
  parent := h.exists_unique_parent
  rebuilt hv _ := ⟨fun hascent => h.eq_of_ascent hascent hv, fun heq => heq ▸ h.ascent hv⟩

end Threaded

end Result

namespace Run

variable [PathWeight W] {g : PropertyGraph} {job : Job W} {limits : Limits} {k : Nat}
  {s : State W} {v : VertexId} {p : List VertexId}

theorem reaches_result_iff : (result g job s).Reaches v p ↔
    v ∈ g.ids ∧ (s.value v).reachable ∧ (s.value v).path = p := by
  constructor
  · rintro ⟨value, hmem, hvalue⟩
    obtain ⟨hv, rfl⟩ := mem_result_values.mp hmem
    exact ⟨hv, hvalue⟩
  · rintro ⟨hv, hvalue⟩
    exact ⟨s.value v, mem_result_values.mpr ⟨hv, rfl⟩, hvalue⟩

theorem joins_of_withoutExits {u v target : VertexId} (h : (g.withoutExits target).Joins u v) :
    g.Joins u v := by
  obtain ⟨edges, hedges, edge, hedge, htarget⟩ := h
  rw [g.edges?_withoutExits] at hedges
  obtain ⟨old, hold, rfl⟩ := Option.map_eq_some_iff.mp hedges
  split at hedge
  · cases hedge
  · exact ⟨old, hold, edge, hedge, htarget⟩

theorem exact_withoutExits (hexact : job.Exact g) (target : VertexId) :
    job.Exact (g.withoutExits target) := by
  have hhop : ∀ {u v w}, job.Hop (g.withoutExits target) u v w → job.Hop g u v w := by
    rintro u v w ⟨edges, hedges, edge, hedge, hweigh⟩
    rw [g.edges?_withoutExits] at hedges
    obtain ⟨old, hold, rfl⟩ := Option.map_eq_some_iff.mp hedges
    split at hedge
    · cases hedge
    · exact ⟨old, hold, edge, hedge, hweigh⟩
  have hcount : (g.withoutExits target).vertexCount = g.vertexCount := List.length_map _
  intro u v p q x y w hp hq hplength hqlength hhop' hless hfinite
  rw [hcount] at hplength hqlength
  exact hexact (hp.mono hhop) (hq.mono hhop) hplength hqlength (hhop hhop') hless hfinite

variable [LawfulPathWeight W]

namespace Boundary

theorem threaded (h : Boundary g job limits k s)
    (hthread : ∀ {v p}, (s.value v).reachable → (s.value v).path = p ++ [v] → p ≠ [] →
      ∃ u, (s.value u).reachable ∧ (s.value u).path = p ∧ g.Joins u v) :
    (result g job s).Threaded g := by
  have hgrounded : ∀ {v p}, (result g job s).Reaches v p →
      (s.value v).path = p ∧ Grounded g job k v (s.value v) := by
    intro v p hv
    obtain ⟨_, hreachable, hpath⟩ := reaches_result_iff.mp hv
    exact ⟨hpath, h.tracked.grounded hreachable⟩
  refine ⟨?_, ?_, ?_, ?_, ?_⟩
  · intro v p hv
    obtain ⟨rfl, hgrounded⟩ := hgrounded hv
    exact hgrounded.walk.head?
  · intro v p hv
    obtain ⟨rfl, hgrounded⟩ := hgrounded hv
    exact ⟨_, (List.dropLast_append_getLast? v hgrounded.walk.getLast?).symm⟩
  · intro v p hv
    obtain ⟨rfl, hgrounded⟩ := hgrounded hv
    exact hgrounded.simple
  · intro v p q hv hv'
    rw [← (hgrounded hv).1, ← (hgrounded hv').1]
  · intro v p hv hp
    obtain ⟨_, hreachable, hpath⟩ := reaches_result_iff.mp hv
    obtain ⟨u, hu, hupath, hjoins⟩ := hthread hreachable hpath hp
    exact ⟨u, reaches_result_iff.mpr ⟨(h.tracked.grounded hu).known, hu, hupath⟩, hjoins⟩

/-- When nothing is pending, the sender of the message that a vertex adopted last has kept the path
that it sent. -/
theorem path_of_sender (h : Boundary g job limits k s) (hall : job.targets = .all)
    (hempty : s.pending = 0) (hexact : job.Exact g) (hv : (s.value v).reachable)
    (hpath : (s.value v).path = p ++ [v]) (hp : p ≠ []) :
    ∃ u, (s.value u).reachable ∧ (s.value u).path = p ∧ g.Joins u v := by
  have hhops : (s.value v).hops = p.length - 1 + 1 := by
    have hpos := List.length_pos_of_ne_nil hp
    rw [PathValue.hops, hpath, List.length_append, List.length_singleton]
    omega
  obtain ⟨t, m, ht, hm, hadopted⟩ := h.exists_adopted hhops
  obtain ⟨u, w, hu, huhops, hhop, rfl⟩ := ht.tracked.mail v m hm
  have hlength := h.tracked.hops_le v
  obtain ⟨hkept, hbetter⟩ := h.adopted_at ht (by omega) u
  have hsent : (t.value u).path = p := by
    rw [hadopted] at hpath
    exact List.append_cancel_right hpath
  have hjoins : g.Joins u v := by
    obtain ⟨edges, hedges, edge, hedge, htarget, _⟩ := hhop.hop
    exact ⟨edges, hedges, edge, hedge, htarget⟩
  rcases Nat.lt_or_ge (p.length - 1) (s.value u).hops with hlater | hearlier
  case inr =>
    rw [hkept hearlier] at hu hsent
    exact ⟨u, hu, hsent, hjoins⟩
  case inl =>
    -- a sender that got better since has sent that as well, and it beats the value held
    have hless := hbetter hlater
    have hupath := (ht.tracked.grounded hu).hop_walk
    have hreachable : (s.value u).reachable := by
      rw [h.reachable_iff_finite]
      exact finite_of_less (h.sound.values u) (ht.sound.values u) hless
    have hlast := (h.tracked.grounded hreachable).hop_walk
    have hsettled := h.atMost_sum_of_empty hall hempty (h.tracked.grounded hv).known
      (hlast.step hhop.hop)
    have hweight : (s.value v).weight = add (t.value u).weight w := by
      rw [hadopted]
      rfl
    have hfinite : isFinite (add (t.value u).weight w) := by
      rw [← hweight]
      exact (h.tracked.grounded hv).finite
    have hcount := s.length_reachables_le g
    have hcount' := t.length_reachables_le g
    have hshort := h.tracked.hops_lt hreachable
    have hshort' := ht.tracked.hops_lt hu
    have hsize := (h.tracked.grounded hreachable).length
    have hsize' := (ht.tracked.grounded hu).length
    have hstrict := hexact hlast hupath (by omega) (by omega) hhop.hop hless hfinite
    rw [← hweight, hsettled.not_less] at hstrict
    cases hstrict

end Boundary

theorem threaded_of_all (hall : job.targets = .all) (hexact : job.Exact g) {result : Result W}
    (hresult : (ofJob g job limits).outcome = .ok result) : result.Threaded g := by
  obtain ⟨k, s, h, hempty, rfl⟩ := exists_boundary_of_all hall hresult
  exact h.threaded fun hv hpath hp => h.path_of_sender hall hempty hexact hv hpath hp

/-- A source that is asked about itself has the only path. -/
theorem threaded_of_source_alone (halone : job.targets = .single job.source) {result : Result W}
    (hresult : (ofJob g job limits).outcome = .ok result) : result.Threaded g := by
  obtain ⟨k, s, h, _, rfl⟩ := exists_boundary_of_result hresult
  obtain rfl := h.eq_zero_of_source_alone halone
  refine h.threaded fun {v p} hv hpath hp => ?_
  have hhops := h.tracked.hops_le v
  have hpos := List.length_pos_of_ne_nil hp
  rw [PathValue.hops, hpath, List.length_append, List.length_singleton] at hhops
  omega

theorem threaded_of_single {target : VertexId} (htarget : target ≠ job.source)
    (hlate : limits.stopEarly = false) (hexact : job.Exact g) {result : Result W}
    (hresult : (ofJob g (job.aimed (.single target)) limits).outcome = .ok result) :
    result.Threaded g := by
  have hrecord := (synced_withoutExits g htarget hlate).record_outcome
  rw [hresult] at hrecord
  cases hother : (ofJob (g.withoutExits target) (job.aimed .all) limits).outcome with
  | error fault => cases hrecord.trans (congrArg (Except.map Result.record) hother)
  | ok result' =>
      have hsame : result.record = result'.record :=
        Except.ok.inj (hrecord.trans (congrArg (Except.map Result.record) hother))
      have hvalues : result.values = result'.values := congrArg Prod.fst hsame
      obtain ⟨_, _, _, _, rfl⟩ := exists_boundary_of_result hresult
      obtain ⟨_, _, _, _, rfl⟩ := exists_boundary_of_result hother
      have hexact' : (job.aimed .all).Exact (g.withoutExits target) :=
        exact_withoutExits hexact target
      exact (threaded_of_all rfl hexact' hother).transfer rfl hvalues joins_of_withoutExits

/-- Without early stop, where sums are exact, the final paths of a run about all vertices or about
one target form a tree: every beginning of a path is the path of the vertex that it ends at. The
listed edges increase, join reachable vertices, and lead once into each of these but the source;
followed back from a vertex they make up its path. -/
theorem paths_form_tree
    (htargets : job.targets = .all ∨ ∃ target, job.targets = .single target)
    (hlate : limits.stopEarly = false) (hexact : job.Exact g) {result : Result W}
    (hresult : (ofJob g job limits).outcome = .ok result) : result.PathTree g := by
  suffices hthreaded : result.Threaded g from hthreaded.pathTree
  rcases htargets with hall | ⟨target, hsingle⟩
  · exact threaded_of_all hall hexact hresult
  · by_cases htarget : target = job.source
    · exact threaded_of_source_alone (htarget ▸ hsingle) hresult
    · have hjob : job = job.aimed (.single target) := by
        rw [← hsingle]
        rfl
      rw [hjob] at hresult
      exact threaded_of_single htarget hlate hexact hresult

theorem paths_form_tree_diamond : ∃ result result',
    (ofJob diamond diamondJob diamondLimits).outcome = .ok result ∧ result.PathTree diamond ∧
      (ofJob diamond (diamondJob.aimed (.single (.long 3))) diamondLimits).outcome = .ok result' ∧
      result'.PathTree diamond := by
  obtain ⟨result, hresult, _⟩ := diamond_run
  obtain ⟨result', hresult', _⟩ : ∃ result,
      (ofJob diamond (diamondJob.aimed (.single (.long 3))) diamondLimits).outcome = .ok result ∧
        result.supersteps = 3 := exists_result (by decide +kernel)
  have hexact : diamondJob.Exact diamond := counting_exact _ _ (by decide +kernel)
  have hexact' : (diamondJob.aimed (.single (.long 3))).Exact diamond := hexact
  exact ⟨result, result', hresult, paths_form_tree (.inl rfl) rfl hexact hresult, hresult',
    paths_form_tree (.inr ⟨_, rfl⟩) rfl hexact' hresult'⟩

end Run

end BulkPaths
