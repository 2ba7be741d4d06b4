import BulkPaths.Proofs.IdOrder
import BulkPaths.Proofs.Turns
import Mathlib.Data.List.Sort

/-!
# Reached targets

Only targets enter a replica, and only those that were called with a message. So a merge has no
stray to complain about, and the merged set grows by the targets that were called. A replica lies
between the last merged set and the next one.
-/

namespace BulkPaths

theorem mem_insertSorted {α : Type} {cmp : α → α → Ordering} [Std.LawfulEqCmp cmp] {a x : α}
    {l : List α} : x ∈ insertSorted cmp a l ↔ x = a ∨ x ∈ l := by
  induction l with
  | nil => exact List.mem_cons
  | cons b rest ih =>
      unfold insertSorted
      split
      case h_1 => exact List.mem_cons
      case h_2 heq =>
        rw [Std.LawfulEqCmp.eq_of_compare heq]
        simp
      case h_3 =>
        rw [List.mem_cons, ih, List.mem_cons]
        exact or_left_comm

theorem pairwise_insertSorted {α : Type} {cmp : α → α → Ordering} [Std.TransCmp cmp]
    [Std.LawfulEqCmp cmp] {a : α} {l : List α} (h : l.Pairwise fun x y => cmp x y = .lt) :
    (insertSorted cmp a l).Pairwise fun x y => cmp x y = .lt := by
  induction l with
  | nil => exact List.pairwise_singleton _ a
  | cons b rest ih =>
      obtain ⟨hb, hrest⟩ := List.pairwise_cons.mp h
      unfold insertSorted
      split
      case h_1 hlt =>
        refine List.pairwise_cons.mpr ⟨?_, h⟩
        intro x hx
        rcases List.mem_cons.mp hx with rfl | hx
        · exact hlt
        · exact Std.TransCmp.lt_trans hlt (hb x hx)
      case h_2 => exact h
      case h_3 hgt =>
        refine List.pairwise_cons.mpr ⟨?_, ih hrest⟩
        intro x hx
        rcases mem_insertSorted.mp hx with rfl | hx
        · exact Std.OrientedCmp.lt_of_gt hgt
        · exact hb x hx

namespace IdSet

/-- Members in increasing order, each once. -/
def Increasing (ids : IdSet) : Prop := ids.Pairwise fun a b => VertexId.cmp a b = .lt

instance : Std.Irrefl fun a b : VertexId => VertexId.cmp a b = .lt where
  irrefl a h := by
    rw [@Std.ReflCmp.compare_self _ VertexId.cmp _ a] at h
    cases h

instance : Std.Antisymm fun a b : VertexId => VertexId.cmp a b = .lt where
  antisymm a b hab hba := by
    rw [Std.OrientedCmp.gt_of_lt hba] at hab
    cases hab

namespace Increasing

variable {ids other : IdSet}

theorem nil : Increasing [] := List.Pairwise.nil

/-- Equal sets are equal lists. -/
theorem ext (h : ids.Increasing) (h' : other.Increasing) (hmem : ∀ x, x ∈ ids ↔ x ∈ other) :
    ids = other :=
  List.Pairwise.eq_of_mem_iff h h' hmem

theorem insert (h : ids.Increasing) (id : VertexId) : (IdSet.insert id ids).Increasing :=
  pairwise_insertSorted h

theorem union (h : ids.Increasing) (more : IdSet) : (IdSet.union ids more).Increasing := by
  unfold IdSet.union
  induction more generalizing ids with
  | nil => exact h
  | cons id more ih => exact ih (h.insert id)

theorem foldl_union (h : ids.Increasing) (lots : List IdSet) :
    (lots.foldl IdSet.union ids).Increasing := by
  induction lots generalizing ids with
  | nil => exact h
  | cons lot lots ih => exact ih (h.union lot)

end Increasing

theorem mem_insert {id x : VertexId} {ids : IdSet} : x ∈ insert id ids ↔ x = id ∨ x ∈ ids :=
  mem_insertSorted

theorem mem_union {ids more : IdSet} {x : VertexId} : x ∈ union ids more ↔ x ∈ ids ∨ x ∈ more := by
  unfold union
  induction more generalizing ids with
  | nil => simp
  | cons id more ih =>
      rw [List.foldl_cons, ih, mem_insert, List.mem_cons]
      tauto

theorem mem_ofList {found : List VertexId} {x : VertexId} : x ∈ ofList found ↔ x ∈ found := by
  rw [ofList, mem_union, or_iff_right List.not_mem_nil]

theorem increasing_ofList (found : List VertexId) : (ofList found).Increasing :=
  Increasing.nil.union found

theorem mem_foldl_union {ids : IdSet} {lots : List IdSet} {x : VertexId} :
    x ∈ lots.foldl union ids ↔ x ∈ ids ∨ ∃ lot ∈ lots, x ∈ lot := by
  induction lots generalizing ids with
  | nil => simp
  | cons lot lots ih =>
      rw [List.foldl_cons, ih, mem_union]
      simp [or_assoc]

end IdSet

namespace Targets

theorem contains_iff {targets : Targets} {id : VertexId} : targets.contains id ↔ id ∈ targets.ids :=
  List.contains_iff_mem

/-- Every submission of a batch names targets only. -/
def Admits (targets : Targets) (batch : List (List VertexId)) : Prop :=
  ∀ ids ∈ batch, ids ⊆ targets.ids

instance (targets : Targets) : DecidablePred targets.Admits := fun batch =>
  inferInstanceAs (Decidable (∀ ids ∈ batch, ids ⊆ targets.ids))

theorem mem_enroll {targets : Targets} {id x : VertexId} {replica : IdSet} :
    x ∈ targets.enroll id replica ↔ x ∈ replica ∨ x = id ∧ x ∈ targets.ids := by
  unfold enroll
  split
  case isTrue h =>
    have hid := contains_iff.mp h
    rw [IdSet.mem_insert]
    constructor
    · rintro (rfl | hold)
      · exact .inr ⟨rfl, hid⟩
      · exact .inl hold
    · rintro (hold | ⟨rfl, _⟩)
      · exact .inr hold
      · exact .inl rfl
  case isFalse h =>
    refine ⟨.inl, ?_⟩
    rintro (hold | ⟨rfl, hid⟩)
    · exact hold
    · exact absurd (contains_iff.mpr hid) h

end Targets

variable {W : Type} [PathWeight W]

def Turn.Called (turns : List (Turn W)) (v : VertexId) : Prop :=
  ∃ turn ∈ turns, turn.vertex = v ∧ turn.message.isSome

namespace Job

theorem mem_enrolled {job : Job W} {turn : Turn W} {replica : IdSet} {x : VertexId} :
    x ∈ job.enrolled turn.call replica ↔
      x ∈ replica ∨ x ∈ job.targets.ids ∧ turn.vertex = x ∧ turn.message.isSome := by
  obtain ⟨vertex, message, before, result⟩ := turn
  cases message with
  | none => simp [enrolled, Turn.call]
  | some m =>
      simp only [enrolled, Turn.call, Targets.mem_enroll, Option.isSome_some, and_true]
      rw [and_comm, eq_comm]

theorem mem_replicaAfter {job : Job W} {replica : IdSet} {turns : List (Turn W)} {x : VertexId} :
    x ∈ job.replicaAfter replica turns ↔
      x ∈ replica ∨ x ∈ job.targets.ids ∧ Turn.Called turns x := by
  unfold replicaAfter Turn.Called
  induction turns generalizing replica with
  | nil => simp
  | cons turn turns ih =>
      rw [List.foldl_cons, ih, mem_enrolled, List.exists_mem_cons_iff]
      tauto

/-- A replica while its worker computes: the merged set and some of the targets that are called. -/
structure Replica (job : Job W) (merged : IdSet) (turns : List (Turn W)) (replica : IdSet) :
    Prop where
  old : ∀ x ∈ merged, x ∈ replica
  new : ∀ x ∈ replica, x ∈ merged ∨ x ∈ job.targets.ids ∧ Turn.Called turns x
  increasing : merged.Increasing → replica.Increasing

namespace Replica

variable {job : Job W} {merged replica : IdSet} {turns more : List (Turn W)} {turn : Turn W}

theorem start (job : Job W) (merged : IdSet) (turns : List (Turn W)) :
    job.Replica merged turns merged :=
  ⟨fun _ => id, fun _ => .inl, id⟩

theorem mono (h : job.Replica merged turns replica) (hsub : turns ⊆ more) :
    job.Replica merged more replica := by
  refine ⟨h.old, fun x hx => (h.new x hx).imp_right ?_, h.increasing⟩
  rintro ⟨htarget, turn, hturn, hcalled⟩
  exact ⟨htarget, turn, hsub hturn, hcalled⟩

theorem enrolled (h : job.Replica merged turns replica) (hturn : turn ∈ turns) :
    job.Replica merged turns (job.enrolled turn.call replica) := by
  refine ⟨fun x hx => mem_enrolled.mpr (.inl (h.old x hx)), ?_, fun hmerged => ?_⟩
  · intro x hx
    rcases mem_enrolled.mp hx with hold | ⟨htarget, hcalled⟩
    · exact h.new x hold
    · exact .inr ⟨htarget, turn, hturn, hcalled⟩
  · have hreplica := h.increasing hmerged
    unfold Job.enrolled Targets.enroll
    split
    · exact hreplica
    · split
      · exact hreplica.insert _
      · exact hreplica

/-- Chained turns start from replicas of this kind, if the first one does. -/
theorem of_chained {rest : List (Turn W)} (h : job.Replica merged turns replica)
    (hchained : job.Chained replica rest) (hsub : rest ⊆ turns) :
    ∀ turn ∈ rest, job.Replica merged turns turn.replica := by
  induction rest generalizing replica with
  | nil => simp
  | cons first rest ih =>
      obtain ⟨rfl, hrest⟩ := hchained
      obtain ⟨hfirst, hsub⟩ := List.cons_subset.mp hsub
      exact List.forall_mem_cons.mpr ⟨h, ih (h.enrolled hfirst) hrest hsub⟩

end Replica

end Job

namespace Aggregator

variable {a : Aggregator} {id : VertexId}

theorem mem_candidate : id ∈ a.candidate ↔ id ∈ a.merged ∨ ∃ ids ∈ a.pending, id ∈ ids :=
  IdSet.mem_foldl_union

theorem mem_stray :
    id ∈ a.stray ↔ (id ∈ a.merged ∨ ∃ ids ∈ a.pending, id ∈ ids) ∧ id ∉ a.targets.ids := by
  simp [stray, IdSet.diff, mem_candidate]

theorem stray_eq_nil_iff (h : a.merged ⊆ a.targets.ids) :
    a.stray = [] ↔ a.targets.Admits a.pending := by
  rw [List.eq_nil_iff_forall_not_mem]
  simp only [mem_stray, not_and_not_right]
  constructor
  · intro hnone ids hids id hid
    exact hnone id (.inr ⟨ids, hids, hid⟩)
  · rintro hadmits id (hmerged | ⟨ids, hids, hid⟩)
    · exact h hmerged
    · exact hadmits ids hids hid

theorem settle_of_clean (h : a.stray = []) :
    a.settle = { a with merged := a.candidate, pending := [] } := by
  rw [settle, h]
  rfl

theorem settle_of_stray (h : a.stray ≠ []) : a.settle = { a with pending := [] } := by
  rw [settle, if_neg (mt List.isEmpty_iff.mp h)]

theorem merge_of_clean (h : a.stray = []) : a.merge = (a.settle, .ok a.candidate) := by
  rw [merge, h]
  rfl

theorem merge_of_stray (h : a.stray ≠ []) : a.merge = (a.settle, .error a.strayFault) := by
  rw [merge, if_neg (mt List.isEmpty_iff.mp h)]

theorem converged_iff : a.converged ↔ a.targets ≠ .all ∧ a.targets.ids ⊆ a.merged := by
  obtain ⟨targets, merged, pending⟩ := a
  cases targets <;> simp [converged, IdSet.subset, List.subset_def]

/-- Between two supersteps: nothing is pending and only targets have been reached. -/
structure Clean (targets : Targets) (a : Aggregator) : Prop where
  same : a.targets = targets
  pending : a.pending = []
  merged : ∀ id ∈ a.merged, id ∈ targets.ids
  increasing : a.merged.Increasing

theorem clean_start (targets : Targets) : (start targets).Clean targets :=
  ⟨rfl, rfl, by simp [start], .nil⟩

theorem foldl_submit (a : Aggregator) (lots : List IdSet) :
    lots.foldl submit a = { a with pending := a.pending ++ lots } := by
  induction lots generalizing a with
  | nil => simp
  | cons lot lots ih =>
      rw [List.foldl_cons, ih]
      simp [submit]

/-- Merging what holds targets only succeeds, and unites it with what was merged before. -/
theorem Clean.merge {targets : Targets} {a : Aggregator} (h : a.Clean targets) {lots : List IdSet}
    (hlots : ∀ lot ∈ lots, ∀ id ∈ lot, id ∈ targets.ids) :
    ∃ merged, (lots.foldl submit a).merge = ({ a with merged }, .ok merged) ∧
      merged.Increasing ∧ ∀ id, id ∈ merged ↔ id ∈ a.merged ∨ ∃ lot ∈ lots, id ∈ lot := by
  obtain ⟨rfl, hpending, hmerged, hincreasing⟩ := h
  have hclean : ({ a with pending := lots } : Aggregator).stray = [] :=
    (stray_eq_nil_iff (a := { a with pending := lots }) hmerged).mpr hlots
  rw [foldl_submit, hpending, List.nil_append, merge_of_clean hclean, settle_of_clean hclean,
    ← hpending]
  exact ⟨_, rfl, hincreasing.foldl_union lots, fun id => mem_candidate⟩

theorem Clean.merged_clean {targets : Targets} {a : Aggregator} (h : a.Clean targets)
    {merged : IdSet} (hmerged : ∀ id ∈ merged, id ∈ targets.ids)
    (hincreasing : merged.Increasing) : Clean targets { a with merged } :=
  ⟨h.same, h.pending, hmerged, hincreasing⟩

end Aggregator

end BulkPaths
