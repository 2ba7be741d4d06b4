import BulkPaths.VertexId
import Mathlib.Order.Basic

/-!
# The order of identifiers

Identifiers are totally ordered, by category and then by value, and identifiers that compare equal
are the same. Paths inherit this lexicographically, so that no two paths share a rank.
-/

namespace BulkPaths

/-- Of two elements one comes no later than the other. -/
theorem isLE_total {α : Type} (cmp : α → α → Ordering) [Std.OrientedCmp cmp] (a b : α) :
    (cmp a b).isLE ∨ (cmp b a).isLE := by
  cases h : cmp a b with
  | lt => exact .inl rfl
  | eq => exact .inl rfl
  | gt =>
      rw [Std.OrientedCmp.lt_of_gt h]
      exact .inr rfl

namespace Uuid

theorem compareLex_eq (as bs : List (Fin 16)) :
    cmp.compareLex as bs = List.compareLex (compareOn Fin.val) as bs := by
  induction as generalizing bs with
  | nil => cases bs <;> rfl
  | cons a as ih =>
      cases bs with
      | nil => rfl
      | cons b bs =>
          rw [cmp.compareLex, List.compareLex_cons_cons, ih bs]
          rfl

instance : Std.LawfulEqCmp (compareOn (Fin.val : Fin 16 → Nat)) where
  compare_self := by simp [compareOn]
  eq_of_compare h := Fin.ext (@Std.LawfulEqCmp.eq_of_compare _ compare _ _ _ h)

instance : Std.TransCmp cmp where
  eq_swap := by
    intro u v
    simp only [cmp, compareLex_eq]
    exact Std.OrientedCmp.eq_swap
  isLE_trans := by
    intro u v w huv hvw
    simp only [cmp, compareLex_eq] at *
    exact Std.TransCmp.isLE_trans huv hvw

instance : Std.LawfulEqCmp cmp where
  compare_self := Std.ReflCmp.compare_self
  eq_of_compare := by
    intro u v h
    simp only [cmp, compareLex_eq] at h
    obtain ⟨digits, _⟩ := u
    obtain ⟨digits', _⟩ := v
    cases Std.LawfulEqCmp.eq_of_compare h
    rfl

end Uuid

namespace VertexId

instance : Std.TransCmp cmp where
  eq_swap := by
    intro a b
    cases a <;> cases b
    case long.long m n => exact @Std.OrientedCmp.eq_swap _ compare _ m n
    case utf8.utf8 s t => exact @Std.OrientedCmp.eq_swap _ compare _ s t
    case uuid.uuid u v => exact @Std.OrientedCmp.eq_swap _ Uuid.cmp _ u v
    all_goals rfl
  isLE_trans := by
    intro a b c hab hbc
    cases a <;> cases b <;> cases c
    case long.long.long l m n => exact @Std.TransCmp.isLE_trans _ compare _ l m n hab hbc
    case utf8.utf8.utf8 r s t => exact @Std.TransCmp.isLE_trans _ compare _ r s t hab hbc
    case uuid.uuid.uuid u v w => exact @Std.TransCmp.isLE_trans _ Uuid.cmp _ u v w hab hbc
    -- between different categories the comparison is one of two numerals
    all_goals
      first
      | rfl
      | exact absurd hab Bool.false_ne_true
      | exact absurd hbc Bool.false_ne_true

instance : Std.LawfulEqCmp cmp where
  compare_self := Std.ReflCmp.compare_self
  eq_of_compare := by
    intro a b h
    cases a <;> cases b
    case long.long m n => exact congrArg long (@Std.LawfulEqCmp.eq_of_compare _ compare _ m n h)
    case utf8.utf8 s t => exact congrArg utf8 (@Std.LawfulEqCmp.eq_of_compare _ compare _ s t h)
    case uuid.uuid u v => exact congrArg uuid (@Std.LawfulEqCmp.eq_of_compare _ Uuid.cmp _ u v h)
    all_goals cases h

theorem cmpPath_eq (p q : List VertexId) : cmpPath p q = List.compareLex cmp p q := by
  induction p generalizing q with
  | nil => cases q <;> rfl
  | cons a p ih =>
      cases q with
      | nil => rfl
      | cons b q => rw [cmpPath, List.compareLex_cons_cons, ih q]

theorem cmpPath_self (p : List VertexId) : cmpPath p p = .eq := by
  rw [cmpPath_eq]
  exact Std.ReflCmp.compare_self

theorem eq_of_cmpPath {p q : List VertexId} (h : cmpPath p q = .eq) : p = q := by
  rw [cmpPath_eq] at h
  exact Std.LawfulEqCmp.eq_of_compare h

instance : Std.TransCmp cmpPath where
  eq_swap := by
    intro p q
    simp only [cmpPath_eq]
    exact Std.OrientedCmp.eq_swap
  isLE_trans := by
    intro p q r hpq hqr
    simp only [cmpPath_eq] at *
    exact Std.TransCmp.isLE_trans hpq hqr

/-- A common last vertex does not change how paths of one length compare. -/
theorem cmpPath_append_singleton {p q : List VertexId} (hlength : p.length = q.length)
    (v : VertexId) : cmpPath (p ++ [v]) (q ++ [v]) = cmpPath p q := by
  induction p generalizing q with
  | nil =>
      cases q with
      | nil => exact cmpPath_self [v]
      | cons b q => cases hlength
  | cons a p ih =>
      cases q with
      | nil => cases hlength
      | cons b q =>
          have hrest : p.length = q.length := Nat.succ.inj hlength
          simp only [List.cons_append, cmpPath, ih hrest]

/-- Shorter paths first, paths of one length by their identifiers. -/
def cmpRoute : List VertexId → List VertexId → Ordering :=
  compareLex (compareOn List.length) cmpPath

instance : Std.TransCmp cmpRoute :=
  inferInstanceAs (Std.TransCmp (compareLex _ _))

instance : Std.LawfulEqCmp cmpRoute where
  compare_self := Std.ReflCmp.compare_self
  eq_of_compare h := eq_of_cmpPath (compareLex_eq_eq.mp h).2

theorem cmpRoute_of_length_eq {p q : List VertexId} (hlength : p.length = q.length) :
    cmpRoute p q = cmpPath p q := by
  simp [cmpRoute, compareLex, compareOn, hlength]

end VertexId

end BulkPaths
