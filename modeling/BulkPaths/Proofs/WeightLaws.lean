import BulkPaths.Weight
import Mathlib.Order.Basic

/-!
# Laws of path weights

What runs rely on. Sums start at zero and grow by positive weights, so the laws speak of zero and of
what lies above it; a NaN is neither. Addition may round: it is monotone and never falls below its
first argument, and nothing else is asked of it. A single step relies on less: what it adds to is a
message, and a sum may well be smaller.
-/

namespace BulkPaths

namespace PathWeight

variable {W : Type} [PathWeight W]

/-- Zero or above it. -/
def Proper (x : W) : Prop := x = zero ∨ less zero x

def AtMost (x y : W) : Prop := x = y ∨ less x y

theorem AtMost.refl (x : W) : AtMost x x := .inl rfl

theorem proper_zero : Proper (zero : W) := .inl rfl

theorem proper_of_less {x : W} (h : less zero x) : Proper x := .inr h

theorem Proper.zero_atMost {x : W} (h : Proper x) : AtMost zero x := h.imp_left Eq.symm

end PathWeight

open PathWeight in
/-- Of addition only that it is monotone. -/
class OrderedPathWeight (W : Type) [PathWeight W] : Prop where
  less_irrefl : ∀ x : W, less x x = false
  less_trans : ∀ {x y z : W}, less x y → less y z → less x z
  less_total : ∀ {x y : W}, Proper x → Proper y → less x y ∨ x = y ∨ less y x
  same_iff : ∀ {x y : W}, Proper x → Proper y → (same x y ↔ x = y)
  finite_iff : ∀ {x : W}, Proper x → (isFinite x ↔ x ≠ infinite)
  atMost_infinite : ∀ {x : W}, Proper x → AtMost x infinite
  add_mono : ∀ {x y v w : W}, Proper x → Proper y → less zero v → less zero w →
    AtMost x y → AtMost v w → AtMost (add x v) (add y w)

open PathWeight in
class LawfulPathWeight (W : Type) [PathWeight W] : Prop where
  less_irrefl : ∀ x : W, less x x = false
  less_trans : ∀ {x y z : W}, less x y → less y z → less x z
  less_total : ∀ {x y : W}, Proper x → Proper y → less x y ∨ x = y ∨ less y x
  same_iff : ∀ {x y : W}, Proper x → Proper y → (same x y ↔ x = y)
  zero_finite : isFinite (zero : W)
  finite_iff : ∀ {x : W}, Proper x → (isFinite x ↔ x ≠ infinite)
  atMost_infinite : ∀ {x : W}, Proper x → AtMost x infinite
  add_mono : ∀ {x y v w : W}, Proper x → Proper y → less zero v → less zero w →
    AtMost x y → AtMost v w → AtMost (add x v) (add y w)
  atMost_add : ∀ {x w : W}, Proper x → less zero w → AtMost x (add x w)

instance {W : Type} [PathWeight W] [LawfulPathWeight W] : OrderedPathWeight W where
  less_irrefl := LawfulPathWeight.less_irrefl
  less_trans := LawfulPathWeight.less_trans
  less_total := LawfulPathWeight.less_total
  same_iff := LawfulPathWeight.same_iff
  finite_iff := LawfulPathWeight.finite_iff
  atMost_infinite := LawfulPathWeight.atMost_infinite
  add_mono := LawfulPathWeight.add_mono

namespace PathWeight

variable {W : Type} [PathWeight W] {x y z w : W}

section Ordered

open OrderedPathWeight

variable [OrderedPathWeight W]

@[simp]
theorem less_self (x : W) : less x x = false := less_irrefl x

theorem AtMost.trans (hxy : AtMost x y) (hyz : AtMost y z) : AtMost x z := by
  rcases hxy with rfl | hxy
  · exact hyz
  rcases hyz with rfl | hyz
  · exact .inr hxy
  · exact .inr (less_trans hxy hyz)

theorem AtMost.not_less (h : AtMost x y) : less y x = false := by
  rcases h with rfl | h
  · exact less_irrefl x
  · cases hback : less y x with
    | false => rfl
    | true => exact (less_trans h hback).symm.trans (less_irrefl x)

theorem AtMost.antisymm (hxy : AtMost x y) (hyx : AtMost y x) : x = y := by
  rcases hxy with rfl | hless
  · rfl
  · rw [hyx.not_less] at hless
    exact absurd hless Bool.false_ne_true

theorem less_of_less_of_atMost (hxy : less x y) (hyz : AtMost y z) : less x z := by
  rcases hyz with rfl | hyz
  · exact hxy
  · exact less_trans hxy hyz

theorem less_of_atMost_of_less (hxy : AtMost x y) (hyz : less y z) : less x z := by
  rcases hxy with rfl | hxy
  · exact hyz
  · exact less_trans hxy hyz

theorem Proper.of_atMost (h : Proper x) (hle : AtMost x y) : Proper y :=
  (h.zero_atMost.trans hle).imp_left Eq.symm

theorem atMost_of_not_less (hx : Proper x) (hy : Proper y) (h : less y x = false) :
    AtMost x y := by
  rcases less_total hx hy with hless | heq | hback
  · exact .inr hless
  · exact .inl heq
  · rw [h] at hback
    exact absurd hback Bool.false_ne_true

theorem atMost_or_less (hx : Proper x) (hy : Proper y) : AtMost x y ∨ less y x := by
  cases h : less y x with
  | false => exact .inl (atMost_of_not_less hx hy h)
  | true => exact .inr rfl

/-- Among proper weights there is a smallest. -/
theorem exists_atMost_all {weights : List W} (hproper : ∀ x ∈ weights, Proper x)
    (hne : weights ≠ []) : ∃ x ∈ weights, ∀ y ∈ weights, AtMost x y := by
  induction weights with
  | nil => exact absurd rfl hne
  | cons x rest ih =>
      by_cases hrest : rest = []
      · subst hrest
        refine ⟨x, List.mem_cons_self, ?_⟩
        intro y hy
        rw [List.mem_singleton.mp hy]
        exact .refl x
      · obtain ⟨y, hy, hall⟩ := ih (fun z hz => hproper z (List.mem_cons_of_mem _ hz)) hrest
        have hy' := List.mem_cons_of_mem x hy
        rcases atMost_or_less (hproper x List.mem_cons_self) (hproper y hy') with hle | hless
        · exact ⟨x, List.mem_cons_self, List.forall_mem_cons.mpr
            ⟨.refl x, fun z hz => hle.trans (hall z hz)⟩⟩
        · exact ⟨y, hy', List.forall_mem_cons.mpr ⟨.inr hless, hall⟩⟩

theorem proper_infinite : Proper (infinite : W) :=
  proper_zero.of_atMost (atMost_infinite proper_zero)

theorem infinite_not_finite : isFinite (infinite : W) = false := by
  have h := (finite_iff (@proper_infinite W _ _)).not.mpr (not_not.mpr rfl)
  simpa using h

/-- What lies below a proper weight is finite. -/
theorem finite_of_less (hx : Proper x) (hy : Proper y) (h : less x y) : isFinite x := by
  rw [finite_iff hx]
  rintro rfl
  rw [(atMost_infinite hy).not_less] at h
  exact absurd h Bool.false_ne_true

theorem eq_infinite_of_atMost (hx : Proper x) (h : AtMost infinite x) : x = infinite :=
  (atMost_infinite hx).antisymm h

end Ordered

section Lawful

open LawfulPathWeight

variable [LawfulPathWeight W]

theorem proper_add (hx : Proper x) (hw : less zero w) : Proper (add x w) :=
  hx.of_atMost (atMost_add hx hw)

/-- A sum that has overflowed stays so. -/
theorem add_infinite (hw : less zero w) : add infinite w = infinite :=
  eq_infinite_of_atMost (proper_add proper_infinite hw) (atMost_add proper_infinite hw)

end Lawful

end PathWeight

end BulkPaths
