import BulkPaths.EdgeWeight
import BulkPaths.Partition
import BulkPaths.Proofs.DecimalTexts

/-!
# What can be spelled

Two things keep a value from being spelled: a whole number in it has too many digits, or values lie
too deep within one another. Which of them is met first depends on the order in which a value is
gone through; that neither is there is told by the value as a whole.
-/

namespace BulkPaths

open Decimal

/-- A whole number can be spelled if it is below a power of ten. -/
theorem Decimal.printable_iff {n : Int} : Printable n ↔ n.natAbs < 10 ^ digitLimit :=
  Nat.length_toDigits_le_iff (by decide) (by decide)

theorem Decimal.printable_of_lt {n : Nat} (h : n < 10 ^ digitLimit) : Printable n :=
  printable_iff.mpr h

namespace Value

variable {depth : Nat} {value : Value} {items : List Value} {fields : Properties} {fault : Fault}

theorem isSpellable_int {n : Int} : (Value.int n).isSpellable ↔ Printable n := decide_eq_true_iff

theorem isSpellable_bool (b : Bool) : (Value.bool b).isSpellable := rfl

theorem isSpellable_text (s : String) : (Value.text s).isSpellable := rfl

theorem isSpellable_list : (Value.list items).isSpellable ↔ ∀ item ∈ items, item.isSpellable := by
  rw [isSpellable]
  induction items with
  | nil => simp [areSpellable]
  | cons item items ih => rw [areSpellable, Bool.and_eq_true, ih, List.forall_mem_cons]

theorem isSpellable_record :
    (Value.record fields).isSpellable ↔ ∀ field ∈ fields, field.2.isSpellable := by
  rw [isSpellable]
  induction fields with
  | nil => simp [fieldsSpellable]
  | cons field fields ih => rw [fieldsSpellable, Bool.and_eq_true, ih, List.forall_mem_cons]

theorem nesting_list_le :
    (Value.list items).nesting ≤ depth ↔ ∀ item ∈ items, item.nesting < depth := by
  rw [nesting]
  induction items with
  | nil => simp [itemsNesting]
  | cons item items ih => rw [itemsNesting, Nat.max_le, ih, List.forall_mem_cons, Nat.succ_le_iff]

theorem nesting_record_le :
    (Value.record fields).nesting ≤ depth ↔ ∀ field ∈ fields, field.2.nesting < depth := by
  rw [nesting]
  induction fields with
  | nil => simp [fieldsNesting]
  | cons field fields ih =>
      rw [fieldsNesting, Nat.max_le, ih, List.forall_mem_cons, Nat.succ_le_iff]

theorem itemsFault?_succ :
    itemsFault? (depth + 1) items = items.findSome? (·.spellingFault? depth) := by
  induction items with
  | nil => rfl
  | cons item items ih =>
      rw [itemsFault?, ih, List.findSome?_cons]
      cases item.spellingFault? depth <;> rfl

/-- Names are texts and can always be spelled. -/
theorem fieldsFault?_eq (depth : Nat) (fields : Properties) :
    fieldsFault? depth fields = itemsFault? depth (fields.map Prod.snd) := by
  induction fields with
  | nil => cases depth <;> rfl
  | cons field fields ih =>
      cases depth with
      | zero => rfl
      | succ depth => rw [fieldsFault?, ih, List.map_cons, itemsFault?]

theorem itemsFault?_eq_none
    (ih : ∀ item ∈ items, ∀ {depth},
      item.spellingFault? depth = none ↔ item.isSpellable ∧ item.nesting ≤ depth) :
    itemsFault? depth items = none ↔
      (∀ item ∈ items, item.isSpellable) ∧ ∀ item ∈ items, item.nesting < depth := by
  cases depth with
  | zero =>
      cases items with
      | nil => simp [itemsFault?]
      | cons item items =>
          refine iff_of_false nofun fun hall => ?_
          exact Nat.not_lt_zero _ (hall.2 item List.mem_cons_self)
  | succ depth =>
      rw [itemsFault?_succ, List.findSome?_eq_none_iff, ← forall₂_and]
      exact forall₂_congr fun item hitem => by rw [ih item hitem, Nat.lt_succ_iff]

theorem itemsFault?_eq_some
    (ih : ∀ item ∈ items, ∀ {depth}, item.spellingFault? depth = some fault →
      fault = .longNumeral ∧ ¬item.isSpellable ∨ fault = .tooNested ∧ ¬item.nesting ≤ depth)
    (h : itemsFault? depth items = some fault) :
    fault = .longNumeral ∧ ¬(∀ item ∈ items, item.isSpellable) ∨
      fault = .tooNested ∧ ¬∀ item ∈ items, item.nesting < depth := by
  cases depth with
  | zero =>
      cases items with
      | nil => cases h
      | cons item items =>
          refine .inr ⟨(Option.some.inj h).symm, fun hall => ?_⟩
          exact Nat.not_lt_zero _ (hall item List.mem_cons_self)
  | succ depth =>
      rw [itemsFault?_succ] at h
      obtain ⟨item, hitem, hfault⟩ := List.exists_of_findSome?_eq_some h
      exact (ih item hitem hfault).imp
        (And.imp_right fun hlong hall => hlong (hall item hitem))
        (And.imp_right fun hdeep hall => hdeep (Nat.le_of_lt_succ (hall item hitem)))

/-- A value is spelled exactly if none of its numbers is too long and it is not nested too deep. -/
theorem spellingFault?_eq_none :
    value.spellingFault? depth = none ↔ value.isSpellable ∧ value.nesting ≤ depth := by
  induction value using Value.held_induction generalizing depth with
  | null | bool | real | text | uuid => simp [spellingFault?, isSpellable, nesting]
  | int n => simp [spellingFault?, nesting]
  | list items ih =>
      rw [spellingFault?, itemsFault?_eq_none ih, isSpellable_list, nesting_list_le]
  | record fields ih =>
      rw [spellingFault?, fieldsFault?_eq, itemsFault?_eq_none (List.forall_mem_map.mpr ih),
        List.forall_mem_map, List.forall_mem_map, isSpellable_record, nesting_record_le]

/-- The fault says which of the two it is. -/
theorem spellingFault?_eq_some (h : value.spellingFault? depth = some fault) :
    fault = .longNumeral ∧ ¬value.isSpellable ∨ fault = .tooNested ∧ ¬value.nesting ≤ depth := by
  induction value using Value.held_induction generalizing depth with
  | null | bool | real | text | uuid => cases h
  | int n =>
      rw [spellingFault?] at h
      split at h
      case isTrue => cases h
      case isFalse hlong => exact .inl ⟨(Option.some.inj h).symm, hlong⟩
  | list items ih =>
      rw [isSpellable_list, nesting_list_le]
      exact itemsFault?_eq_some ih h
  | record fields ih =>
      rw [spellingFault?, fieldsFault?_eq] at h
      have hfault := itemsFault?_eq_some (List.forall_mem_map.mpr ih) h
      rw [List.forall_mem_map, List.forall_mem_map] at hfault
      rw [isSpellable_record, nesting_record_le]
      exact hfault

end Value

namespace VertexId

theorem isPrintable_long {n : Int} : (VertexId.long n).isPrintable ↔ Printable n :=
  Value.isSpellable_int

end VertexId

/-- A vertex whose number has one digit more than can be spelled. -/
def overlongVertex : VertexId := .long (10 ^ digitLimit)

theorem overlongVertex_unprintable : overlongVertex.isPrintable = false := by
  rw [← Bool.not_eq_true, overlongVertex, VertexId.isPrintable_long, printable_iff]
  simp [Int.natAbs_pow]

/-- What is wrong with a value is told, or what keeps the value from being spelled. -/
theorem EdgeWeight.refusal_cases [NestingLimits] (value : Value) (fault : Fault) :
    refusal value fault = fault ∨
      value.spellingFault? NestingLimits.message = some (refusal value fault) := by
  unfold refusal
  cases value.spellingFault? NestingLimits.message with
  | none => exact .inl rfl
  | some found => exact .inr rfl

end BulkPaths
