import BulkPaths.Message
import BulkPaths.Proofs.IdOrder
import BulkPaths.Proofs.WeightLaws

/-!
# Combining picks the first message in a total order

Messages are ranked by weight, then by the length of their path, then by the path itself. On weights
that obey the laws the rank is a total order in which only equal messages tie, so it does not matter
in which order messages are combined, or in how many stages.
-/

namespace BulkPaths

namespace Message

open PathWeight OrderedPathWeight

variable {W : Type} [PathWeight W]

def AllProper (messages : List (Message W)) : Prop := ∀ m ∈ messages, Proper m.weight

/-- What is left of the messages that were sent: nothing if there were none, and otherwise the one
that precedes them all. -/
inductive Collects (sent : List (Message W)) : Option (Message W) → Prop
  | none (empty : sent = []) : Collects sent none
  | some {m : Message W} (mem : m ∈ sent) (first : ∀ other ∈ sent, m.precedes other) :
      Collects sent (some m)

namespace Collects

variable {sent more : List (Message W)} {held : Option (Message W)} {m : Message W}

theorem nil : Collects ([] : List (Message W)) Option.none := .none rfl

theorem mem_of_some (h : Collects sent (Option.some m)) : m ∈ sent := by
  cases h with
  | some mem _ => exact mem

theorem first_of_some (h : Collects sent (Option.some m)) : ∀ other ∈ sent, m.precedes other := by
  cases h with
  | some _ first => exact first

theorem eq_nil_of_none (h : Collects sent Option.none) : sent = [] := by
  cases h with
  | none empty => exact empty

theorem of_perm (h : Collects sent held) (hperm : sent.Perm more) : Collects more held := by
  cases h with
  | none empty =>
      rw [empty] at hperm
      exact .none hperm.nil_eq.symm
  | some mem first =>
      exact .some (hperm.mem_iff.mp mem) fun other hother =>
        first other (hperm.mem_iff.mpr hother)

theorem exists_of_mem (h : Collects sent held) (hmem : m ∈ sent) :
    ∃ best, held = Option.some best ∧ best.precedes m := by
  cases h with
  | none empty => simp [empty] at hmem
  | some mem first => exact ⟨_, rfl, first m hmem⟩

end Collects

variable [OrderedPathWeight W] {first second third : Message W}

theorem precedes_iff (hfirst : Proper first.weight) (hsecond : Proper second.weight) :
    first.precedes second ↔ less first.weight second.weight ∨
      first.weight = second.weight ∧ (VertexId.cmpRoute first.path second.path).isLE := by
  unfold precedes
  split
  case isTrue hsame =>
    have heq := (same_iff hfirst hsecond).mp hsame
    simp [heq, VertexId.cmpRoute, compareLex, compareOn, Ordering.isLE_iff_ne_gt]
  case isFalse hdiffer =>
    have hne : first.weight ≠ second.weight :=
      fun heq => hdiffer ((same_iff hfirst hsecond).mpr heq)
    simp [hne]

theorem precedes_self (hfirst : Proper first.weight) : first.precedes first := by
  rw [precedes_iff hfirst hfirst]
  exact .inr ⟨rfl, @Std.ReflCmp.isLE_rfl _ VertexId.cmpRoute _ _⟩

theorem precedes_total (hfirst : Proper first.weight) (hsecond : Proper second.weight) :
    first.precedes second ∨ second.precedes first := by
  rw [precedes_iff hfirst hsecond, precedes_iff hsecond hfirst]
  rcases less_total hfirst hsecond with hless | heq | hless
  · exact .inl (.inl hless)
  · rcases isLE_total VertexId.cmpRoute first.path second.path with h | h
    · exact .inl (.inr ⟨heq, h⟩)
    · exact .inr (.inr ⟨heq.symm, h⟩)
  · exact .inr (.inl hless)

theorem precedes_trans (hfirst : Proper first.weight) (hsecond : Proper second.weight)
    (hthird : Proper third.weight) (h : first.precedes second) (h' : second.precedes third) :
    first.precedes third := by
  rw [precedes_iff hfirst hsecond] at h
  rw [precedes_iff hsecond hthird] at h'
  rw [precedes_iff hfirst hthird]
  rcases h with hless | ⟨heq, hroute⟩
  · rcases h' with hless' | ⟨heq', _⟩
    · exact .inl (less_trans hless hless')
    · exact .inl (heq' ▸ hless)
  · rcases h' with hless' | ⟨heq', hroute'⟩
    · exact .inl (heq ▸ hless')
    · refine .inr ⟨heq.trans heq', ?_⟩
      exact @Std.TransCmp.isLE_trans _ VertexId.cmpRoute _ _ _ _ hroute hroute'

theorem precedes_antisymm (hfirst : Proper first.weight) (hsecond : Proper second.weight)
    (h : first.precedes second) (h' : second.precedes first) : first = second := by
  rw [precedes_iff hfirst hsecond] at h
  rw [precedes_iff hsecond hfirst] at h'
  have heq : first.weight = second.weight := by
    refine AtMost.antisymm ?_ ?_
    · exact h.elim .inr fun h => .inl h.1
    · exact h'.elim .inr fun h => .inl h.1
  have hpath : first.path = second.path := by
    have hroute : (VertexId.cmpRoute first.path second.path).isLE := by simpa [heq] using h
    have hroute' : (VertexId.cmpRoute second.path first.path).isLE := by simpa [heq] using h'
    exact @Std.LawfulEqCmp.eq_of_compare _ VertexId.cmpRoute _ _ _
      (Std.OrientedCmp.isLE_antisymm hroute hroute')
  cases first
  cases second
  simp_all

theorem atMost_of_precedes (hfirst : Proper first.weight) (hsecond : Proper second.weight)
    (h : first.precedes second) : AtMost first.weight second.weight := by
  rw [precedes_iff hfirst hsecond] at h
  exact h.elim .inr fun h => .inl h.1

namespace Collects

variable {sent more : List (Message W)} {held : Option (Message W)} {m : Message W}

/-- Combining what is left of two lots leaves the first of both. -/
theorem combineInto (hsent : AllProper sent) (hmore : AllProper more) (hheld : Collects sent held)
    (hm : Collects more (Option.some m)) :
    Collects (sent ++ more) (Option.some (Message.combineInto held m)) := by
  cases hheld with
  | none empty =>
      rw [empty, List.nil_append]
      exact hm
  | @some best mem first =>
      have hproper : ∀ other ∈ sent ++ more, Proper other.weight := by
        intro other hother
        exact (List.mem_append.mp hother).elim (hsent other) (hmore other)
      have hbest : Proper best.weight := hsent best mem
      have hm' : Proper m.weight := hmore m hm.mem_of_some
      simp only [Message.combineInto, combine]
      split
      case isTrue hprecedes =>
        refine .some (List.mem_append_left _ mem) ?_
        intro other hother
        rcases List.mem_append.mp hother with hold | hnew
        · exact first other hold
        · exact precedes_trans hbest hm' (hproper other hother) hprecedes
            (hm.first_of_some other hnew)
      case isFalse hnot =>
        have hprecedes : m.precedes best := (precedes_total hbest hm').resolve_left hnot
        refine .some (List.mem_append_right _ hm.mem_of_some) ?_
        intro other hother
        rcases List.mem_append.mp hother with hold | hnew
        · exact precedes_trans hm' hbest (hproper other hother) hprecedes (first other hold)
        · exact hm.first_of_some other hnew

theorem singleton (hm : Proper m.weight) : Collects [m] (Option.some m) := by
  refine .some (List.mem_singleton_self m) ?_
  intro other hother
  rw [List.mem_singleton.mp hother]
  exact precedes_self hm

/-- What is left does not depend on the order in which messages were combined. -/
theorem unique (hsent : AllProper sent) {other : Option (Message W)} (h : Collects sent held)
    (h' : Collects sent other) : held = other := by
  cases h with
  | none empty =>
      cases h' with
      | none => rfl
      | some mem => simp [empty] at mem
  | @some best mem first =>
      obtain ⟨best', rfl, _⟩ := h'.exists_of_mem mem
      have hmem' := h'.mem_of_some
      rw [precedes_antisymm (hsent best mem) (hsent best' hmem') (first best' hmem')
        (h'.first_of_some best mem)]

end Collects

theorem collects_combineAll {sent : List (Message W)} (hsent : AllProper sent) :
    Collects sent (combineAll sent) := by
  suffices hfrom : ∀ (before : List (Message W)) (held : Option (Message W)), AllProper before →
      Collects before held →
      Collects (before ++ sent)
        (sent.foldl (fun held message => some (combineInto held message)) held) from
    hfrom [] none (fun _ hm => absurd hm List.not_mem_nil) .nil
  intro before held hbefore hheld
  induction sent generalizing before held with
  | nil =>
      rw [List.append_nil]
      exact hheld
  | cons m sent ih =>
      obtain ⟨hm, hrest⟩ := List.forall_mem_cons.mp hsent
      have hone : AllProper [m] := by simpa [AllProper] using hm
      have hmore : AllProper (before ++ [m]) := fun other hother =>
        (List.mem_append.mp hother).elim (hbefore other) (hone other)
      have hjoined := ih hrest _ _ hmore (hheld.combineInto hbefore hone (.singleton hm))
      rwa [List.append_assoc, List.singleton_append] at hjoined

/-- All messages combined, in any order, leave the first of them. -/
theorem Collects.combineAll_eq {sent order : List (Message W)} {held : Option (Message W)}
    (h : Collects sent held) (hsent : AllProper sent) (horder : order.Perm sent) :
    combineAll order = held := by
  have hproper : AllProper order := fun m hm => hsent m (horder.mem_iff.mp hm)
  exact (collects_combineAll hproper).unique hproper (h.of_perm horder.symm)

end Message

end BulkPaths
