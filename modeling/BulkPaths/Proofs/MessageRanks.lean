import BulkPaths.Message
import BulkPaths.Proofs.DoubleWeights
import BulkPaths.Proofs.IdOrder

/-!
# Combining chooses a message of least rank

The rank of a message is its weight, the length of its path and the keys of its path, and ranks are
compared in this order up to the first difference. Nothing compares with a NaN, and values of two
kinds do not compare. On weights that are numbers it never comes to that: keys begin with the
category. Messages of equal rank are equal, but for the sign of a zero, so there is one of least
rank, and it is what is left however often, in whatever order and with whatever brackets messages
are combined.
-/

namespace BulkPaths

/-- A later comparison counts if the first finds no difference. -/
def thenCompare (first later : Option Ordering) : Option Ordering :=
  match first with
  | some .eq => later
  | decided => decided

theorem thenCompare_some (first later : Ordering) :
    thenCompare (some first) (some later) = some (first.then later) := by
  cases first <;> rfl

/-- Values of two kinds do not compare. -/
def Value.compare? : Value → Value → Option Ordering
  | .int m, .int n => some (compare m n)
  | .text s, .text t => some (compare s t)
  | .uuid u, .uuid v => some (u.cmp v)
  | _, _ => none

/-- A category and a value. -/
abbrev SortKey := Nat × Value

namespace SortKey

def compare? (a b : SortKey) : Option Ordering :=
  thenCompare (some (compare a.1 b.1)) (a.2.compare? b.2)

/-- Lexicographic; a list comes after its prefixes. -/
def compareAll? : List SortKey → List SortKey → Option Ordering
  | [], [] => some .eq
  | [], _ :: _ => some .lt
  | _ :: _, [] => some .gt
  | a :: as, b :: bs => thenCompare (compare? a b) (compareAll? as bs)

end SortKey

namespace VertexId

def sortKey (v : VertexId) : SortKey := (v.category, v.toValue)

/-- Values are compared only within a category. -/
theorem compare?_sortKey (a b : VertexId) : a.sortKey.compare? b.sortKey = some (a.cmp b) := by
  cases a <;> cases b <;> rfl

theorem compareAll?_sortKey (p q : List VertexId) :
    SortKey.compareAll? (p.map sortKey) (q.map sortKey) = some (cmpPath p q) := by
  induction p generalizing q with
  | nil => cases q <;> rfl
  | cons a p ih =>
      cases q with
      | nil => rfl
      | cons b q =>
          rw [List.map_cons, List.map_cons, SortKey.compareAll?, compare?_sortKey, ih,
            thenCompare_some, cmpPath]

end VertexId

namespace Binary64

variable {x y : Float}

/-- Nothing compares with a NaN. -/
def compare? (x y : Float) : Option Ordering :=
  if PathWeight.same x y then some .eq
  else if PathWeight.less x y then some .lt
  else if PathWeight.less y x then some .gt
  else none

theorem number_of_isNaN (h : x.isNaN = false) : x.toModel.unpack ≠ .notANumber := by
  intro hnan
  have hyes : x.toModel.unpack.isNaN = true := by
    rw [hnan]
    rfl
  exact Bool.false_ne_true (h.symm.trans hyes)

theorem same_iff (hx : x.isNaN = false) (hy : y.isNaN = false) :
    PathWeight.same x y ↔ rank x.toModel.unpack = rank y.toModel.unpack := by
  show Float.Model.UnpackedFloat.beq x.toModel.unpack y.toModel.unpack = true ↔ _
  rw [Float.Model.UnpackedFloat.beq, beq_iff_eq, compare_eq_rank (packable_model _)
    (packable_model _) (number_of_isNaN hx) (number_of_isNaN hy), Option.some_inj,
    compare_eq_iff_eq]

theorem less_iff_rank (hx : x.isNaN = false) (hy : y.isNaN = false) :
    PathWeight.less x y ↔ rank x.toModel.unpack < rank y.toModel.unpack := by
  rw [less_iff]
  exact ⟨fun h => h.2.2, fun h => ⟨number_of_isNaN hx, number_of_isNaN hy, h⟩⟩

theorem compare?_eq_rank (hx : x.isNaN = false) (hy : y.isNaN = false) :
    compare? x y = some (compare (rank x.toModel.unpack) (rank y.toModel.unpack)) := by
  have hsame := same_iff hx hy
  have hless := less_iff_rank hx hy
  have hgreater := less_iff_rank hy hx
  unfold compare?
  rcases lt_trichotomy (rank x.toModel.unpack) (rank y.toModel.unpack) with hlt | heq | hgt
  · rw [if_neg (mt hsame.mp hlt.ne), if_pos (hless.mpr hlt), compare_lt_iff_lt.mpr hlt]
  · rw [if_pos (hsame.mpr heq), compare_eq_iff_eq.mpr heq]
  · rw [if_neg (mt hsame.mp hgt.ne'), if_neg (mt hless.mp hgt.not_gt), if_pos (hgreater.mpr hgt),
      compare_gt_iff_gt.mpr hgt]

end Binary64

namespace Message

/-- What messages are compared by. -/
structure Rank where
  weight : Float
  length : Nat
  keys : List SortKey

/-- The first difference decides. -/
def Rank.compare? (r s : Rank) : Option Ordering :=
  thenCompare (Binary64.compare? r.weight s.weight)
    (thenCompare (some (compare r.length s.length)) (SortKey.compareAll? r.keys s.keys))

/-- The ranks compare, and the first is not the greater one. -/
def Rank.AtMost (r s : Rank) : Prop := ∃ result, r.compare? s = some result ∧ result.isLE

def rank (m : Message Float) : Rank :=
  { weight := m.weight, length := m.path.length, keys := m.path.map VertexId.sortKey }

/-- The weight is no NaN. -/
def Numeric (m : Message Float) : Prop := m.weight.isNaN = false

/-- Equal as messages are compared: the two zeros are one number. -/
def Alike (a b : Message Float) : Prop := a.path = b.path ∧ PathWeight.same a.weight b.weight

/-- Where the weight of a message stands among the numbers. -/
def standing (m : Message Float) : Int := Binary64.rank m.weight.toModel.unpack

/-- The order of ranks, if no weight is a NaN. -/
def order : Message Float → Message Float → Ordering :=
  compareLex (compareOn standing) fun a b => VertexId.cmpRoute a.path b.path

instance : Std.TransCmp fun a b : Message Float => VertexId.cmpRoute a.path b.path where
  eq_swap := Std.OrientedCmp.eq_swap
  isLE_trans hab hbc := Std.TransCmp.isLE_trans hab hbc

instance : Std.TransCmp order := inferInstanceAs (Std.TransCmp (compareLex _ _))

variable {a b c m m' : Message Float} {messages others : List (Message Float)}

/-- Whatever the paths, their comparison does not fail. -/
theorem compare?_rank (ha : a.Numeric) (hb : b.Numeric) :
    a.rank.compare? b.rank = some (order a b) := by
  have hweight := Binary64.compare?_eq_rank ha hb
  have hkeys := VertexId.compareAll?_sortKey a.path b.path
  simp only [Rank.compare?, rank, hweight, hkeys, thenCompare_some]
  rfl

theorem order_eq_iff (ha : a.Numeric) (hb : b.Numeric) : order a b = .eq ↔ Alike a b := by
  rw [order, compareLex_eq_eq, Alike, Binary64.same_iff ha hb, and_comm]
  refine and_congr ?_ compare_eq_iff_eq
  exact ⟨Std.LawfulEqCmp.eq_of_compare, fun h => h ▸ Std.ReflCmp.compare_self⟩

theorem precedes_iff_order (ha : a.Numeric) (hb : b.Numeric) :
    a.precedes b ↔ (order a b).isLE := by
  have hsame : PathWeight.same a.weight b.weight ↔ a.standing = b.standing :=
    Binary64.same_iff ha hb
  have hless : PathWeight.less a.weight b.weight ↔ a.standing < b.standing :=
    Binary64.less_iff_rank ha hb
  unfold precedes order compareLex compareOn
  split
  case isTrue h =>
    rw [compare_eq_iff_eq.mpr (hsame.mp h), Ordering.isLE_iff_ne_gt, bne_iff_ne]
    rfl
  case isFalse h =>
    have hne := mt hsame.mpr h
    rw [hless]
    rcases lt_or_gt_of_ne hne with hlt | hgt
    · rw [compare_lt_iff_lt.mpr hlt]
      exact iff_of_true hlt rfl
    · rw [compare_gt_iff_gt.mpr hgt]
      exact iff_of_false hgt.not_gt Bool.false_ne_true

theorem order_trans (hab : (order a b).isLE) (hbc : (order b c).isLE) : (order a c).isLE :=
  Std.TransCmp.isLE_trans hab hbc

theorem combine_of_le (ha : a.Numeric) (hb : b.Numeric) (h : (order a b).isLE) :
    a.combine b = a :=
  if_pos ((precedes_iff_order ha hb).mpr h)

theorem combine_of_not_le (ha : a.Numeric) (hb : b.Numeric) (h : ¬(order a b).isLE) :
    a.combine b = b :=
  if_neg (mt (precedes_iff_order ha hb).mp h)

theorem combine_eq_or (a b : Message Float) : a.combine b = a ∨ a.combine b = b := by
  unfold combine
  split
  · exact .inl rfl
  · exact .inr rfl

theorem combine_self (a : Message Float) : a.combine a = a := by
  rcases combine_eq_or a a with h | h <;> exact h

/-- A message of least rank. -/
structure Least (messages : List (Message Float)) (m : Message Float) : Prop where
  mem : m ∈ messages
  first : ∀ other ∈ messages, (order m other).isLE

namespace Least

theorem singleton (m : Message Float) : Least [m] m where
  mem := List.mem_cons_self
  first other hother := by
    rw [List.mem_singleton.mp hother]
    exact Std.ReflCmp.isLE_rfl

theorem combine (ha : Least messages a) (hb : Least others b) (hnumeric : a.Numeric)
    (hnumeric' : b.Numeric) : Least (messages ++ others) (a.combine b) := by
  by_cases hle : (order a b).isLE
  · rw [combine_of_le hnumeric hnumeric' hle]
    refine ⟨List.mem_append_left _ ha.mem, List.forall_mem_append.mpr ⟨ha.first, ?_⟩⟩
    exact fun other hother => order_trans hle (hb.first other hother)
  · rw [combine_of_not_le hnumeric hnumeric' hle]
    have hback := (isLE_total order a b).resolve_left hle
    refine ⟨List.mem_append_right _ hb.mem, List.forall_mem_append.mpr ⟨?_, hb.first⟩⟩
    exact fun other hother => order_trans hback (ha.first other hother)

/-- Only the members count. -/
theorem of_mem_iff (h : Least messages m) (hmem : ∀ x, x ∈ others ↔ x ∈ messages) :
    Least others m :=
  ⟨(hmem m).mpr h.mem, fun other hother => h.first other ((hmem other).mp hother)⟩

theorem alike (h : Least messages m) (h' : Least messages m') (hm : m.Numeric)
    (hm' : m'.Numeric) : Alike m m' :=
  (order_eq_iff hm hm').mp
    (Std.OrientedCmp.isLE_antisymm (h.first m' h'.mem) (h'.first m h.mem))

end Least

/-- Messages with brackets around any two that are combined. -/
inductive Bracketing
  | one (m : Message Float)
  | pair (first second : Bracketing)

namespace Bracketing

def leaves : Bracketing → List (Message Float)
  | .one m => [m]
  | .pair first second => first.leaves ++ second.leaves

def combined : Bracketing → Message Float
  | .one m => m
  | .pair first second => first.combined.combine second.combined

theorem least_combined (brackets : Bracketing) (hnumeric : ∀ m ∈ brackets.leaves, m.Numeric) :
    Least brackets.leaves brackets.combined := by
  induction brackets with
  | one m => exact .singleton m
  | pair first second ih ih' =>
      obtain ⟨hfirst, hsecond⟩ := List.forall_mem_append.mp hnumeric
      have hleast := ih hfirst
      have hleast' := ih' hsecond
      exact hleast.combine hleast' (hfirst _ hleast.mem) (hsecond _ hleast'.mem)

/-- One message after the other. -/
def chain (first : Bracketing) (rest : List (Message Float)) : Bracketing :=
  rest.foldl (fun done m => .pair done (.one m)) first

theorem leaves_chain (first : Bracketing) (rest : List (Message Float)) :
    (chain first rest).leaves = first.leaves ++ rest := by
  induction rest generalizing first with
  | nil => exact (List.append_nil _).symm
  | cons m rest ih =>
      calc (chain first (m :: rest)).leaves
          = (pair first (.one m)).leaves ++ rest := ih _
        _ = first.leaves ++ (m :: rest) := List.append_assoc _ _ _

theorem foldl_combineInto (first : Bracketing) (rest : List (Message Float)) :
    rest.foldl (fun held m => some (combineInto held m)) (some first.combined) =
      some (chain first rest).combined := by
  induction rest generalizing first with
  | nil => rfl
  | cons m rest ih => exact ih (.pair first (.one m))

end Bracketing

/-- What is left of messages, if there are any, has brackets around those that came first. -/
theorem exists_bracketing (hne : messages ≠ []) : ∃ brackets : Bracketing,
    brackets.leaves = messages ∧ combineAll messages = some brackets.combined := by
  obtain ⟨m, rest, rfl⟩ := List.exists_cons_of_ne_nil hne
  exact ⟨.chain (.one m) rest, Bracketing.leaves_chain (.one m) rest,
    Bracketing.foldl_combineInto (.one m) rest⟩

theorem combineAll_eq_none : combineAll messages = none ↔ messages = [] := by
  constructor
  · intro hnone
    by_contra hne
    obtain ⟨brackets, -, hsome⟩ := exists_bracketing hne
    rw [hnone] at hsome
    cases hsome
  · rintro rfl
    rfl

theorem least_of_combineAll (hnumeric : ∀ m ∈ messages, m.Numeric)
    (h : combineAll messages = some m) : Least messages m := by
  have hne : messages ≠ [] := by
    rintro rfl
    cases h
  obtain ⟨brackets, hleaves, hsome⟩ := exists_bracketing hne
  rw [h, Option.some_inj] at hsome
  rw [hsome, ← hleaves]
  exact brackets.least_combined (hleaves ▸ hnumeric)

theorem combine_assoc (ha : a.Numeric) (hb : b.Numeric) (hc : c.Numeric) :
    (a.combine b).combine c = a.combine (b.combine c) := by
  by_cases hab : (order a b).isLE
  · rw [combine_of_le ha hb hab]
    by_cases hbc : (order b c).isLE
    · rw [combine_of_le hb hc hbc, combine_of_le ha hb hab, combine_of_le ha hc]
      exact order_trans hab hbc
    · rw [combine_of_not_le hb hc hbc]
  · rw [combine_of_not_le ha hb hab]
    by_cases hbc : (order b c).isLE
    · rw [combine_of_le hb hc hbc, combine_of_not_le ha hb hab]
    · have hcb := (isLE_total order b c).resolve_left hbc
      have hac : ¬(order a c).isLE := fun hac => hab (order_trans hac hcb)
      rw [combine_of_not_le hb hc hbc, combine_of_not_le ha hc hac]

theorem combine_comm (ha : a.Numeric) (hb : b.Numeric) :
    Alike (a.combine b) (b.combine a) := by
  have hleast := (Least.singleton a).combine (.singleton b) ha hb
  have hleast' := (Least.singleton b).combine (.singleton a) hb ha
  have hmem (x : Message Float) : x ∈ [b] ++ [a] ↔ x ∈ [a] ++ [b] := by
    simp [or_comm]
  have hnumeric : ∀ m ∈ [a] ++ [b], m.Numeric := by
    simp [ha, hb]
  exact hleast.alike (hleast'.of_mem_iff fun x => (hmem x).symm) (hnumeric _ hleast.mem)
    (hnumeric _ ((hmem _).mp hleast'.mem))

/-- **Combining chooses a minimum.** Of messages whose weights are numbers, two combined are one of
the two, and combining is idempotent, associative and, but for the sign of a zero, commutative; any
two ranks compare, and equal ranks belong to equal messages. All messages combined are nothing if
there are none, and otherwise one of least rank, the same for every list with these members and
every way to put brackets. -/
theorem combining_chooses_minimum (hnumeric : ∀ m ∈ messages, m.Numeric) :
    (∀ a ∈ messages, ∀ b ∈ messages,
      (a.combine b = a ∨ a.combine b = b) ∧ a.combine a = a ∧
        Alike (a.combine b) (b.combine a) ∧
        (∀ c ∈ messages, (a.combine b).combine c = a.combine (b.combine c)) ∧
        (a.rank.compare? b.rank).isSome ∧ (a.rank.compare? b.rank = some .eq ↔ Alike a b)) ∧
    (combineAll messages = none ↔ messages = []) ∧
    ∀ m, combineAll messages = some m →
      m ∈ messages ∧ (∀ other ∈ messages, m.rank.AtMost other.rank) ∧
        (∀ others, (∀ x, x ∈ others ↔ x ∈ messages) →
          ∃ m', combineAll others = some m' ∧ Alike m' m) ∧
        ∀ brackets : Bracketing, (∀ x, x ∈ brackets.leaves ↔ x ∈ messages) →
          Alike brackets.combined m := by
  refine ⟨fun a ha b hb => ?_, combineAll_eq_none, fun m hm => ?_⟩
  · have ha := hnumeric a ha
    have hb := hnumeric b hb
    refine ⟨combine_eq_or a b, combine_self a, combine_comm ha hb,
      fun c hc => combine_assoc ha hb (hnumeric c hc), ?_, ?_⟩
    · rw [compare?_rank ha hb]
      rfl
    · rw [compare?_rank ha hb, Option.some_inj, order_eq_iff ha hb]
  · have hleast := least_of_combineAll hnumeric hm
    have hsame {brackets : Bracketing} (hmem : ∀ x, x ∈ brackets.leaves ↔ x ∈ messages) :
        Alike brackets.combined m := by
      have hleaves : ∀ x ∈ brackets.leaves, x.Numeric := fun x hx => hnumeric x ((hmem x).mp hx)
      have hother := (brackets.least_combined hleaves).of_mem_iff fun x => (hmem x).symm
      exact hother.alike hleast (hnumeric _ hother.mem) (hnumeric _ hleast.mem)
    refine ⟨hleast.mem, fun other hother => ?_, fun others hmem => ?_, fun _ => hsame⟩
    · exact ⟨_, compare?_rank (hnumeric m hleast.mem) (hnumeric other hother),
        hleast.first other hother⟩
    · obtain ⟨brackets, hleaves, hsome⟩ :=
        exists_bracketing (List.ne_nil_of_mem ((hmem m).mpr hleast.mem))
      exact ⟨_, hsome, hsame (hleaves ▸ hmem)⟩

/-- A route with each of the two zeros, and another with its identifiers the other way round. -/
def weightlessRoutes : List (Message Float) :=
  [⟨[.long 1, .utf8 "1"], 0⟩, ⟨[.utf8 "1", .long 1], 0⟩, ⟨[.long 1, .utf8 "1"], -0.0⟩]

theorem combining_chooses_minimum_weightless :
    ∃ m, combineAll weightlessRoutes.reverse = some m ∧ Alike m ⟨[.long 1, .utf8 "1"], 0⟩ := by
  have hnumeric : ∀ m ∈ weightlessRoutes, m.Numeric := by
    simp only [weightlessRoutes, List.forall_mem_cons]
    exact ⟨rfl, rfl, rfl, by simp⟩
  have hleft : combineAll weightlessRoutes = some ⟨[.long 1, .utf8 "1"], 0⟩ := rfl
  obtain ⟨m, hm, halike⟩ := ((combining_chooses_minimum hnumeric).2.2 _ hleft).2.2.1
    weightlessRoutes.reverse fun _ => List.mem_reverse
  exact ⟨m, hm, halike⟩

end Message

end BulkPaths
