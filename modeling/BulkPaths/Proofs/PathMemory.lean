import BulkPaths.Proofs.DoubleWeights
import BulkPaths.Proofs.Spellings
import BulkPaths.Proofs.VertexSteps

/-!
# Path values in memory

A path value is written in place, and its path is a list that lies elsewhere in memory and may be
shared. Here the calls that write it are told as steps on memory, which a failure leaves as they
have made it. They refine the plain functions on path values: the checks of a shorter path stand
before the first write, and a list is added to only while it is new, so that no copy can share it.
-/

namespace BulkPaths

open Decimal PathWeight

variable {W : Type}

/-- A path value as it lies in memory, with the place of its path. -/
structure Cell (W : Type) where
  reachable : Bool
  weight : W
  path : Nat

/-- Lists by place, the value, and the copies that have been taken of it. -/
structure Memory (W : Type) where
  lists : List (List VertexId)
  own : Cell W
  copies : List (Cell W)

/-- A call about the value of one vertex. -/
inductive Operation (W : Type)
  | zeroDistance
  | shorterPath (sent : List VertexId) (weight : W)
  | unreachable
  | copy

/-- Whether the call starts afresh. -/
def Operation.resets : Operation W → Bool
  | zeroDistance | unreachable => true
  | shorterPath .. | copy => false

/-- Steps on memory. What they have written when one of them fails stays written. -/
abbrev MemoryM (W : Type) : Type → Type := EStateM Fault (Memory W)

namespace MemoryM

/-- Makes a new list. -/
def allocate (items : List VertexId) : MemoryM W Nat :=
  modifyGet fun s => (s.lists.length, { s with lists := s.lists ++ [items] })

/-- Adds to a list where it lies. -/
def append (place : Nat) (id : VertexId) : MemoryM W Unit :=
  modify fun s => { s with lists := s.lists.modify place (· ++ [id]) }

def mark (reachable : Bool) (weight : W) : MemoryM W Unit :=
  modify fun s => { s with own := { s.own with reachable, weight } }

def lead (path : Nat) : MemoryM W Unit :=
  modify fun s => { s with own := { s.own with path } }

def keep (cell : Cell W) : MemoryM W Unit :=
  modify fun s => { s with copies := s.copies ++ [cell] }

end MemoryM

/-- What lies at the end can be changed without touching what lies before it. -/
theorem modify_length_append {α : Type} (items : List α) (last : α) (change : α → α) :
    (items ++ [last]).modify items.length change = items ++ [change last] := by
  induction items with
  | nil => rfl
  | cons item items ih => exact congrArg (item :: ·) ih

namespace Memory

variable {s t : Memory W} {cell : Cell W}

def read (s : Memory W) (place : Nat) : List VertexId := s.lists[place]?.getD []

/-- The path value that a cell stands for. -/
def shown (s : Memory W) (cell : Cell W) : PathValue W :=
  { reachable := cell.reachable, weight := cell.weight, path := s.read cell.path }

def value (s : Memory W) : PathValue W := s.shown s.own

def copied (s : Memory W) : List (PathValue W) := s.copies.map s.shown

/-- Every path lies at a place that has been made. -/
structure Sound (s : Memory W) : Prop where
  own : s.own.path < s.lists.length
  copies : ∀ cell ∈ s.copies, cell.path < s.lists.length

/-- The value written with a list of its own. -/
def renew (s : Memory W) (value : PathValue W) : Memory W where
  lists := s.lists ++ [value.path]
  own := { reachable := value.reachable, weight := value.weight, path := s.lists.length }
  copies := s.copies

/-- One more copy, with a list of its own. -/
def keep (s : Memory W) : Memory W where
  lists := s.lists ++ [s.value.path]
  own := s.own
  copies := s.copies ++ [{ s.own with path := s.lists.length }]

theorem read_of_prefix {place : Nat} (h : s.lists <+: t.lists) (hplace : place < s.lists.length) :
    t.read place = s.read place := by
  obtain ⟨more, hmore⟩ := h
  rw [read, ← hmore, List.getElem?_append_left hplace, read]

theorem shown_of_prefix (h : s.lists <+: t.lists) (hcell : cell.path < s.lists.length) :
    t.shown cell = s.shown cell := by
  rw [shown, read_of_prefix h hcell, shown]

theorem Sound.shown_copies (hs : s.Sound) (h : s.lists <+: t.lists) :
    s.copies.map t.shown = s.copied :=
  List.map_congr_left fun cell hcell => shown_of_prefix h (hs.copies cell hcell)

theorem lists_renew (s : Memory W) (value : PathValue W) : s.lists <+: (s.renew value).lists :=
  List.prefix_append ..

theorem lists_keep (s : Memory W) : s.lists <+: s.keep.lists := List.prefix_append ..

@[simp]
theorem value_renew (s : Memory W) (value : PathValue W) : (s.renew value).value = value := by
  simp [Memory.value, shown, read, renew]

theorem Sound.copied_renew (hs : s.Sound) (value : PathValue W) :
    (s.renew value).copied = s.copied := hs.shown_copies (s.lists_renew value)

theorem Sound.value_keep (hs : s.Sound) : s.keep.value = s.value :=
  shown_of_prefix s.lists_keep hs.own

theorem Sound.copied_keep (hs : s.Sound) : s.keep.copied = s.copied ++ [s.value] := by
  have hlast : s.keep.shown { s.own with path := s.lists.length } = s.value := by
    simp [shown, read, keep, value]
  calc s.keep.copied
      = s.copies.map s.keep.shown ++ [s.keep.shown { s.own with path := s.lists.length }] :=
        List.map_append
    _ = s.copied ++ [s.value] := by rw [hs.shown_copies s.lists_keep, hlast]

theorem Sound.renew (hs : s.Sound) (value : PathValue W) : (s.renew value).Sound where
  own := by simp [Memory.renew]
  copies cell hcell := (hs.copies cell hcell).trans_le (s.lists_renew value).length_le

theorem Sound.keep (hs : s.Sound) : s.keep.Sound where
  own := hs.own.trans_le s.lists_keep.length_le
  copies cell hcell := by
    rcases List.mem_append.mp hcell with hold | hnew
    · exact (hs.copies cell hold).trans_le s.lists_keep.length_le
    · rw [List.mem_singleton.mp hnew]
      simp [Memory.keep]

variable [PathWeight W]

/-- A new path value. -/
def fresh : Memory W where
  lists := [[]]
  own := { reachable := false, weight := infinite, path := 0 }
  copies := []

theorem sound_fresh : (fresh : Memory W).Sound := ⟨Nat.one_pos, nofun⟩

end Memory

variable [PathWeight W]

namespace Operation

/-- The call as it writes to memory. -/
def perform (id : VertexId) : Operation W → MemoryM W Unit
  | zeroDistance => do
    MemoryM.mark true zero
    let place ← MemoryM.allocate [id]
    MemoryM.lead place
  | shorterPath sent weight => do
    let s ← get
    unless less weight s.own.weight do
      throw (PathValue.refusal id (.notShorter id (text weight) (text s.own.weight)))
    unless isFinite weight do
      throw (PathValue.refusal id (.notFinite id (text weight)))
    MemoryM.mark true weight
    let place ← MemoryM.allocate sent
    MemoryM.lead place
    MemoryM.append place id
  | unreachable => do
    MemoryM.mark false infinite
    let place ← MemoryM.allocate []
    MemoryM.lead place
  | copy => do
    let s ← get
    let place ← MemoryM.allocate (s.read s.own.path)
    MemoryM.keep { s.own with path := place }

section Calls

variable {id : VertexId} {s : Memory W} {sent : List VertexId} {weight : W}

theorem run_zeroDistance :
    (zeroDistance.perform id).run s = .ok ⟨⟩ (s.renew (.source id)) := rfl

theorem run_unreachable : (unreachable.perform id).run s = .ok ⟨⟩ (s.renew .unreached) := rfl

theorem run_copy : (copy.perform id).run s = .ok ⟨⟩ s.keep := rfl

/-- The list that is added to is the one that has just been made, and so has no other owner. -/
theorem run_shorterPath :
    ((shorterPath sent weight).perform id).run s =
      match s.value.adopt id sent weight with
      | .ok value => .ok ⟨⟩ (s.renew value)
      | .error fault => .error fault s := by
  have hown : s.own.weight = s.value.weight := rfl
  unfold perform PathValue.adopt PathValue.adoptWhen
  simp only [EStateM.run, bind, EStateM.bind, get, getThe, MonadStateOf.get, EStateM.get, hown]
  cases hless : less weight s.value.weight with
  | false => rfl
  | true =>
      cases hfinite : isFinite weight with
      | false => rfl
      | true =>
          have hlists := modify_length_append s.lists sent (· ++ [id])
          change EStateM.Result.ok PUnit.unit ({
            lists := (s.lists ++ [sent]).modify s.lists.length (· ++ [id])
            own := { reachable := true, weight, path := s.lists.length }
            copies := s.copies } : Memory W) = _
          rw [hlists]
          rfl

/-- The kind of what comes of a path that is not adopted: its message names the vertex. -/
def refusalKind (id : VertexId) : FaultKind := if id.isPrintable then .algorithm else .value

theorem kind_of_refusal {fault : Fault} (h : fault.kind = .algorithm) :
    (PathValue.refusal id fault).kind = refusalKind id := by
  unfold PathValue.refusal refusalKind
  split
  · exact h
  · rfl

theorem adopt_cases (value : PathValue W) (id : VertexId) (sent : List VertexId) (weight : W) :
    (less weight value.weight ∧ isFinite weight ∧ value.adopt id sent weight =
        .ok { reachable := true, weight, path := sent ++ [id] }) ∨
      (less weight value.weight = false ∨ isFinite weight = false) ∧
        ∃ fault, value.adopt id sent weight = .error fault ∧ fault.kind = refusalKind id := by
  unfold PathValue.adopt PathValue.adoptWhen
  cases less weight value.weight with
  | false => exact .inr ⟨.inl rfl, _, rfl, kind_of_refusal rfl⟩
  | true =>
      cases isFinite weight with
      | false => exact .inr ⟨.inr rfl, _, rfl, kind_of_refusal rfl⟩
      | true => exact .inl ⟨rfl, rfl, rfl⟩

/-- A weight that is given as a double is compared as it is. -/
theorem adoptGiven_real (value : PathValue Float) (id : VertexId) (sent : List VertexId)
    (x : Float) : value.adoptGiven id sent (.real x) = value.adopt id sent x := rfl

/-- What a call does, and with which outcome. -/
inductive Does (id : VertexId) (s : Memory W) :
    Operation W → EStateM.Result Fault (Memory W) Unit → Prop
  | zeroDistance : Does id s zeroDistance (.ok ⟨⟩ (s.renew (.source id)))
  | unreachable : Does id s unreachable (.ok ⟨⟩ (s.renew .unreached))
  | copy : Does id s copy (.ok ⟨⟩ s.keep)
  | adopted {sent : List VertexId} {weight : W} (better : less weight s.value.weight)
      (finite : isFinite weight) : Does id s (shorterPath sent weight)
        (.ok ⟨⟩ (s.renew { reachable := true, weight, path := sent ++ [id] }))
  | refused {sent : List VertexId} {weight : W} {fault : Fault}
      (reason : less weight s.value.weight = false ∨ isFinite weight = false)
      (kind : fault.kind = refusalKind id) : Does id s (shorterPath sent weight) (.error fault s)

theorem does_run (id : VertexId) (s : Memory W) (op : Operation W) :
    Does id s op ((op.perform id).run s) := by
  cases op with
  | zeroDistance => exact .zeroDistance
  | unreachable => exact .unreachable
  | copy => exact .copy
  | shorterPath sent weight =>
      rw [run_shorterPath]
      rcases adopt_cases s.value id sent weight with
        ⟨hbetter, hfinite, hdone⟩ | ⟨hreason, fault, hfailed, hkind⟩
      · rw [hdone]
        exact .adopted hbetter hfinite
      · rw [hfailed]
        exact .refused hreason hkind

/-- A path is refused for its weight only. -/
theorem refuses_iff : (∃ fault t, ((shorterPath sent weight).perform id).run s = .error fault t) ↔
    less weight s.value.weight = false ∨ isFinite weight = false := by
  have hdoes := does_run id s (shorterPath sent weight)
  generalize ((shorterPath sent weight).perform id).run s = result at hdoes ⊢
  cases hdoes with
  | adopted better finite => simp [better, finite]
  | refused reason => exact iff_of_true ⟨_, _, rfl⟩ reason

/-- The copies that the call takes of a value. -/
def taken (value : PathValue W) : Operation W → List (PathValue W)
  | copy => [value]
  | zeroDistance | shorterPath .. | unreachable => []

end Calls

end Operation

/-- What is left in memory, whether the call has failed or not. -/
def Memory.left : EStateM.Result Fault (Memory W) Unit → Memory W
  | .ok _ s | .error _ s => s

/-- No path has been taken, or one that ends at the vertex and has a finite weight. -/
inductive PathValue.Settled (id : VertexId) : PathValue W → Prop
  | unreached : Settled id .unreached
  | reached {path : List VertexId} {weight : W} (finite : isFinite weight)
      (last : path.getLast? = some id) : Settled id { reachable := true, weight, path }

namespace Operation.Does

variable {id : VertexId} {s : Memory W} {op : Operation W}
  {result : EStateM.Result Fault (Memory W) Unit}

theorem sound (h : Does id s op result) (hs : s.Sound) : (Memory.left result).Sound := by
  cases h with
  | zeroDistance | unreachable | adopted => exact hs.renew _
  | copy => exact hs.keep
  | refused => exact hs

theorem copied (h : Does id s op result) (hs : s.Sound) :
    (Memory.left result).copied = s.copied ++ op.taken s.value := by
  cases h with
  | zeroDistance | unreachable | adopted => exact (hs.copied_renew _).trans (List.append_nil _).symm
  | copy => exact hs.copied_keep
  | refused => exact (List.append_nil _).symm

theorem settled [LawfulPathWeight W] (h : Does id s op result) (hs : s.Sound)
    (hsettled : s.value.Settled id) : (Memory.left result).value.Settled id := by
  cases h with
  | zeroDistance =>
      rw [Memory.left, Memory.value_renew]
      exact .reached LawfulPathWeight.zero_finite rfl
  | unreachable =>
      rw [Memory.left, Memory.value_renew]
      exact .unreached
  | copy =>
      rw [Memory.left, hs.value_keep]
      exact hsettled
  | adopted _ finite =>
      rw [Memory.left, Memory.value_renew]
      exact .reached finite List.getLast?_concat
  | refused => exact hsettled

end Operation.Does

namespace Memory

variable {id : VertexId} {s : Memory W} {ops : List (Operation W)}

def next (id : VertexId) (s : Memory W) (op : Operation W) : Memory W :=
  left ((op.perform id).run s)

theorem next_of_better {sent : List VertexId} {weight : W} (hless : less weight s.value.weight)
    (hfinite : isFinite weight) : next id s (.shorterPath sent weight) =
      s.renew { reachable := true, weight, path := sent ++ [id] } := by
  rw [next, Operation.run_shorterPath, PathValue.adopt, PathValue.adoptWhen, hless, hfinite]
  rfl

/-- What is left of a new value by calls made one after the other. A call that fails does not keep
the next one from being made. -/
def after (id : VertexId) (ops : List (Operation W)) : Memory W := ops.foldl (next id) fresh

theorem after_concat (ops : List (Operation W)) (op : Operation W) :
    after id (ops ++ [op]) = next id (after id ops) op := List.foldl_concat ..

/-- The weights of the value after each of the calls that have brought a shorter path. -/
def adopted (id : VertexId) (s : Memory W) : List (Operation W) → List W
  | [] => []
  | op :: ops =>
    match op, (op.perform id).run s with
    | .shorterPath .., .ok _ t => t.value.weight :: adopted id t ops
    | _, result => adopted id (left result) ops

theorem sound_foldl (hs : s.Sound) (ops : List (Operation W)) : (ops.foldl (next id) s).Sound := by
  induction ops generalizing s with
  | nil => exact hs
  | cons op ops ih => exact ih ((Operation.does_run id s op).sound hs)

theorem copied_foldl (hs : s.Sound) (ops : List (Operation W)) :
    s.copied <+: (ops.foldl (next id) s).copied := by
  induction ops generalizing s with
  | nil => exact List.prefix_refl _
  | cons op ops ih =>
      have hdoes := Operation.does_run id s op
      have hfirst : s.copied <+: (next id s op).copied := by
        rw [next, hdoes.copied hs]
        exact List.prefix_append ..
      exact hfirst.trans (ih (hdoes.sound hs))

variable [LawfulPathWeight W]

theorem settled_foldl (hs : s.Sound) (h : s.value.Settled id) (ops : List (Operation W)) :
    (ops.foldl (next id) s).value.Settled id := by
  induction ops generalizing s with
  | nil => exact h
  | cons op ops ih =>
      have hdoes := Operation.does_run id s op
      exact ih (hdoes.sound hs) (hdoes.settled hs h)

/-- Without a reset every weight that is adopted is below all before it. -/
theorem adopted_falls (hs : s.Sound) (hops : ∀ op ∈ ops, op.resets = false) :
    (∀ w ∈ adopted id s ops, less w s.value.weight) ∧
      (adopted id s ops).Pairwise fun w later => less later w := by
  induction ops generalizing s with
  | nil => exact ⟨nofun, .nil⟩
  | cons op ops ih =>
      obtain ⟨hop, hops⟩ := List.forall_mem_cons.mp hops
      have hdoes := Operation.does_run id s op
      have hnext := ih (hdoes.sound hs) hops
      unfold adopted
      generalize (op.perform id).run s = result at hdoes hnext ⊢
      cases hdoes with
      | zeroDistance | unreachable => cases hop
      | copy =>
          rw [left, hs.value_keep] at hnext
          exact hnext
      | refused => exact hnext
      | @adopted sent weight better finite =>
          rw [left, value_renew] at hnext
          obtain ⟨hbelow, hfalls⟩ := hnext
          dsimp only
          rw [value_renew]
          refine ⟨List.forall_mem_cons.mpr ⟨better, fun w hw => ?_⟩, .cons hbelow hfalls⟩
          exact LawfulPathWeight.less_trans (hbelow w hw) better

end Memory

/-- How a value fares under calls about one vertex, wherever they stop. -/
structure Course (id : VertexId) (ops : List (Operation W)) : Prop where
  settled : (Memory.after id ops).value.Settled id
  resets : (Memory.after id (ops ++ [.zeroDistance])).value = .source id ∧
    (Memory.after id (ops ++ [.unreachable])).value = .unreached
  adopts : ∀ sent weight, less weight (Memory.after id ops).value.weight → isFinite weight →
    (Memory.after id (ops ++ [.shorterPath sent weight])).value =
      { reachable := true, weight, path := sent ++ [id] }
  refused_iff : ∀ sent weight,
    (∃ fault t, ((Operation.shorterPath sent weight).perform id).run (.after id ops) =
      .error fault t) ↔
      less weight (Memory.after id ops).value.weight = false ∨ isFinite weight = false
  unharmed : ∀ {op : Operation W} {fault t},
    (op.perform id).run (.after id ops) = .error fault t →
      fault.kind = Operation.refusalKind id ∧ t = .after id ops
  falls : ∀ {before since}, ops = before ++ since → (∀ op ∈ since, op.resets = false) →
    ((Memory.after id before).value.weight :: Memory.adopted id (.after id before) since).Pairwise
      fun w later => less later w
  copied : (Memory.after id (ops ++ [.copy])).copied =
    (Memory.after id ops).copied ++ [(Memory.after id ops).value]
  copies : ∀ later, (Memory.after id ops).copied <+: (Memory.after id (ops ++ later)).copied

/-- **A path value is sound and only improves.** Whatever is called for one vertex, and in whatever
order: the value is the unreached one, or one with a finite weight and a path that ends at the
vertex. A shorter path is adopted if its weight is below the current one and finite; otherwise it is
refused, and a refusal leaves memory as it was. What it raises is a fault of the algorithm as long
as the vertex, which its message names, can be spelled. From one reset to the next the weights fall
with every path that is adopted. A copy shows the value as it was when it was taken, whatever is
called later. -/
theorem path_value_course [LawfulPathWeight W] (id : VertexId) (ops : List (Operation W)) :
    Course id ops where
  settled := Memory.settled_foldl Memory.sound_fresh .unreached ops
  resets := by
    rw [Memory.after_concat, Memory.after_concat]
    exact ⟨Memory.value_renew (.after id ops) (.source id),
      Memory.value_renew (.after id ops) .unreached⟩
  adopts := by
    intro sent weight hless hfinite
    rw [Memory.after_concat, Memory.next_of_better hless hfinite]
    exact Memory.value_renew ..
  refused_iff sent weight := Operation.refuses_iff
  unharmed := by
    intro op fault t hrun
    have hdoes := Operation.does_run id (.after id ops) op
    rw [hrun] at hdoes
    cases hdoes with
    | refused _ kind => exact ⟨kind, rfl⟩
  falls := by
    rintro before since rfl hsince
    exact List.pairwise_cons.mpr
      (Memory.adopted_falls (Memory.sound_foldl Memory.sound_fresh before) hsince)
  copied := by
    rw [Memory.after_concat]
    exact (Operation.does_run id _ .copy).copied (Memory.sound_foldl Memory.sound_fresh ops)
  copies := by
    intro later
    unfold Memory.after
    rw [List.foldl_append]
    exact Memory.copied_foldl (Memory.sound_foldl Memory.sound_fresh ops) later

/-- Two paths that are adopted, with a copy in between, and three that are refused: a NaN, an
infinity, and one that is no shorter. -/
def fiveCandidates : List (Operation Float) :=
  [.shorterPath [.long 0] 3, .copy, .shorterPath [.long 0] Binary64.nan,
    .shorterPath [.long 0, .long 2] 2, .shorterPath [.long 0] (Binary64.infinity true),
    .shorterPath [.long 0] 2]

theorem path_value_course_five_candidates :
    Course (.long 1) fiveCandidates ∧
      Memory.adopted (.long 1) .fresh fiveCandidates = [3, 2] ∧
      (Memory.after (.long 1) fiveCandidates).copied.map PathValue.path = [[.long 0, .long 1]] ∧
      (Memory.after (.long 1) fiveCandidates).value.path = [.long 0, .long 2, .long 1] := by
  refine ⟨path_value_course (.long 1) fiveCandidates, ?_, ?_, ?_⟩ <;> decide +kernel

/-- No path is shorter than an infinite one, but of a vertex that cannot be spelled that cannot be
said. Nor is a weight refused that is given as a whole number beyond the doubles: converting it
fails. -/
theorem overlong_vertex_is_refused_otherwise :
    (less (Binary64.infinity false) (Memory.fresh : Memory Float).value.weight = false ∧
      ∃ fault, ((Operation.shorterPath [] (Binary64.infinity false)).perform overlongVertex).run
        Memory.fresh = .error fault Memory.fresh ∧ fault.kind ≠ .algorithm) ∧
      ∃ fault, (Memory.fresh : Memory Float).value.adoptGiven (.long 0) [] (.int (10 ^ 400)) =
        .error fault ∧ fault.kind = .overflow := by
  have hless :
      less (Binary64.infinity false) (Memory.fresh : Memory Float).value.weight = false := by
    decide +kernel
  refine ⟨⟨hless, .longNumeral, ?_, by decide⟩, exists_fault (by decide +kernel)⟩
  rw [Operation.run_shorterPath, PathValue.adopt, PathValue.adoptWhen, hless]
  simp [PathValue.refusal, overlongVertex_unprintable]

end BulkPaths
