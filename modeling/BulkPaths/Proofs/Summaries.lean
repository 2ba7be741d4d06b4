import BulkPaths.Proofs.ReachedSets
import BulkPaths.Proofs.Spellings
import BulkPaths.Proofs.StrictJson
import BulkPaths.Proofs.SuperstepCounts
import BulkPaths.Summary

/-!
# The summary of a run

The summary lists the targets that the graph has, or whatever was reached, and tells of each whether
it was reached, at what weight and on which path. That these three agree is not the work of the
summary, which copies them from the values: it is what every barrier of a run leaves behind. As text
the summary is JSON without names of numbers, since weights that are not finite are left out, and it
is read back as long as its whole numbers can be spelled; those are identifiers and counts, and the
counts of a run cannot outgrow the graph by far.
-/

namespace BulkPaths

open Decimal

namespace Value

variable {items : List Value} {fields : Properties}

/-- The value under a name of a record. -/
def member? (name : String) : Value → Option Value
  | .record fields => Assoc.get? name fields
  | _ => none

end Value

section Listing

variable {W : Type} {result : Result W} {v : VertexId} {value : PathValue W}

namespace Result

/-- The run found a path to the vertex. -/
def Finds (result : Result W) (v : VertexId) : Prop :=
  ∃ value, (v, value) ∈ result.values ∧ value.reachable

theorem finds_iff (hdistinct : (Assoc.keys result.values).Nodup)
    (hvalue : (v, value) ∈ result.values) : result.Finds v ↔ value.reachable := by
  constructor
  · rintro ⟨other, hother, hreachable⟩
    have hsame := (Assoc.get?_of_mem hdistinct hother).symm.trans
      (Assoc.get?_of_mem hdistinct hvalue)
    rwa [← Option.some.inj hsame]
  · exact fun hreachable => ⟨value, hvalue, hreachable⟩

theorem mem_targetsValues : (v, value) ∈ result.targetsValues ↔ (v, value) ∈ result.values ∧
    if result.targets = .all then value.reachable = true else v ∈ result.targets.ids := by
  rw [targetsValues, List.mem_mergeSort, chosen]
  split
  case h_1 hall => rw [if_pos hall, List.mem_filter]
  case h_2 hsome => rw [if_neg hsome, List.mem_filter, Targets.contains_iff]

theorem mem_keys_targetsValues : v ∈ Assoc.keys result.targetsValues ↔
    v ∈ Assoc.keys result.values ∧
      if result.targets = .all then result.Finds v else v ∈ result.targets.ids := by
  have hkeys {entries : List (VertexId × PathValue W)} :
      v ∈ Assoc.keys entries ↔ ∃ value, (v, value) ∈ entries := by simp [Assoc.keys]
  simp only [hkeys, mem_targetsValues]
  split
  case isTrue =>
    refine ⟨fun hfinds => ⟨?_, hfinds⟩, And.right⟩
    obtain ⟨value, hvalue, -⟩ := hfinds
    exact ⟨value, hvalue⟩
  case isFalse => exact exists_and_right

/-- A vertex is listed once at most, and after all that are smaller. -/
theorem increasing_targetsValues (hdistinct : (Assoc.keys result.values).Nodup) :
    IdSet.Increasing (Assoc.keys result.targetsValues) := by
  have hchosen : (Assoc.keys result.chosen).Nodup := by
    unfold chosen
    split <;> exact hdistinct.sublist (List.filter_sublist.map Prod.fst)
  have hdifferent : (Assoc.keys result.targetsValues).Nodup :=
    ((List.mergeSort_perm _ _).map Prod.fst).nodup_iff.mpr hchosen
  have hsorted : result.targetsValues.Pairwise fun a b => (a.1.cmp b.1).isLE = true := by
    have hbelow : (fun a b : VertexId × PathValue W => a.1.cmp b.1 != .gt) =
        fun a b => (a.1.cmp b.1).isLE := by
      funext a b
      cases a.1.cmp b.1 <;> rfl
    rw [targetsValues, hbelow]
    refine List.pairwise_mergeSort (fun a b c => Std.TransCmp.isLE_trans) ?_ result.chosen
    exact fun a b => Bool.or_eq_true_iff.mpr (isLE_total VertexId.cmp a.1 b.1)
  refine List.pairwise_map.mpr (hsorted.imp₂ ?_ (List.pairwise_map.mp hdifferent))
  intro a b hle hne
  cases hcmp : a.1.cmp b.1 with
  | lt => rfl
  | eq => exact absurd (Std.LawfulEqCmp.eq_of_compare hcmp) hne
  | gt =>
      rw [hcmp] at hle
      cases hle

end Result

end Listing

section Entries

variable {v source : VertexId} {value : PathValue Float} {depth : Nat}

/-- The value is that of no path, or of one from the source to the vertex whose weight is finite. -/
def Conclusive (source v : VertexId) (value : PathValue Float) : Prop :=
  value = .unreached ∨ value.reachable ∧ value.weight.isFinite ∧
    value.path.head? = some source ∧ value.path.getLast? = some v

/-- The entry is about the vertex, and its parts agree on whether that was reached. -/
structure Consistent (source v : VertexId) (reached : Prop) (entry : Value) : Prop where
  id : entry.member? "id" = some v.summaryValue
  category : entry.member? "id_type" = some (.text v.categoryName)
  agreed : ∃ reachable weight path, entry.member? "reachable" = some (.bool reachable) ∧
    entry.member? "total_weight" = some weight ∧ entry.member? "path" = some (.list path) ∧
    (reachable ↔ reached) ∧ (reachable ↔ weight ≠ .null) ∧ (reachable ↔ path ≠ []) ∧
    (reachable → path.head? = some source.summaryValue ∧ path.getLast? = entry.member? "id")

theorem consistent_summaryEntry (h : Conclusive source v value) :
    Consistent source v value.reachable (summaryEntry v value) := by
  refine ⟨rfl, rfl, value.reachable, _, _, rfl, rfl, rfl, Iff.rfl, ?_⟩
  rcases h with rfl | ⟨hreachable, hfinite, hhead, hlast⟩
  · have hweight : ¬(PathValue.unreached : PathValue Float).weight.isFinite :=
      Bool.eq_false_iff.mp (PathWeight.infinite_not_finite (W := Float))
    rw [if_neg hweight]
    exact ⟨by simp [PathValue.unreached], by simp [PathValue.unreached], nofun⟩
  · refine ⟨?_, ?_, fun _ => ⟨?_, ?_⟩⟩
    · rw [if_pos hfinite]
      exact iff_of_true hreachable (Value.noConfusion ·)
    · refine iff_of_true hreachable fun hnone => ?_
      rw [List.map_eq_nil_iff.mp hnone] at hhead
      cases hhead
    · rw [List.head?_map, hhead]
      rfl
    · rw [List.getLast?_map, hlast]
      rfl

end Entries

section Texts

open Json

variable {v : VertexId} {value : PathValue Float} {counters : Counters} {result : Result Float}
  {depth : Nat}

theorem allFinite_summaryValue (v : VertexId) : AllFinite v.summaryValue := by
  cases v with
  | long n => exact .int n
  | utf8 s => exact .text s
  | uuid u => exact .text _

theorem allFinite_summaryEntry (v : VertexId) (value : PathValue Float) :
    AllFinite (summaryEntry v value) := by
  have hweight : AllFinite (if value.weight.isFinite then .real value.weight else .null) := by
    split
    case isTrue hfinite => exact .real hfinite
    case isFalse => exact .null
  have hpath : AllFinite (.list (value.path.map VertexId.summaryValue)) :=
    .list (List.forall_mem_map.mpr fun u _ => allFinite_summaryValue u)
  refine .record ?_
  simp only [List.forall_mem_cons]
  exact ⟨allFinite_summaryValue v, .text _, .bool _, hweight, hpath, List.forall_mem_nil _⟩

theorem allFinite_fields (counters : Counters) : AllFinite (.record counters.fields) := by
  refine .record ?_
  simp only [Counters.fields, List.forall_mem_cons]
  exact ⟨.int _, .int _, .int _, .int _, List.forall_mem_nil _⟩

/-- Weights that are not finite are left out. -/
theorem allFinite_summary (result : Result Float) : AllFinite result.summary := by
  have htargets : ∀ entry ∈ result.targetsValues, AllFinite (summaryEntry entry.1 entry.2) :=
    fun entry _ => allFinite_summaryEntry entry.1 entry.2
  refine .record ?_
  simp only [List.forall_mem_cons]
  exact ⟨.text _, .text _, .int _, .list (List.forall_mem_map.mpr htargets), allFinite_fields _,
    List.forall_mem_nil _⟩

theorem isSpellable_summaryEntry : (summaryEntry v value).isSpellable ↔
    v.summaryValue.isSpellable ∧ ∀ u ∈ value.path, u.summaryValue.isSpellable := by
  have hweight :
      (if value.weight.isFinite then Value.real value.weight else .null).isSpellable = true := by
    split <;> rfl
  rw [summaryEntry, Value.isSpellable_record]
  simp only [List.forall_mem_cons, hweight, Value.isSpellable_list, List.forall_mem_map,
    Value.isSpellable_bool, Value.isSpellable_text, List.not_mem_nil, true_and, and_true,
    false_imp_iff, implies_true]

theorem isSpellable_fields : (Value.record counters.fields).isSpellable ↔
    Printable counters.sent ∧ Printable counters.delivered ∧ Printable counters.adoptions ∧
      Printable counters.computed := by
  rw [Value.isSpellable_record]
  simp only [Counters.fields, List.forall_mem_cons, Value.isSpellable_int, List.not_mem_nil,
    false_imp_iff, implies_true, and_true]

theorem isSpellable_summary : result.summary.isSpellable ↔ Printable result.supersteps ∧
    (∀ entry ∈ result.targetsValues, (summaryEntry entry.1 entry.2).isSpellable) ∧
      (Value.record result.counters.fields).isSpellable := by
  rw [Result.summary, Value.isSpellable_record]
  simp only [List.forall_mem_cons, Value.isSpellable_text, Value.isSpellable_int,
    Value.isSpellable_list, List.forall_mem_map, List.not_mem_nil, true_and, and_true,
    false_imp_iff, implies_true]

theorem fits_summaryValue (h : v.summaryValue.isSpellable) : Fits depth v.summaryValue := by
  cases v with
  | long n => exact .int (Value.isSpellable_int.mp h)
  | utf8 s => exact .text s
  | uuid u => exact .text _

theorem fits_summaryEntry (h : (summaryEntry v value).isSpellable) :
    Fits (depth + 2) (summaryEntry v value) := by
  obtain ⟨hid, hpath⟩ := isSpellable_summaryEntry.mp h
  have hpath : Fits (depth + 1) (.list (value.path.map VertexId.summaryValue)) :=
    .list (List.forall_mem_map.mpr fun u hu => fits_summaryValue (hpath u hu))
  have hweight :
      Fits (depth + 1) (if value.weight.isFinite then .real value.weight else .null) := by
    split
    case isTrue => exact .real _
    case isFalse => exact .null
  refine .record (by simp [Assoc.keys]) ?_
  simp only [List.forall_mem_cons]
  exact ⟨fits_summaryValue hid, .text _, .bool _, hweight, hpath, List.forall_mem_nil _⟩

theorem fits_fields (h : (Value.record counters.fields).isSpellable) :
    Fits (depth + 1) (.record counters.fields) := by
  obtain ⟨hsent, hdelivered, hadoptions, hcomputed⟩ := isSpellable_fields.mp h
  refine .record (by simp [Counters.fields, Assoc.keys]) ?_
  simp only [Counters.fields, List.forall_mem_cons]
  exact ⟨.int hsent, .int hdelivered, .int hadoptions, .int hcomputed, List.forall_mem_nil _⟩

theorem fits_summary (h : result.summary.isSpellable) : Fits (depth + 4) result.summary := by
  obtain ⟨hsupersteps, htargets, hcounters⟩ := isSpellable_summary.mp h
  have htargets : Fits (depth + 3)
      (.list (result.targetsValues.map fun entry => summaryEntry entry.1 entry.2)) :=
    .list (List.forall_mem_map.mpr fun entry hentry => fits_summaryEntry (htargets entry hentry))
  refine .record (by simp [Assoc.keys]) ?_
  simp only [List.forall_mem_cons]
  exact ⟨.text _, .text _, .int hsupersteps, htargets, fits_fields hcounters, List.forall_mem_nil _⟩

end Texts

namespace Run

variable {g : PropertyGraph} {job : Job Float} {limits : Limits} {k : Nat} {s : State Float}
  {result : Result Float}

namespace Boundary

theorem conclusive (h : Boundary g job limits k s) (v : VertexId) :
    Conclusive job.source v (s.value v) := by
  refine (h.tracked.values v).imp_right fun hgrounded => ?_
  exact ⟨hgrounded.reachable, hgrounded.finite, hgrounded.walk.head?, hgrounded.walk.getLast?⟩

/-- The paths of a run are within the graph. -/
theorem path_subset_ids (h : Boundary g job limits k s) (v : VertexId) :
    (s.value v).path ⊆ g.ids := by
  rcases h.tracked.values v with hnone | hgrounded
  · rw [hnone]
    exact List.nil_subset _
  · exact fun u hu => (List.mem_filter.mp (h.tracked.path_subset hgrounded.reachable hu)).1

/-- The vertices were spelled when they were divided among the workers. -/
theorem isSpellable_summary (h : Boundary g job limits k s)
    (hsize : (g.vertexCount + 1) * g.size < 10 ^ digitLimit) :
    (Run.result g job s).summary.isSpellable := by
  have hspelled : ∀ v ∈ g.ids, v.summaryValue.isSpellable := by
    rintro (n | s | u) hv
    · exact h.divided.printable _ hv
    · rfl
    · rfl
  have hle : (k + 1) * g.size ≤ (g.vertexCount + 1) * g.size :=
    Nat.mul_le_mul_right _ (Nat.succ_le_succ h.le_vertexCount)
  have hcounted {n : Nat} (hn : n ≤ (k + 1) * g.size) : Printable n := printable_of_lt (by omega)
  have hcounters := h.counters_within
  refine BulkPaths.isSpellable_summary.mpr ⟨?_, fun entry hentry => ?_, isSpellable_fields.mpr ?_⟩
  · have hsupersteps : (Run.result g job s).supersteps = k + 1 := h.length_history
    rw [hsupersteps]
    rcases Nat.eq_zero_or_pos g.size with hempty | hpos
    · have hvertices := h.le_vertexCount
      unfold PropertyGraph.size at hempty
      have hfirst : k = 0 := by omega
      rw [hfirst]
      exact printable_of_lt (Nat.one_lt_pow (by decide) (by decide))
    · exact hcounted (Nat.le_mul_of_pos_right _ hpos)
  · obtain ⟨hvalue, -⟩ := Result.mem_targetsValues.mp hentry
    obtain ⟨hid, hpath⟩ := mem_result_values.mp hvalue
    rw [isSpellable_summaryEntry, hpath]
    exact ⟨hspelled _ hid, fun u hu => hspelled u (h.path_subset_ids _ hu)⟩
  · exact ⟨hcounted hcounters.sent, hcounted hcounters.delivered, hcounted hcounters.adoptions,
      hcounted hcounters.computed⟩

theorem listed (h : Boundary g job limits k s) :
    ∃ listed entries, IdSet.Increasing listed ∧
      (∀ v, v ∈ listed ↔ v ∈ g.ids ∧
        if job.targets = .all then (Run.result g job s).Finds v else v ∈ job.targets.ids) ∧
      (Run.result g job s).summary.member? "targets" = some (.list entries) ∧
      List.Forall₂ (fun v entry => Consistent job.source v ((Run.result g job s).Finds v) entry)
        listed entries := by
  have hdistinct : (Assoc.keys (Run.result g job s).values).Nodup := nodup_keys_result_values
  have hincreasing := Result.increasing_targetsValues hdistinct
  refine ⟨Assoc.keys (Run.result g job s).targetsValues, _, hincreasing, fun v => ?_, rfl, ?_⟩
  · rw [Result.mem_keys_targetsValues, keys_result_values]
    rfl
  · refine List.forall₂_map_left_iff.mpr (List.forall₂_map_right_iff.mpr ?_)
    refine List.forall₂_same.mpr fun entry hentry => ?_
    obtain ⟨hvalue, -⟩ := Result.mem_targetsValues.mp hentry
    rw [Result.finds_iff hdistinct hvalue]
    obtain ⟨-, hvalue⟩ := mem_result_values.mp hvalue
    have hconclusive := h.conclusive entry.1
    rw [← hvalue] at hconclusive
    exact consistent_summaryEntry hconclusive

end Boundary

/-- **The summary is consistent.** Whatever the job, the graph and the limits, the summary of a run
that ends lists the targets that the graph has, or what was reached, each once and in order; it
tells of each consistently what the run found; and its text is JSON without names of numbers, which
is read back as the summary. For the last the text has to exist: whole numbers of too many digits
cannot be spelled. The identifiers have none, since the vertices are spelled to divide them among
the workers, and the counts are short unless the graph is too large for any machine to hold. -/
theorem summary_is_consistent (h : (Run.ofJob g job limits).outcome = .ok result) :
    (∃ listed entries, IdSet.Increasing listed ∧
      (∀ v, v ∈ listed ↔ v ∈ g.ids ∧
        if job.targets = .all then result.Finds v else v ∈ job.targets.ids) ∧
      result.summary.member? "targets" = some (.list entries) ∧
      List.Forall₂ (fun v entry => Consistent job.source v (result.Finds v) entry)
        listed entries) ∧
    'N' ∉ Json.outside false result.summaryText.toList ∧
    'I' ∉ Json.outside false result.summaryText.toList ∧
    (result.summary.isSpellable → ∀ depth, 4 ≤ depth →
      Json.readWithin depth result.summaryText.toList = .ok result.summary) ∧
    ((g.vertexCount + 1) * g.size < 10 ^ digitLimit → result.summary.isSpellable) := by
  obtain ⟨k, s, boundary, -, rfl⟩ := exists_boundary_of_result h
  obtain ⟨hnan, hinfinity⟩ := Json.unnamed_outside (allFinite_summary (Run.result g job s))
  refine ⟨boundary.listed, hnan, hinfinity, fun hspellable depth hdepth => ?_,
    boundary.isSpellable_summary⟩
  exact Json.readWithin_write ((fits_summary hspellable).mono hdepth)

theorem summary_is_consistent_diamond : ∃ result,
    (Run.ofJob diamond diamondJob diamondLimits).outcome = .ok result ∧
      ∃ listed entries, IdSet.Increasing listed ∧
        (∀ v, v ∈ listed ↔ v ∈ diamond.ids ∧ result.Finds v) ∧
        result.summary.member? "targets" = some (.list entries) ∧
        List.Forall₂ (fun v entry => Consistent (.long 0) v (result.Finds v) entry)
          listed entries ∧
        Json.read result.summaryText.toList = .ok result.summary := by
  obtain ⟨result, hresult, -⟩ := diamond_run
  obtain ⟨hlisting, -, -, hread, hspellable⟩ := summary_is_consistent hresult
  obtain ⟨listed, entries, hincreasing, hlisted, hentries, hconsistent⟩ := hlisting
  have hsize : (diamond.vertexCount + 1) * diamond.size < 10 ^ digitLimit := by decide +kernel
  exact ⟨result, hresult, listed, entries, hincreasing, hlisted, hentries, hconsistent,
    hread (hspellable hsize) _ (by decide)⟩

end Run

end BulkPaths
