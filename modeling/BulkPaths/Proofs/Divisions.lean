import BulkPaths.Engine
import BulkPaths.Proofs.Spellings
import BulkPaths.Proofs.VertexSteps

/-!
# Divisions

Before a run begins its vertices are divided among the workers, by checksums of the spelled
identifiers. That can fail in two ways: a vertex cannot be spelled, or there are more workers than a
number of 32 bits can count. All vertices are spelled before the workers are counted.
-/

namespace BulkPaths

namespace VertexId

variable {id : VertexId} {count : Nat}

theorem exists_checksum (h : id.isPrintable) :
    ∃ checksum, id.checksum = .ok checksum ∧ ∀ count, id.owner count = workerOf count checksum := by
  have hchecksum : ∃ checksum, id.checksum = .ok checksum := by
    rw [checksum, octets, if_pos h]
    exact ⟨_, rfl⟩
  obtain ⟨checksum, hchecksum⟩ := hchecksum
  exact ⟨checksum, hchecksum, fun count => by rw [owner, hchecksum]⟩

theorem checksum_of_unprintable (h : id.isPrintable = false) :
    id.checksum = .error .longNumeral := by
  rw [checksum, octets, h]
  rfl

end VertexId

theorem mapM_checksum {ids : List VertexId} (h : ∀ v ∈ ids, v.isPrintable) :
    ∃ checksums, ids.mapM VertexId.checksum = .ok checksums ∧
      ∀ count, checksums.map (workerOf count) = ids.map (VertexId.owner count) := by
  induction ids with
  | nil => exact ⟨[], rfl, fun _ => rfl⟩
  | cons v ids ih =>
      obtain ⟨hv, hids⟩ := List.forall_mem_cons.mp h
      obtain ⟨checksum, hchecksum, howner⟩ := VertexId.exists_checksum hv
      obtain ⟨checksums, hchecksums, howners⟩ := ih hids
      refine ⟨checksum :: checksums, ?_, fun count => ?_⟩
      · rw [List.mapM_cons, hchecksum, hchecksums]
        rfl
      · rw [List.map_cons, List.map_cons, howner, howners]

theorem mapM_checksum_of_unprintable {ids : List VertexId} {v : VertexId} (hv : v ∈ ids)
    (h : v.isPrintable = false) : ids.mapM VertexId.checksum = .error .longNumeral := by
  induction ids with
  | nil => cases hv
  | cons first ids ih =>
      rw [List.mapM_cons]
      cases hfirst : first.isPrintable with
      | false =>
          rw [VertexId.checksum_of_unprintable hfirst]
          rfl
      | true =>
          obtain ⟨checksum, hchecksum, -⟩ := VertexId.exists_checksum hfirst
          have hlater : v ∈ ids := by
            rcases List.mem_cons.mp hv with rfl | hlater
            · rw [hfirst] at h
              cases h
            · exact hlater
          rw [hchecksum, ih hlater]
          rfl

namespace PropertyGraph

variable {g g' : PropertyGraph} {count : Nat} {fault : Fault}

/-- Every vertex with its owner. -/
def owners (g : PropertyGraph) (count : Nat) : OwnerTable :=
  g.ids.map fun v => (v, v.owner count)

/-- The vertices can be divided among so many workers. -/
structure Divisible (g : PropertyGraph) (count : Nat) : Prop where
  counted : count < workerLimit
  printable : ∀ v ∈ g.ids, v.isPrintable

/-- Why they cannot. -/
inductive Indivisible (g : PropertyGraph) (count : Nat) : Fault → Prop
  | unprintable {v : VertexId} (mem : v ∈ g.ids) (long : v.isPrintable = false) :
      Indivisible g count .longNumeral
  | overstaffed (printable : ∀ v ∈ g.ids, v.isPrintable) (uncounted : workerLimit ≤ count) :
      Indivisible g count .workersOutOfRange

theorem indivisible_workerLimit (h : ∀ v ∈ g.ids, v.isPrintable) :
    g.Indivisible workerLimit .workersOutOfRange := .overstaffed h (Nat.le_refl workerLimit)

theorem divisible_or (g : PropertyGraph) (count : Nat) :
    g.Divisible count ∨ ∃ fault, g.Indivisible count fault := by
  by_cases hprintable : ∀ v ∈ g.ids, v.isPrintable
  · rcases Nat.lt_or_ge count workerLimit with hcounted | huncounted
    · exact .inl ⟨hcounted, hprintable⟩
    · exact .inr ⟨_, .overstaffed hprintable huncounted⟩
  · push Not at hprintable
    obtain ⟨v, hv, hlong⟩ := hprintable
    exact .inr ⟨_, .unprintable hv (Bool.eq_false_of_not_eq_true hlong)⟩

theorem Divisible.ownerTable_eq (h : g.Divisible count) :
    g.ownerTable count = .ok (g.owners count) := by
  have hrange : (0 : Int) ≤ count ∧ (count : Int).toNat < workerLimit :=
    ⟨Int.natCast_nonneg count, h.counted⟩
  obtain ⟨checksums, hchecksums, howners⟩ := mapM_checksum h.printable
  have hpartition : partition g.ids count = .ok (g.ids.map (VertexId.owner count)) := by
    refine bind_eq_ok.mpr ⟨checksums, hchecksums, ?_⟩
    rw [if_pos hrange, Int.toNat_natCast, howners]
  rw [ownerTable, hpartition, owners, List.map_prod_left_eq_zip]
  rfl

theorem Indivisible.ownerTable_eq (h : g.Indivisible count fault) :
    g.ownerTable count = .error fault := by
  have hpartition : partition g.ids count = .error fault := by
    cases h with
    | unprintable hv hlong =>
        exact bind_eq_error.mpr (.inl (mapM_checksum_of_unprintable hv hlong))
    | overstaffed hprintable huncounted =>
        obtain ⟨checksums, hchecksums, -⟩ := mapM_checksum hprintable
        refine bind_eq_error.mpr (.inr ⟨checksums, hchecksums, if_neg fun hrange => ?_⟩)
        exact Nat.not_lt_of_le huncounted hrange.2
  rw [ownerTable, hpartition]
  rfl

theorem ownerTable_eq_error : g.ownerTable count = .error fault ↔ g.Indivisible count fault := by
  refine ⟨fun h => ?_, Indivisible.ownerTable_eq⟩
  rcases g.divisible_or count with hdivisible | ⟨found, hfound⟩
  · cases hdivisible.ownerTable_eq.symm.trans h
  · exact Except.error.inj (hfound.ownerTable_eq.symm.trans h) ▸ hfound

theorem Divisible.not_indivisible (h : g.Divisible count) : ¬g.Indivisible count fault :=
  fun hfault => by cases h.ownerTable_eq.symm.trans hfault.ownerTable_eq

/-- Which of the vertices come first does not matter. -/
theorem Divisible.congr (h : g.Divisible count) (hids : ∀ v, v ∈ g'.ids ↔ v ∈ g.ids) :
    g'.Divisible count :=
  ⟨h.counted, fun v hv => h.printable v ((hids v).mp hv)⟩

theorem Indivisible.congr (h : g.Indivisible count fault) (hids : ∀ v, v ∈ g'.ids ↔ v ∈ g.ids) :
    g'.Indivisible count fault := by
  cases h with
  | unprintable hv hlong => exact .unprintable ((hids _).mpr hv) hlong
  | overstaffed hprintable huncounted =>
      exact .overstaffed (fun v hv => hprintable v ((hids v).mp hv)) huncounted

theorem get?_owners (g : PropertyGraph) (count : Nat) {v : VertexId} (hv : v ∈ g.ids) :
    Assoc.get? v (g.owners count) = some (v.owner count) := by
  have hkeys : Assoc.keys (g.owners count) = g.ids := by
    simp [Assoc.keys, owners, Function.comp_def]
  refine Assoc.get?_of_mem ?_ (List.mem_map_of_mem hv)
  rw [hkeys]
  exact g.distinct

end PropertyGraph

end BulkPaths
