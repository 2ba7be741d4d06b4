import BulkPaths.Proofs.DoubleWeights
import BulkPaths.Proofs.Runs
import BulkPaths.Proofs.Walks

/-!
# Whole weights

Sums of whole doubles are exact below `2 ^ 53`, so a job whose weights are whole and small has exact
sums. One that counts edges is of this kind.
-/

namespace BulkPaths

open PathWeight Binary64

/-- The double is this whole number. -/
def Whole (n : Nat) (x : Float) : Prop := Upright x.toModel.unpack (units n 0)

variable {g : PropertyGraph} {job : Job Float} {n k bound : Nat} {x y : Float}

theorem whole_zero : Whole 0 zero := by
  rw [Whole, units, Nat.zero_mul]
  exact upright_zero

theorem whole_one : Whole 1 1 := by
  have hunpack : (1 : Float).toModel.unpack = .finite .positive (1 <<< 52) (-52) (by decide) := rfl
  have hunits : units (1 <<< 52) (-52) = units 1 0 := units_shiftLeft 1 (by decide) (by decide)
  rw [Whole, hunpack, ← hunits]
  exact .finite (by decide) ⟨by decide, by decide, .inl (by decide)⟩ (by decide)

theorem Whole.add (hx : Whole n x) (hy : Whole k y) (hsmall : n + k < 2 ^ 53) :
    Whole (n + k) (PathWeight.add x y) := by
  have hsum := upright_add hx hy
  have hunits : units n 0 + units k 0 = units (n + k) 0 := (Nat.add_mul _ _ _).symm
  have hlt := units_lt_top hsmall (e := 0) (by decide) (by decide)
  rwa [hunits, units, rounded_of_fits _ hsmall, ← units, Nat.min_eq_left hlt.le] at hsum

theorem Whole.less_iff (hx : Whole n x) (hy : Whole k y) : less x y ↔ n < k :=
  (upright_less_iff hx hy).trans (Nat.mul_lt_mul_right (Nat.two_pow_pos _))

theorem Walk.whole {source v : VertexId} {path : List VertexId}
    (hwhole : ∀ edge w, job.weigh edge = .ok w → ∃ n ≤ bound, Whole n w)
    (h : Walk (job.Hop g) source path v x) (hsmall : bound * path.length < 2 ^ 53) :
    ∃ n, n + bound ≤ bound * path.length ∧ Whole n x := by
  induction h with
  | here => exact ⟨0, by simp, whole_zero⟩
  | step before last ih =>
      rw [List.length_append, List.length_singleton, Nat.mul_add, Nat.mul_one] at hsmall ⊢
      obtain ⟨n, hn, hx⟩ := ih (by omega)
      obtain ⟨_, _, edge, _, _, hweigh⟩ := last
      obtain ⟨k, hk, hw⟩ := hwhole edge _ hweigh
      exact ⟨n + k, by omega, hx.add hw (by omega)⟩

theorem exact_of_whole (hwhole : ∀ edge w, job.weigh edge = .ok w → ∃ n ≤ bound, Whole n w)
    (hsmall : bound * g.vertexCount < 2 ^ 53) : job.Exact g := by
  intro u v p q x y w hp hq hplength hqlength hhop hless _
  have hplength := Nat.mul_le_mul_left bound hplength
  have hqlength := Nat.mul_le_mul_left bound hqlength
  obtain ⟨n, hn, hx⟩ := hp.whole hwhole (by omega)
  obtain ⟨k, hk, hy⟩ := hq.whole hwhole (by omega)
  obtain ⟨_, _, edge, _, _, hweigh⟩ := hhop
  obtain ⟨a, ha, hw⟩ := hwhole edge _ hweigh
  rw [(hx.add hw (by omega)).less_iff (hy.add hw (by omega))]
  rw [hx.less_iff hy] at hless
  omega

/-- A job in which every edge counts one. -/
def Config.counting (source : VertexId) (targets : Targets) : Config where
  sourceText := source.toText
  targetText := targets.toText
  propertyText := ""
  source
  targets
  weights :=
    { property := ""
      default := .real 1
      positive := by
        intro x hx
        cases hx
        decide +kernel }

theorem counting_exact (source : VertexId) (targets : Targets) (hsmall : g.vertexCount < 2 ^ 53) :
    (Config.counting source targets).job.Exact g := by
  have hwhole : ∀ edge w, (Config.counting source targets).job.weigh edge = .ok w →
      ∃ n ≤ 1, Whole n w := by
    intro edge w hweigh
    cases hweigh
    exact ⟨1, Nat.le_refl 1, whole_one⟩
  apply exact_of_whole hwhole
  omega

/-- Two paths of two edges each from one end to the other. -/
def diamond : PropertyGraph :=
  (((PropertyGraph.empty.connect (.long 0) (.long 1) []).connect (.long 0) (.long 2) []).connect
    (.long 1) (.long 3) []).connect (.long 2) (.long 3) []

def diamondJob : Job Float := (Config.counting (.long 0) .all).job

def diamondLimits : Limits :=
  { workers := 2, staffed := Nat.two_pos, maxSupersteps := 4, stopEarly := false }

theorem diamond_printable : ∀ v ∈ diamond.ids, v.isPrintable := by decide +kernel

theorem diamond_divisible : diamond.Divisible diamondLimits.workers :=
  ⟨by decide, diamond_printable⟩

theorem workerLimit_pos : 0 < workerLimit := by decide

/-- One more worker than can be counted. -/
def crowded : EngineConfig :=
  { EngineConfig.standard with workers := workerLimit, staffed := workerLimit_pos }

theorem diamond_run : ∃ result, (Run.ofJob diamond diamondJob diamondLimits).outcome = .ok result ∧
    result.supersteps = 3 := by
  have hsupersteps : (Run.ofJob diamond diamondJob diamondLimits).outcome.toOption.map
      Result.supersteps = some 3 := by decide +kernel
  generalize (Run.ofJob diamond diamondJob diamondLimits).outcome = outcome at hsupersteps ⊢
  cases outcome with
  | error => cases hsupersteps
  | ok result => exact ⟨result, rfl, Option.some.inj hsupersteps⟩

theorem diamond_boundary : ∃ s, Run.Boundary diamond diamondJob diamondLimits 2 s := by
  obtain ⟨result, hresult, hsupersteps⟩ := diamond_run
  obtain ⟨k, s, h, _, rfl⟩ := Run.exists_boundary_of_result hresult
  have hlength : k + 1 = 3 := h.length_history.symm.trans hsupersteps
  obtain rfl : k = 2 := by omega
  exact ⟨s, h⟩

end BulkPaths
