import BulkPaths.Weight
import BulkPaths.Proofs.DoublePacking
import BulkPaths.Proofs.WeightLaws

/-!
# Doubles as path weights

From zero on, doubles are ordered by their size in units of the smallest one, and infinity stands
where the next double above the largest would. A sum is the size rounded, and cut there. The laws of
path weights follow.
-/

namespace BulkPaths.Binary64

open Float.Model (Format UnpackedFloat)
open Float.Model.UnpackedFloat

/-- The size that infinity stands for. -/
def top : Nat := 2 ^ 2098

/-- Where a double stands, in units of the smallest one. -/
def rank : UnpackedFloat → Int
  | .infinity sign => sign.apply top
  | .notANumber => 0
  | .zero _ => 0
  | .finite sign m e _ => sign.apply (units m e)

theorem top_pos : 0 < top := by
  unfold top
  positivity

theorem units_pos {m : Nat} {e : Int} (hpos : 0 < m) : 0 < units m e :=
  Nat.mul_pos hpos (Nat.two_pow_pos _)

theorem units_lt_two_pow {m : Nat} {e : Int} (hfits : m < 2 ^ 53) (hleast : -1074 ≤ e) {k : Nat}
    (hk : e + 1127 ≤ k) : units m e < 2 ^ k := by
  calc units m e < 2 ^ 53 * 2 ^ (e + 1074).toNat :=
        Nat.mul_lt_mul_of_pos_right hfits (Nat.two_pow_pos _)
    _ = 2 ^ (53 + (e + 1074).toNat) := (Nat.pow_add _ _ _).symm
    _ ≤ 2 ^ k := Nat.pow_le_pow_right Nat.two_pos (by omega)

theorem units_lt_top {m : Nat} {e : Int} (hfits : m < 2 ^ 53) (hleast : -1074 ≤ e)
    (hrange : e ≤ 971) : units m e < top :=
  units_lt_two_pow hfits hleast (by omega)

theorem Normalized.units_lt_top {m : Nat} {e : Int} (h : Normalized m e) (hrange : e ≤ 971) :
    units m e < top :=
  Binary64.units_lt_top h.fits h.least_le hrange

theorem Normalized.two_pow_le_units {m : Nat} {e : Int} (h : Normalized m e) {k : Nat}
    (hk : k ≤ e + 1126) (hcoarse : -1074 < e) : 2 ^ k ≤ units m e := by
  have hfull : 2 ^ 52 ≤ m := h.full.resolve_right hcoarse.ne'
  calc 2 ^ k ≤ 2 ^ (52 + (e + 1074).toNat) := Nat.pow_le_pow_right Nat.two_pos (by omega)
    _ = 2 ^ 52 * 2 ^ (e + 1074).toNat := Nat.pow_add _ _ _
    _ ≤ units m e := Nat.mul_le_mul_right _ hfull

theorem Normalized.top_le_units {m : Nat} {e : Int} (h : Normalized m e) (hlarge : 971 < e) :
    top ≤ units m e :=
  h.two_pow_le_units (by omega) (by omega)

theorem Normalized.units_lt_units {m m' : Nat} {e e' : Int} (h : Normalized m e)
    (h' : Normalized m' e') (hless : e < e') : units m e < units m' e' := by
  have hleast := h.least_le
  calc units m e < 2 ^ (e + 1127).toNat := units_lt_two_pow h.fits h.least_le (by omega)
    _ ≤ units m' e' := h'.two_pow_le_units (by omega) (by omega)

/-- Exponents first, then significands: that is the order of sizes. -/
theorem Normalized.compare_eq {m m' : Nat} {e e' : Int} (h : Normalized m e)
    (h' : Normalized m' e') :
    (compare e e').then (compare m m') = compare (units m e : Int) (units m' e') := by
  rcases lt_trichotomy e e' with hless | rfl | hless
  · have hunits := Int.ofNat_lt.mpr (h.units_lt_units h' hless)
    rw [compare_lt_iff_lt.mpr hless, compare_lt_iff_lt.mpr hunits]
    rfl
  · have hscale : 0 < 2 ^ (e + 1074).toNat := Nat.two_pow_pos _
    rw [compare_eq_iff_eq.mpr rfl, Ordering.then]
    rcases lt_trichotomy m m' with hless | rfl | hless
    · have hunits := Int.ofNat_lt.mpr (Nat.mul_lt_mul_of_pos_right hless hscale)
      exact (compare_lt_iff_lt.mpr hless).trans (compare_lt_iff_lt.mpr hunits).symm
    · exact (compare_eq_iff_eq.mpr rfl).trans (compare_eq_iff_eq.mpr rfl).symm
    · have hunits := Int.ofNat_lt.mpr (Nat.mul_lt_mul_of_pos_right hless hscale)
      exact (compare_gt_iff_gt.mpr hless).trans (compare_gt_iff_gt.mpr hunits).symm
  · have hunits := Int.ofNat_lt.mpr (h'.units_lt_units h hless)
    rw [compare_gt_iff_gt.mpr hless, compare_gt_iff_gt.mpr hunits]
    rfl

theorem swap_compare (x y : Int) : (compare x y).swap = compare (-x) (-y) := by
  rcases lt_trichotomy x y with hless | rfl | hless
  · rw [compare_lt_iff_lt.mpr hless, compare_gt_iff_gt.mpr (Int.neg_lt_neg hless)]
    rfl
  · rw [compare_eq_iff_eq.mpr rfl, compare_eq_iff_eq.mpr rfl]
    rfl
  · rw [compare_gt_iff_gt.mpr hless, compare_lt_iff_lt.mpr (Int.neg_lt_neg hless)]
    rfl

theorem compare_eq_rank {u u' : UnpackedFloat} (h : Packable u) (h' : Packable u')
    (hnumber : u ≠ .notANumber) (hnumber' : u' ≠ .notANumber) :
    u.compare u' = some (compare (rank u) (rank u')) := by
  have htop := top_pos
  have hless {x y : Int} (hxy : x < y) : some Ordering.lt = some (compare x y) :=
    congrArg some (compare_lt_iff_lt.mpr hxy).symm
  have hgreater {x y : Int} (hxy : y < x) : some Ordering.gt = some (compare x y) :=
    congrArg some (compare_gt_iff_gt.mpr hxy).symm
  have hequal (x : Int) : some Ordering.eq = some (compare x x) :=
    congrArg some (compare_eq_iff_eq.mpr rfl).symm
  have hsize {m : Nat} {e : Int} (hpos : 0 < m) (hnormalized : Normalized m e) (hrange : e ≤ 971) :
      0 < units m e ∧ units m e < top :=
    ⟨units_pos hpos, hnormalized.units_lt_top hrange⟩
  cases h with
  | notANumber => exact absurd rfl hnumber
  | infinity sign | zero sign =>
      cases h' with
      | notANumber => exact absurd rfl hnumber'
      | infinity sign' | zero sign' =>
          cases sign <;> cases sign' <;> simp only [rank, Sign.apply] <;>
            first | exact hequal _ | exact hless (by omega) | exact hgreater (by omega)
      | finite sign' hpos' hnormalized' hrange' =>
          have hsize' := hsize hpos' hnormalized' hrange'
          cases sign <;> cases sign' <;> simp only [rank, Sign.apply] <;>
            first | exact hless (by omega) | exact hgreater (by omega)
  | finite sign hpos hnormalized hrange =>
      have hsizes := hsize hpos hnormalized hrange
      cases h' with
      | notANumber => exact absurd rfl hnumber'
      | infinity sign' | zero sign' =>
          cases sign <;> cases sign' <;> simp only [rank, Sign.apply] <;>
            first | exact hless (by omega) | exact hgreater (by omega)
      | finite sign' hpos' hnormalized' hrange' =>
          have hsizes' := hsize hpos' hnormalized' hrange'
          have hcompare := hnormalized.compare_eq hnormalized'
          cases sign <;> cases sign' <;> simp only [rank, Sign.apply]
          · refine congrArg some ((congrArg Ordering.swap hcompare).trans ?_)
            exact swap_compare _ _
          · exact hless (by omega)
          · exact hgreater (by omega)
          · exact congrArg some hcompare

/-- A double from zero on, and its size. -/
inductive Upright : UnpackedFloat → Nat → Prop
  | infinity : Upright (.infinity .positive) top
  | zero : Upright (.zero .positive) 0
  | finite {m : Nat} {e : Int} (hpos : 0 < m) (hnormalized : Normalized m e) (hrange : e ≤ 971) :
      Upright (.finite .positive m e hpos) (units m e)

namespace Upright

variable {u v : UnpackedFloat} {n k : Nat}

theorem number (h : Upright u n) : u ≠ .notANumber := by
  cases h <;> exact UnpackedFloat.noConfusion

theorem rank_eq (h : Upright u n) : rank u = n := by
  cases h <;> rfl

theorem le_top (h : Upright u n) : n ≤ top := by
  cases h with
  | infinity => exact Nat.le_refl _
  | zero => exact Nat.zero_le _
  | finite _ hnormalized hrange => exact (hnormalized.units_lt_top hrange).le

theorem rounded_eq (h : Upright u n) : rounded n = n := by
  cases h with
  | infinity =>
      have hfits : rounded (1 * 2 ^ 2098) = 1 * 2 ^ 2098 := rounded_of_fits 2098 (by decide)
      rwa [Nat.one_mul] at hfits
  | zero => exact rounded_of_grid_eq_zero rfl
  | finite _ hnormalized _ => exact hnormalized.rounded_units

/-- The size says which double it is. -/
theorem unique (h : Upright u n) (h' : Upright v k) (hsame : n = k) : u = v := by
  have htop := top_pos
  cases h with
  | infinity =>
      cases h' with
      | infinity => rfl
      | zero => omega
      | finite hpos' hnormalized' hrange' =>
          have hlt := hnormalized'.units_lt_top hrange'
          omega
  | zero =>
      cases h' with
      | infinity => omega
      | zero => rfl
      | @finite m' e' hpos' =>
          have hpos := units_pos (e := e') hpos'
          omega
  | @finite m e hpos hnormalized hrange =>
      cases h' with
      | infinity =>
          have hlt := hnormalized.units_lt_top hrange
          omega
      | zero =>
          have hpos' := units_pos (e := e) hpos
          omega
      | @finite m' e' hpos' hnormalized' hrange' =>
          rcases lt_trichotomy e e' with hless | rfl | hless
          · exact absurd hsame (hnormalized.units_lt_units hnormalized' hless).ne
          · have hsignificand : m = m' := Nat.eq_of_mul_eq_mul_right (Nat.two_pow_pos _) hsame
            subst hsignificand
            rfl
          · exact absurd hsame (hnormalized'.units_lt_units hnormalized hless).ne'

theorem pack_finite {m : Nat} {e : Int} (hpos : 0 < m) (h : Normalized m e) :
    Upright (unpack Format.binary64 (pack Format.binary64 (.finite .positive m e hpos)))
      (min (units m e) top) := by
  rw [unpack_pack_finite _ _ h]
  split_ifs with hrange
  · rw [Nat.min_eq_left (h.units_lt_top hrange).le]
    exact .finite hpos h hrange
  · rw [Nat.min_eq_right (h.top_le_units (by omega))]
    exact .infinity

theorem repack (h : Upright u n) :
    Upright (unpack Format.binary64 (pack Format.binary64 u)) n := by
  have hle := h.le_top
  cases h with
  | infinity => exact .infinity
  | zero => exact .zero
  | finite hpos hnormalized hrange =>
      have hpacked := pack_finite hpos hnormalized
      rwa [Nat.min_eq_left hle] at hpacked

/-- Two significands are added on the finer of their grids. -/
theorem add_finite {m m' : Nat} {e e' : Int} (hpos : 0 < m) (hpos' : 0 < m')
    (hleast : -1074 ≤ e) (hleast' : -1074 ≤ e') :
    ∃ sum, 0 < sum ∧ units sum (min e e') = units m e + units m' e'
      ∧ UnpackedFloat.add Format.binary64 (.finite .positive m e hpos)
          (.finite .positive m' e' hpos')
        = UnpackedFloat.round Format.binary64 .positive sum (min e e') := by
  have hshift {a : Nat} {x : Int} (hle : min e e' ≤ x) :
      units (a <<< (x - min e e').toNat) (min e e') = units a x :=
    units_shiftLeft a (le_min hleast hleast') (by omega)
  have hsum : 0 < m <<< (e - min e e').toNat + m' <<< (e' - min e e').toNat := by
    rw [Nat.shiftLeft_eq]
    exact Nat.add_pos_left (Nat.mul_pos hpos (Nat.two_pow_pos _)) _
  refine ⟨_, hsum, ?_, ?_⟩
  · rw [units, Nat.add_mul]
    exact congrArg₂ _ (hshift (min_le_left e e')) (hshift (min_le_right e e'))
  · rw [UnpackedFloat.add, decreaseExponent, decreaseExponent]
    dsimp only [Sign.apply]
    rw [← Nat.cast_add, UnpackedFloat.normalize, compare_gt_iff_gt.mpr (Int.natCast_pos.mpr hsum)]
    dsimp only
    rw [Int.toNat_natCast]

/-- A sum is rounded, and cut where infinity stands. -/
theorem add (h : Upright u n) (h' : Upright v k) :
    Upright (unpack Format.binary64
      (pack Format.binary64 (UnpackedFloat.add Format.binary64 u v)))
      (min (rounded (n + k)) top) := by
  have hcut {a b : Nat} (hlarge : top ≤ a + b) : min (rounded (a + b)) top = top := by
    rw [← Upright.infinity.rounded_eq]
    exact Nat.min_eq_right (rounded_mono hlarge)
  have hle := h.le_top
  have hle' := h'.le_top
  cases h with
  | infinity =>
      rw [hcut (Nat.le_add_right _ _)]
      cases h' <;> exact Upright.infinity.repack
  | zero =>
      rw [Nat.zero_add, h'.rounded_eq, Nat.min_eq_left hle']
      cases h' with
      | infinity => exact Upright.infinity.repack
      | zero => exact Upright.zero.repack
      | finite hpos hnormalized hrange => exact (Upright.finite hpos hnormalized hrange).repack
  | finite hpos hnormalized hrange =>
      cases h' with
      | infinity =>
          rw [hcut (Nat.le_add_left _ _)]
          exact Upright.infinity.repack
      | zero =>
          rw [Nat.add_zero, hnormalized.rounded_units, Nat.min_eq_left hle]
          exact (Upright.finite hpos hnormalized hrange).repack
      | finite hpos' hnormalized' hrange' =>
          obtain ⟨sum, hsum, hunits, hadd⟩ :=
            add_finite hpos hpos' hnormalized.least_le hnormalized'.least_le
          obtain ⟨m, e, hm, hround, hrounded, hsize⟩ :=
            round_eq hsum (le_min hnormalized.least_le hnormalized'.least_le)
          rw [hadd, hround, ← hunits, ← hsize]
          exact pack_finite hm hrounded

end Upright

theorem number_of_compare {u v : UnpackedFloat} {order : Ordering}
    (h : u.compare v = some order) : u ≠ .notANumber ∧ v ≠ .notANumber := by
  constructor <;> rintro rfl
  · exact Option.some_ne_none order h.symm
  · cases u <;> exact Option.some_ne_none order h.symm

theorem less_iff {x y : Float} :
    PathWeight.less x y ↔ x.toModel.unpack ≠ .notANumber ∧ y.toModel.unpack ≠ .notANumber
      ∧ rank x.toModel.unpack < rank y.toModel.unpack := by
  have hless : PathWeight.less x y ↔ x.toModel.unpack.compare y.toModel.unpack = some .lt := by
    show decide (decide (UnpackedFloat.lt _ _ = true) = true) = true ↔ _
    rw [decide_eq_true_iff, decide_eq_true_iff, UnpackedFloat.lt, beq_iff_eq]
  rw [hless]
  constructor
  · intro h
    obtain ⟨hx, hy⟩ := number_of_compare h
    rw [compare_eq_rank (packable_model _) (packable_model _) hx hy, Option.some_inj] at h
    exact ⟨hx, hy, compare_lt_iff_lt.mp h⟩
  · rintro ⟨hx, hy, hrank⟩
    rw [compare_eq_rank (packable_model _) (packable_model _) hx hy, compare_lt_iff_lt.mpr hrank]

theorem upright_zero : Upright (PathWeight.zero : Float).toModel.unpack 0 := .zero

theorem upright_infinite : Upright (PathWeight.infinite : Float).toModel.unpack top := .infinity

/-- Zero and what lies above it, infinity included. -/
theorem exists_upright {x : Float} (h : PathWeight.Proper x) :
    ∃ n, Upright x.toModel.unpack n := by
  rcases h with rfl | hpos
  · exact ⟨0, upright_zero⟩
  · obtain ⟨-, hnumber, hrank⟩ := less_iff.mp hpos
    rw [upright_zero.rank_eq] at hrank
    have hpackable := packable_model x.toModel
    generalize x.toModel.unpack = u at hnumber hrank hpackable
    cases hpackable with
    | infinity sign =>
        cases sign with
        | positive => exact ⟨_, .infinity⟩
        | negative =>
            have htop := top_pos
            simp only [rank, Sign.apply] at hrank
            omega
    | notANumber => exact absurd rfl hnumber
    | zero => exact absurd hrank (lt_irrefl 0)
    | finite sign hpos hnormalized hrange =>
        cases sign with
        | positive => exact ⟨_, .finite hpos hnormalized hrange⟩
        | negative =>
            simp only [rank, Sign.apply] at hrank
            omega

section

variable {x y : Float} {n k : Nat}

theorem upright_less_iff (hx : Upright x.toModel.unpack n) (hy : Upright y.toModel.unpack k) :
    PathWeight.less x y ↔ n < k := by
  rw [less_iff, hx.rank_eq, hy.rank_eq, Int.ofNat_lt]
  exact ⟨fun h => h.2.2, fun h => ⟨hx.number, hy.number, h⟩⟩

theorem upright_eq_iff (hx : Upright x.toModel.unpack n) (hy : Upright y.toModel.unpack k) :
    x = y ↔ n = k := by
  constructor
  · rintro rfl
    have hrank := hx.rank_eq.symm.trans hy.rank_eq
    omega
  · intro hsame
    exact congrArg Float.ofModel (eq_of_unpack (hx.unique hy hsame))

theorem upright_atMost_iff (hx : Upright x.toModel.unpack n) (hy : Upright y.toModel.unpack k) :
    PathWeight.AtMost x y ↔ n ≤ k := by
  rw [PathWeight.AtMost, upright_eq_iff hx hy, upright_less_iff hx hy]
  omega

theorem upright_same_iff (hx : Upright x.toModel.unpack n) (hy : Upright y.toModel.unpack k) :
    PathWeight.same x y ↔ n = k := by
  show UnpackedFloat.beq x.toModel.unpack y.toModel.unpack = true ↔ _
  rw [UnpackedFloat.beq, beq_iff_eq, compare_eq_rank (packable_model _) (packable_model _) hx.number
    hy.number, Option.some_inj, compare_eq_iff_eq, hx.rank_eq, hy.rank_eq, Int.ofNat_inj]

theorem upright_isFinite_iff (hx : Upright x.toModel.unpack n) :
    PathWeight.isFinite x ↔ n ≠ top := by
  show UnpackedFloat.isFinite x.toModel.unpack = true ↔ _
  generalize x.toModel.unpack = u at hx
  have htop := top_pos
  cases hx with
  | infinity => exact ⟨fun h => absurd h Bool.false_ne_true, fun h => absurd rfl h⟩
  | zero => exact ⟨fun _ => htop.ne, fun _ => rfl⟩
  | finite _ hnormalized hrange =>
      exact ⟨fun _ => (hnormalized.units_lt_top hrange).ne, fun _ => rfl⟩

theorem upright_add (hx : Upright x.toModel.unpack n) (hy : Upright y.toModel.unpack k) :
    Upright (PathWeight.add x y).toModel.unpack (min (rounded (n + k)) top) :=
  hx.add hy

end

end BulkPaths.Binary64

namespace BulkPaths

open PathWeight Binary64

instance : LawfulPathWeight Float where
  less_irrefl x := by
    rw [← Bool.not_eq_true, less_iff]
    exact fun h => lt_irrefl _ h.2.2
  less_trans hxy hyz := by
    rw [less_iff] at hxy hyz ⊢
    exact ⟨hxy.1, hyz.2.1, hxy.2.2.trans hyz.2.2⟩
  less_total hx hy := by
    obtain ⟨n, hn⟩ := exists_upright hx
    obtain ⟨k, hk⟩ := exists_upright hy
    rw [upright_less_iff hn hk, upright_eq_iff hn hk, upright_less_iff hk hn]
    exact lt_trichotomy n k
  same_iff hx hy := by
    obtain ⟨n, hn⟩ := exists_upright hx
    obtain ⟨k, hk⟩ := exists_upright hy
    rw [upright_same_iff hn hk, upright_eq_iff hn hk]
  zero_finite := rfl
  finite_iff hx := by
    obtain ⟨n, hn⟩ := exists_upright hx
    exact (upright_isFinite_iff hn).trans (upright_eq_iff hn upright_infinite).not.symm
  atMost_infinite hx := by
    obtain ⟨n, hn⟩ := exists_upright hx
    rw [upright_atMost_iff hn upright_infinite]
    exact hn.le_top
  add_mono hx hy hv hw hxy hvw := by
    obtain ⟨n, hn⟩ := exists_upright hx
    obtain ⟨k, hk⟩ := exists_upright hy
    obtain ⟨a, ha⟩ := exists_upright (proper_of_less hv)
    obtain ⟨b, hb⟩ := exists_upright (proper_of_less hw)
    rw [upright_atMost_iff hn hk] at hxy
    rw [upright_atMost_iff ha hb] at hvw
    rw [upright_atMost_iff (upright_add hn ha) (upright_add hk hb)]
    exact min_le_min_right top (rounded_mono (Nat.add_le_add hxy hvw))
  atMost_add hx hw := by
    obtain ⟨n, hn⟩ := exists_upright hx
    obtain ⟨a, ha⟩ := exists_upright (proper_of_less hw)
    rw [upright_atMost_iff hn (upright_add hn ha)]
    have hmono := rounded_mono (Nat.le_add_right n a)
    rw [hn.rounded_eq] at hmono
    exact le_min hmono hn.le_top

end BulkPaths
