import BulkPaths.Decimal.Binary64
import Mathlib.Algebra.Order.Ring.Nat
import Mathlib.Tactic.Ring
import Mathlib.Tactic.Linarith
import Mathlib.Tactic.Set

/-!
# How doubles round

The model of doubles in the logic shifts a significand and keeps two bits of what falls off. Counted
in units of the smallest double, it rounds a natural number to the nearest one of 53 bits and a half
to the even one. This rounding is monotone and leaves doubles as they are.
-/

namespace BulkPaths.Binary64

open Float.Model Float.Model.UnpackedFloat

theorem div_le_roundDiv (num den : Nat) : num / den ≤ roundDiv num den := by
  unfold roundDiv
  dsimp only
  split
  · exact Nat.le_refl _
  · split <;> omega

theorem roundDiv_le (num den : Nat) : roundDiv num den ≤ num / den + 1 := by
  unfold roundDiv
  dsimp only
  split
  · omega
  · split <;> omega

theorem roundDiv_mono {num num' : Nat} (den : Nat) (h : num ≤ num') :
    roundDiv num den ≤ roundDiv num' den := by
  have hquotient : num / den ≤ num' / den := Nat.div_le_div_right h
  rcases Nat.lt_or_eq_of_le hquotient with hless | hsame
  · have hlow := roundDiv_le num den
    have hhigh := div_le_roundDiv num' den
    omega
  · -- the quotients agree, so the rests decide
    have hrest : num % den ≤ num' % den := by
      have hnum := Nat.div_add_mod num den
      have hnum' := Nat.div_add_mod num' den
      rw [← hsame] at hnum'
      omega
    unfold roundDiv
    rw [← hsame]
    dsimp only
    split_ifs <;> omega

/-- What is a multiple of the denominator is not rounded. -/
theorem roundDiv_mul (q : Nat) {den : Nat} (hden : 0 < den) : roundDiv (q * den) den = q := by
  unfold roundDiv
  dsimp only
  rw [Nat.mul_mod_left, Nat.mul_zero, if_pos hden, Nat.mul_div_cancel q hden]

theorem roundDiv_mul_mul (num den : Nat) {c : Nat} (hc : 0 < c) :
    roundDiv (num * c) (den * c) = roundDiv num den := by
  unfold roundDiv
  dsimp only
  rw [Nat.mul_div_mul_right num den hc, Nat.mul_mod_mul_right]
  have hlt : 2 * (num % den * c) < den * c ↔ 2 * (num % den) < den := by
    rw [← Nat.mul_assoc]
    exact Nat.mul_lt_mul_right hc
  have hgt : den * c < 2 * (num % den * c) ↔ den < 2 * (num % den) := by
    rw [← Nat.mul_assoc]
    exact Nat.mul_lt_mul_right hc
  simp only [hlt, hgt]

/-- The two bits say how the part that was shifted out compares with zero and with a half. -/
structure Shifted (n j : Nat) (em : ExtendedMantissa) : Prop where
  mantissa : em.mantissa = n / 2 ^ j
  roundBit : em.roundBit = true ↔ 2 ^ j ≤ 2 * (n % 2 ^ j)
  stickyBit : em.stickyBit = true ↔ n % 2 ^ j ≠ 0 ∧ 2 * (n % 2 ^ j) ≠ 2 ^ j

theorem Shifted.shiftRightOne {n j : Nat} {em : ExtendedMantissa} (h : Shifted n j em) :
    Shifted n (j + 1) em.shiftRightOne := by
  have hsplit : n % 2 ^ (j + 1) = n % 2 ^ j + 2 ^ j * (n / 2 ^ j % 2) := by
    rw [Nat.pow_succ, Nat.mod_mul]
  have hsmall : n % 2 ^ j < 2 ^ j := Nat.mod_lt _ (Nat.two_pow_pos j)
  have hpow : 2 ^ (j + 1) = 2 * 2 ^ j := by rw [Nat.pow_succ, Nat.mul_comm]
  have hbit := Nat.mod_two_eq_zero_or_one (n / 2 ^ j)
  refine ⟨?_, ?_, ?_⟩
  · rw [ExtendedMantissa.shiftRightOne, h.mantissa, Nat.pow_succ, Nat.div_div_eq_div_mul]
  · rw [ExtendedMantissa.shiftRightOne, h.mantissa, hsplit, hpow]
    rcases hbit with hzero | hone
    · simp only [hzero, Nat.mul_zero, Nat.add_zero]
      simp
      omega
    · simp only [hone, Nat.mul_one]
      simp
  · have hround := h.roundBit
    have hsticky := h.stickyBit
    rw [ExtendedMantissa.shiftRightOne, hsplit, hpow, Bool.or_eq_true, hround, hsticky]
    rcases hbit with hzero | hone
    · simp only [hzero, Nat.mul_zero, Nat.add_zero]
      omega
    · simp only [hone, Nat.mul_one]
      omega

theorem shifted_exact (n j : Nat) :
    Shifted n j (ExtendedMantissa.ofMantissaAndAccuracy n .exact >>> j) := by
  induction j with
  | zero =>
      have hrest : n % 2 ^ 0 = 0 := Nat.mod_one n
      refine ⟨(Nat.div_one n).symm, ⟨fun h => absurd h Bool.false_ne_true, fun h => ?_⟩,
        ⟨fun h => absurd h Bool.false_ne_true, fun h => absurd hrest h.1⟩⟩
      rw [hrest] at h
      exact absurd h (by decide)
  | succ j ih => exact ih.shiftRightOne

theorem Shifted.roundedMantissa {n j : Nat} {em : ExtendedMantissa} (h : Shifted n j em) :
    em.roundedMantissa = roundDiv n (2 ^ j) := by
  obtain ⟨mantissa, roundBit, stickyBit⟩ := em
  obtain ⟨hmantissa, hround, hsticky⟩ := h
  dsimp only at hmantissa hround hsticky
  subst hmantissa
  have hsmall : n % 2 ^ j < 2 ^ j := Nat.mod_lt _ (Nat.two_pow_pos j)
  unfold ExtendedMantissa.roundedMantissa ExtendedMantissa.accuracy roundDiv
  dsimp only
  cases roundBit <;> cases stickyBit <;>
    simp only [Bool.false_eq_true, false_iff, true_iff] at hround hsticky <;>
    simp only [Accuracy.roundToNearestEven] <;>
    split_ifs <;> first | rfl | omega

/-- How many bits of a number of units do not fit a double. -/
def grid (n : Nat) : Nat := n.log2 + 1 - 53

/-- A number of units to the nearest double, however large. -/
def rounded (n : Nat) : Nat := roundDiv n (2 ^ grid n) * 2 ^ grid n

theorem rounded_of_grid_eq_zero {n : Nat} (h : grid n = 0) : rounded n = n := by
  rw [rounded, h, Nat.pow_zero, Nat.mul_one]
  simpa using roundDiv_mul n Nat.one_pos

theorem log2_bounds {n : Nat} (hn : 0 < n) : 2 ^ n.log2 ≤ n ∧ n < 2 ^ (n.log2 + 1) :=
  ⟨Nat.log2_self_le hn.ne', Nat.lt_log2_self⟩

theorem significand_bounds {n : Nat} (hn : 0 < n) (hgrid : 0 < grid n) :
    2 ^ 52 ≤ n / 2 ^ grid n ∧ n / 2 ^ grid n < 2 ^ 53 := by
  obtain ⟨hlow, hhigh⟩ := log2_bounds hn
  have hlog : n.log2 = 52 + grid n := by
    unfold grid at hgrid ⊢
    omega
  constructor
  · rw [Nat.le_div_iff_mul_le (Nat.two_pow_pos _), ← Nat.pow_add, ← hlog]
    exact hlow
  · rw [Nat.div_lt_iff_lt_mul (Nat.two_pow_pos _), ← Nat.pow_add]
    have hexponent : 53 + grid n = n.log2 + 1 := by omega
    rw [hexponent]
    exact hhigh

/-- Rounding does not leave the powers of two around a number. -/
theorem rounded_bounds {n : Nat} (hn : 0 < n) :
    2 ^ n.log2 ≤ rounded n ∧ rounded n ≤ 2 ^ (n.log2 + 1) := by
  obtain ⟨hlow, hhigh⟩ := log2_bounds hn
  rcases Nat.eq_zero_or_pos (grid n) with hzero | hpos
  · rw [rounded_of_grid_eq_zero hzero]
    exact ⟨hlow, hhigh.le⟩
  · obtain ⟨hleast, hmost⟩ := significand_bounds hn hpos
    have hlog : n.log2 = 52 + grid n := by
      unfold grid at hpos ⊢
      omega
    rw [hlog, Nat.add_right_comm, Nat.pow_add, Nat.pow_add, rounded]
    constructor
    · exact Nat.mul_le_mul_right _ (hleast.trans (div_le_roundDiv _ _))
    · exact Nat.mul_le_mul_right _ ((roundDiv_le _ _).trans hmost)

theorem rounded_mono {n n' : Nat} (h : n ≤ n') : rounded n ≤ rounded n' := by
  rcases Nat.eq_zero_or_pos n with rfl | hn
  · rw [rounded_of_grid_eq_zero rfl]
    exact Nat.zero_le _
  have hlog : n.log2 ≤ n'.log2 :=
    (Nat.le_log2 (hn.trans_le h).ne').mpr ((log2_bounds hn).1.trans h)
  rcases Nat.eq_or_lt_of_le hlog with hsame | hless
  · have hgrid : grid n = grid n' := by rw [grid, grid, hsame]
    rw [rounded, rounded, hgrid]
    exact Nat.mul_le_mul_right _ (roundDiv_mono _ h)
  · calc rounded n ≤ 2 ^ (n.log2 + 1) := (rounded_bounds hn).2
      _ ≤ 2 ^ n'.log2 := Nat.pow_le_pow_right Nat.two_pos hless
      _ ≤ rounded n' := (rounded_bounds (hn.trans_le h)).1

theorem log2_mul_two_pow {m : Nat} (k : Nat) (hm : 0 < m) : (m * 2 ^ k).log2 = m.log2 + k := by
  obtain ⟨hlow, hhigh⟩ := log2_bounds hm
  rw [Nat.log2_eq_iff (Nat.mul_pos hm (Nat.two_pow_pos k)).ne', Nat.add_right_comm, Nat.pow_add,
    Nat.pow_add]
  exact ⟨Nat.mul_le_mul_right _ hlow, Nat.mul_lt_mul_of_pos_right hhigh (Nat.two_pow_pos k)⟩

theorem rounded_of_fits {m : Nat} (k : Nat) (hm : m < 2 ^ 53) :
    rounded (m * 2 ^ k) = m * 2 ^ k := by
  rcases Nat.eq_zero_or_pos m with rfl | hpos
  · rw [Nat.zero_mul, rounded_of_grid_eq_zero rfl]
  have hgrid : grid (m * 2 ^ k) ≤ k := by
    have hlog := (Nat.log2_lt hpos.ne').mpr hm
    rw [grid, log2_mul_two_pow k hpos]
    omega
  obtain ⟨d, hd⟩ := Nat.exists_eq_add_of_le' hgrid
  rw [rounded]
  conv_lhs =>
    arg 1
    arg 1
    rw [hd, Nat.pow_add, ← Nat.mul_assoc]
  rw [roundDiv_mul _ (Nat.two_pow_pos _), Nat.mul_assoc, ← Nat.pow_add, ← hd]

/-- A significand with an exponent, in units of the smallest double. -/
def units (m : Nat) (e : Int) : Nat := m * 2 ^ (e + 1074).toNat

theorem units_shiftLeft (m : Nat) {d : Nat} {e e' : Int} (hleast : -1074 ≤ e) (hd : e + d = e') :
    units (m <<< d) e = units m e' := by
  rw [Nat.shiftLeft_eq, units, units, Nat.mul_assoc, ← Nat.pow_add]
  congr 2
  omega

theorem targetExponent_eq {m : Nat} {e : Int} (hm : 0 < m) (he : -1074 ≤ e) :
    Format.binary64.targetExponent (totalExponent m e) = (grid (units m e) : Int) - 1074 := by
  have hlog := log2_mul_two_pow (e + 1074).toNat hm
  have htarget : Format.binary64.targetExponent (totalExponent m e)
      = max (m.log2 + 1 + e - 53) (-1074) := rfl
  rw [htarget, grid, units, hlog]
  omega

/-- A significand that does not fill its exponent has the least one. -/
structure Normalized (m : Nat) (e : Int) : Prop where
  fits : m < 2 ^ 53
  least_le : -1074 ≤ e
  full : 2 ^ 52 ≤ m ∨ e = -1074

theorem Normalized.rounded_units {m : Nat} {e : Int} (h : Normalized m e) :
    rounded (units m e) = units m e :=
  rounded_of_fits _ h.fits

def excess (m : Nat) (e : Int) : Nat := ((grid (units m e) : Int) - 1074 - e).toNat

theorem shiftToTargetExponent_eq {m : Nat} {e : Int} (hm : 0 < m) (he : -1074 ≤ e) :
    shiftToTargetExponent Format.binary64 m e .exact
      = (ExtendedMantissa.ofMantissaAndAccuracy m .exact >>> excess m e, e + excess m e) := by
  rw [shiftToTargetExponent, shiftToExponent, targetExponent_eq hm he]
  rfl

/-- Rounding has already left a significand of 53 bits, or one just above them. -/
theorem second_shift {m : Nat} {e : Int} (hm : 0 < m) (hle : m ≤ 2 ^ 53) (he : -1074 ≤ e)
    (hfull : 2 ^ 52 ≤ m ∨ e = -1074) :
    Normalized (m / 2 ^ excess m e) (e + excess m e) ∧ 0 < m / 2 ^ excess m e
      ∧ units (m / 2 ^ excess m e) (e + excess m e) = units m e := by
  have hgrid : grid (units m e) = m.log2 + (e + 1074).toNat + 1 - 53 := by
    rw [grid, units, log2_mul_two_pow _ hm]
  rcases Nat.lt_or_eq_of_le hle with hless | htop
  · have hlog := (Nat.log2_lt hm.ne').mpr hless
    have hexcess : excess m e = 0 := by
      rw [excess, hgrid]
      omega
    rw [hexcess, Nat.pow_zero, Nat.div_one, Int.natCast_zero, Int.add_zero]
    exact ⟨⟨hless, he, hfull⟩, hm, rfl⟩
  · have hlog : m.log2 = 53 := by
      rw [htop]
      exact Nat.log2_two_pow
    have hexcess : excess m e = 1 := by
      rw [excess, hgrid]
      omega
    have hhalf : m / 2 ^ 1 = 2 ^ 52 := by
      rw [htop]
      rfl
    have hexponent : (e + 1 + 1074).toNat = (e + 1074).toNat + 1 := by omega
    rw [hexcess, hhalf, units, units, htop]
    refine ⟨⟨by decide, by omega, .inl (Nat.le_refl _)⟩, by decide, ?_⟩
    rw [Int.natCast_one, hexponent, Nat.pow_succ' (n := (e + 1074).toNat), ← Nat.mul_assoc]
    rfl

/-- What a significand at most as coarse as its grid is rounded to. -/
theorem roundWithAccuracy_eq {m : Nat} {e : Int} (hm : 0 < m) (he : -1074 ≤ e)
    (hcoarse : e + 1074 ≤ (grid (units m e) : Int)) :
    ∃ m' e' hpos, roundWithAccuracy Format.binary64 .positive m e .exact
        = .finite .positive m' e' hpos
      ∧ Normalized m' e' ∧ units m' e' = rounded (units m e) := by
  have hunits : 0 < units m e := Nat.mul_pos hm (Nat.two_pow_pos _)
  have hexponent : e + excess m e = (grid (units m e) : Int) - 1074 := by
    rw [excess]
    omega
  have hgrid : grid (units m e) = excess m e + (e + 1074).toNat := by omega
  have hmantissa : (ExtendedMantissa.ofMantissaAndAccuracy m .exact >>> excess m e).roundedMantissa
      = roundDiv (units m e) (2 ^ grid (units m e)) := by
    rw [(shifted_exact m (excess m e)).roundedMantissa, hgrid, Nat.pow_add, units,
      roundDiv_mul_mul _ _ (Nat.two_pow_pos _)]
  set r := roundDiv (units m e) (2 ^ grid (units m e)) with hr
  have hbounds : 0 < r ∧ r ≤ 2 ^ 53 ∧ (2 ^ 52 ≤ r ∨ e + excess m e = -1074) := by
    rcases Nat.eq_zero_or_pos (grid (units m e)) with hzero | hpos
    · have hwhole : r = units m e := by
        rw [hr, hzero]
        simpa using roundDiv_mul (units m e) Nat.one_pos
      have hlog : (units m e).log2 < 53 := by
        unfold grid at hzero
        omega
      have hsmall := (Nat.log2_lt hunits.ne').mp hlog
      omega
    · obtain ⟨hleast, hmost⟩ := significand_bounds hunits hpos
      have hlow := div_le_roundDiv (units m e) (2 ^ grid (units m e))
      have hhigh := roundDiv_le (units m e) (2 ^ grid (units m e))
      omega
  obtain ⟨hpos, hle, hfull⟩ := hbounds
  have hleast : -1074 ≤ e + excess m e := by omega
  obtain ⟨hnormalized, hpos', hsame⟩ := second_shift hpos hle hleast hfull
  refine ⟨_, _, hpos', ?_, hnormalized, ?_⟩
  · have hfinal : (ExtendedMantissa.ofMantissaAndAccuracy r .exact
        >>> excess r (e + excess m e)).mantissa = r / 2 ^ excess r (e + excess m e) :=
      (shifted_exact _ _).mantissa
    rw [roundWithAccuracy, shiftToTargetExponent_eq hm he]
    dsimp only
    rw [hmantissa, shiftToTargetExponent_eq hpos hleast]
    dsimp only
    rw [dif_neg (hfinal ▸ hpos'.ne'), UnpackedFloat.finite.injEq]
    exact ⟨rfl, hfinal, rfl⟩
  · rw [hsame, units, hexponent, rounded, ← hr]
    congr 2
    omega

/-- Rounding a sum of doubles, counted in units. -/
theorem round_eq {m : Nat} {e : Int} (hm : 0 < m) (he : -1074 ≤ e) :
    ∃ m' e' hpos, UnpackedFloat.round Format.binary64 .positive m e = .finite .positive m' e' hpos
      ∧ Normalized m' e' ∧ units m' e' = rounded (units m e) := by
  set g := grid (units m e) with hg
  have hunits : units (m <<< (e - ((g : Int) - 1074)).toNat)
      (e - (e - ((g : Int) - 1074)).toNat) = units m e :=
    units_shiftLeft m (by omega) (by omega)
  have hpos : 0 < m <<< (e - ((g : Int) - 1074)).toNat := by
    rw [Nat.shiftLeft_eq]
    exact Nat.mul_pos hm (Nat.two_pow_pos _)
  rw [UnpackedFloat.round, targetExponent_eq hm he, decreaseExponent, ← hg, ← hunits]
  refine roundWithAccuracy_eq hpos (by omega) ?_
  rw [hunits, ← hg]
  omega

end BulkPaths.Binary64
