import BulkPaths.Decimal.Numeral
import BulkPaths.Decimal.Shortest
import BulkPaths.Proofs.NearestDoubles

/-!
# Shortest digits

A double is written with the fewest digits that are read back as it. Seventeen always are: two
decimals of seventeen digits are less than a unit of the double apart, also just above a power of
two, where the unit halves towards below.
-/

namespace BulkPaths.Decimal

open Binary64

variable {num den value m bits count : Nat} {unit e : Int} {q y u : ℚ}

theorem shifted_value (num den : Nat) (k : Int) :
    ((shifted num den k).1 : ℚ) / (shifted num den k).2 = num / den * 10 ^ k := by
  unfold shifted
  split
  case isTrue hk =>
    lift k to Nat using hk
    rw [Int.toNat_natCast, zpow_natCast, Nat.pow_eq]
    push_cast
    ring
  case isFalse hk =>
    obtain ⟨j, rfl⟩ : ∃ j : Nat, k = -j := ⟨(-k).toNat, by omega⟩
    rw [neg_neg, Int.toNat_natCast, zpow_neg, zpow_natCast, Nat.pow_eq]
    push_cast
    field_simp

theorem shifted_pos (k : Int) (hden : 0 < den) : 0 < (shifted num den k).2 := by
  unfold shifted
  split
  case isTrue => exact hden
  case isFalse => exact Nat.mul_pos hden (Nat.pow_pos (by decide))

/-- The digits at the unit are rounded to the bits. -/
def ReadsBack (bits value : Nat) (unit : Int) : Prop :=
  nearestBits (shifted value 1 unit).1 (shifted value 1 unit).2 = bits

instance (bits value : Nat) (unit : Int) : Decidable (ReadsBack bits value unit) :=
  inferInstanceAs (Decidable (_ = _))

theorem choose_eq_some {low : Bool} {high : Bool}
    (h : choose num den (num / den) low high = some value) :
    value = num / den ∧ low ∨ value = num / den + 1 ∧ high := by
  unfold choose at h
  split at h
  case h_1 =>
    cases h
    rcases Nat.le_succ_iff.mp (roundDiv_le num den) with hle | heq
    · exact .inl ⟨Nat.le_antisymm hle (div_le_roundDiv num den), rfl⟩
    · exact .inr ⟨heq, rfl⟩
  case h_2 =>
    cases h
    exact .inl ⟨rfl, rfl⟩
  case h_3 =>
    cases h
    exact .inr ⟨rfl, rfl⟩
  case h_4 => cases h

theorem shortestAt?_eq (bits num den count : Nat) :
    shortestAt? bits num den count =
      let unit := leadExponent num den - count + 1
      let n := (shifted num den (-unit)).1
      let d := (shifted num den (-unit)).2
      (choose n d (n / d) (ReadsBack bits (n / d) unit) (ReadsBack bits (n / d + 1) unit)).map
        fun digits => (digits, unit) := rfl

theorem readsBack_of_shortestAt? (h : shortestAt? bits num den count = some (value, unit)) :
    ReadsBack bits value unit := by
  rw [shortestAt?_eq] at h
  obtain ⟨digits, hchoose, heq⟩ := Option.map_eq_some_iff.mp h
  cases heq
  rcases choose_eq_some hchoose with ⟨rfl, hreads⟩ | ⟨rfl, hreads⟩
  · exact of_decide_eq_true hreads
  · exact of_decide_eq_true hreads

theorem lt_ten_pow_length_toDigits (n : Nat) : n < 10 ^ (Nat.toDigits 10 n).length :=
  (Nat.length_toDigits_le_iff (by decide) Nat.length_toDigits_pos).mp (Nat.le_refl _)

theorem ten_pow_le_of_length {n k : Nat} (hn : 0 < n) (h : (Nat.toDigits 10 n).length = k + 1) :
    10 ^ k ≤ n := by
  rcases Nat.eq_zero_or_pos k with rfl | hk
  · exact hn
  · by_contra hless
    have hle := (Nat.length_toDigits_le_iff (by decide) hk).mpr (not_le.mp hless)
    omega

theorem ten_pow_leadExponent_le (hnum : 0 < num) (hden : 0 < den) :
    (10 : ℚ) ^ leadExponent num den ≤ num / den := by
  have hdenq : (0 : ℚ) < den := Nat.cast_pos.mpr hden
  rw [le_div_iff₀ hdenq]
  unfold leadExponent digitChars
  split
  case isTrue hlarge =>
    have hpos : 0 < (Nat.toDigits 10 (num / den)).length := Nat.length_toDigits_pos
    obtain ⟨k, hk⟩ : ∃ k, (Nat.toDigits 10 (num / den)).length = k + 1 :=
      ⟨_, (Nat.succ_pred_eq_of_pos hpos).symm⟩
    have hpow : 10 ^ k ≤ num / den := ten_pow_le_of_length (Nat.div_pos hlarge hden) hk
    rw [hk, Nat.cast_succ, add_sub_cancel_right, zpow_natCast]
    exact_mod_cast (Nat.le_div_iff_mul_le hden).mp hpow
  case isFalse hsmall =>
    have hless := lt_ten_pow_length_toDigits ((den - 1) / num)
    generalize (Nat.toDigits 10 ((den - 1) / num)).length = k at hless
    rw [zpow_neg, zpow_natCast, inv_mul_le_iff₀ (by positivity)]
    have hmul : den ≤ 10 ^ k * num := by
      have hlt := (Nat.div_lt_iff_lt_mul hnum).mp hless
      omega
    exact_mod_cast hmul

theorem near_of_mul {t c : ℚ} (ht : 0 < t) (h : |y - c * t| < t / 2) : |y / t - c| < 1 / 2 := by
  have hdiv : y / t - c = (y - c * t) / t := by field_simp
  rw [hdiv, abs_div, abs_of_pos ht, div_lt_iff₀ ht]
  linarith

/-- What is within half a decimal of seventeen digits is nearest to the same double. -/
theorem nearestBits_of_near (h : Normalized m e) (hnum : 0 < num) (hden : 0 < den)
    (hunit : u * 10 ^ 16 ≤ m * 2 ^ e) (hnear : |(num / den : ℚ) - m * 2 ^ e| ≤ u / 2) :
    nearestBits num den = (e + 1074).toNat * hiddenBit + m := by
  have hscale : (0 : ℚ) < 2 ^ e := by positivity
  have hfits : (m : ℚ) + 1 ≤ 2 ^ 53 := by exact_mod_cast h.fits
  have htop : ((m : ℚ) + 1) * 2 ^ e ≤ 2 ^ 53 * 2 ^ e := by gcongr
  obtain ⟨hlow, hhigh⟩ := abs_le.mp hnear
  by_cases hsame : e = -1074 ∨ (2 : ℚ) ^ (52 + e) ≤ num / den
  · have hbinade : Scale (num / den : ℚ) e := by
      refine ⟨h.least_le, ?_, hsame⟩
      rw [zpow_add₀ two_ne_zero]
      norm_num at htop ⊢
      linarith
    refine nearestBits_eq hnum hden hbinade (near_of_mul hscale (hnear.trans_lt ?_))
    norm_num at htop
    linarith
  · -- the double is a power of two, and the fraction lies in the binade below it
    obtain ⟨hcoarse, hbelow⟩ := not_or.mp hsame
    rw [zpow_add₀ two_ne_zero, not_le] at hbelow
    have hfull : 2 ^ 52 ≤ m := h.full.resolve_right hcoarse
    have hm : m = 2 ^ 52 := by
      by_contra hne
      have hnext : (2 : ℚ) ^ 52 + 1 ≤ m := by exact_mod_cast Nat.lt_of_le_of_ne hfull (Ne.symm hne)
      have hgap : ((2 : ℚ) ^ 52 + 1) * 2 ^ e ≤ m * 2 ^ e := by gcongr
      norm_num at htop hbelow hgap
      linarith
    have hvalue : (m : ℚ) * 2 ^ e = 2 ^ 52 * 2 ^ e := by
      rw [hm]
      norm_num
    rw [hvalue] at hunit hlow hhigh
    have hleast := h.least_le
    have hhalf : (2 : ℚ) ^ (e - 1) = 2 ^ e / 2 := by rw [zpow_sub_one₀ two_ne_zero]; rfl
    have hbinade : Scale (num / den : ℚ) (e - 1) := by
      refine ⟨by omega, ?_, .inr ?_⟩
      · rw [zpow_add₀ two_ne_zero, hhalf]
        norm_num at hbelow ⊢
        linarith
      · rw [zpow_add₀ two_ne_zero, hhalf]
        norm_num at hunit hlow ⊢
        linarith
    have hdouble : |(num / den : ℚ) / 2 ^ (e - 1) - (2 ^ 53 : Nat)| < 1 / 2 := by
      refine near_of_mul (by positivity) ?_
      rw [hhalf, abs_lt]
      norm_num at hunit hlow hhigh ⊢
      constructor <;> linarith
    rw [nearestBits_eq hnum hden hbinade hdouble, hm]
    unfold hiddenBit
    omega

theorem readsBack_of_near (h : Normalized m e) (hvalue : 0 < value)
    (hq : (m : ℚ) * 2 ^ e = q * 10 ^ unit) (hunit : (10 : ℚ) ^ unit * 10 ^ 16 ≤ m * 2 ^ e)
    (hnear : |(value : ℚ) - q| ≤ 1 / 2) :
    ReadsBack ((e + 1074).toNat * hiddenBit + m) value unit := by
  have hscale : (0 : ℚ) < 10 ^ unit := by positivity
  have hnum : 0 < (shifted value 1 unit).1 := by
    unfold shifted
    split
    · exact Nat.mul_pos hvalue (Nat.pow_pos (by decide))
    · exact hvalue
  refine nearestBits_of_near h hnum (shifted_pos unit Nat.one_pos) hunit ?_
  rw [shifted_value, Nat.cast_one, div_one, hq, ← sub_mul, abs_mul, abs_of_pos hscale]
  calc |(value : ℚ) - q| * 10 ^ unit ≤ 1 / 2 * 10 ^ unit := by gcongr
    _ = 10 ^ unit / 2 := by ring

/-- Seventeen digits are read back, rounded down or up. -/
theorem isSome_shortestAt? (h : Normalized m e) (hnum : 0 < num) (hden : 0 < den)
    (hvalue : (num / den : ℚ) = m * 2 ^ e) :
    (shortestAt? ((e + 1074).toNat * hiddenBit + m) num den 17).isSome := by
  rw [shortestAt?_eq]
  dsimp only
  generalize hunit : leadExponent num den - (17 : Nat) + 1 = unit
  have hlead := ten_pow_leadExponent_le hnum hden
  rw [show leadExponent num den = unit + 16 by omega, zpow_add₀ (by norm_num), hvalue] at hlead
  have hdpos : 0 < (shifted num den (-unit)).2 := shifted_pos (-unit) hden
  have hq := shifted_value num den (-unit)
  generalize shifted num den (-unit) = nd at hdpos hq
  have hscale : (0 : ℚ) < 10 ^ unit := by positivity
  have hq' : (m : ℚ) * 2 ^ e = nd.1 / nd.2 * 10 ^ unit := by
    rw [hq, hvalue, mul_assoc, ← zpow_add₀ (by norm_num), neg_add_cancel, zpow_zero, mul_one]
  have hlarge : (10 : ℚ) ^ 16 ≤ nd.1 / nd.2 := by
    rw [hq', mul_comm] at hlead
    exact le_of_mul_le_mul_right hlead hscale
  have hfloor : ((nd.1 / nd.2 : Nat) : ℚ) ≤ nd.1 / nd.2 := Nat.cast_div_le
  have hnext : (nd.1 : ℚ) / nd.2 < (nd.1 / nd.2 : Nat) + 1 := by
    have hfloor := Nat.lt_floor_add_one ((nd.1 : ℚ) / nd.2)
    rwa [Nat.floor_div_eq_div] at hfloor
  have hlow : 0 < nd.1 / nd.2 := by
    by_contra hzero
    rw [Nat.eq_zero_of_not_pos hzero] at hnext
    norm_num at hnext hlarge
    linarith
  rcases le_total ((nd.1 : ℚ) / nd.2) ((nd.1 / nd.2 : Nat) + 1 / 2) with hdown | hup
  · have hreads : ReadsBack ((e + 1074).toNat * hiddenBit + m) (nd.1 / nd.2) unit := by
      refine readsBack_of_near h hlow hq' hlead ?_
      rw [abs_le]
      constructor <;> linarith
    cases hhigh : decide (ReadsBack ((e + 1074).toNat * hiddenBit + m) (nd.1 / nd.2 + 1) unit) <;>
      simp [choose, hreads]
  · have hreads : ReadsBack ((e + 1074).toNat * hiddenBit + m) (nd.1 / nd.2 + 1) unit := by
      refine readsBack_of_near h (Nat.succ_pos _) hq' hlead ?_
      rw [abs_le]
      push_cast
      constructor <;> linarith
    cases hlow : decide (ReadsBack ((e + 1074).toNat * hiddenBit + m) (nd.1 / nd.2) unit) <;>
      simp [choose, hreads]

theorem shortest_readsBack (h : Normalized m e) (hnum : 0 < num) (hden : 0 < den)
    (hvalue : (num / den : ℚ) = m * 2 ^ e) :
    ReadsBack ((e + 1074).toNat * hiddenBit + m)
      (shortest ((e + 1074).toNat * hiddenBit + m) num den).1
      (shortest ((e + 1074).toNat * hiddenBit + m) num den).2 := by
  unfold shortest
  have hsome : ((List.range 17).findSome? fun i =>
      shortestAt? ((e + 1074).toNat * hiddenBit + m) num den (i + 1)).isSome :=
    List.findSome?_isSome_iff.mpr ⟨16, by decide, isSome_shortestAt? h hnum hden hvalue⟩
  obtain ⟨found, hfound⟩ := Option.isSome_iff_exists.mp hsome
  obtain ⟨i, _, hi⟩ := List.exists_of_findSome?_eq_some hfound
  rw [hfound, Option.getD_some]
  exact readsBack_of_shortestAt? hi

end BulkPaths.Decimal
