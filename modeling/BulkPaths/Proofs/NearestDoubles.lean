import BulkPaths.Proofs.DoublePacking

/-!
# The nearest double

The double nearest to a fraction depends on its value alone: the value decides the binade, and there
the nearest multiple of its unit. Taking a double apart and rounding the fraction gives it back.
-/

namespace BulkPaths.Binary64

open Float.Model (Format)
open Float.Model.UnpackedFloat

variable {num den num' den' m : Nat} {q : ℚ} {e e' : Int}

theorem scaled_value (num den : Nat) (e : Int) :
    ((scaled num den e).1 : ℚ) / (scaled num den e).2 = num / den / 2 ^ e := by
  unfold scaled
  split
  case isTrue he =>
    lift e to Nat using he
    rw [Int.toNat_natCast, Nat.shiftLeft_eq, zpow_natCast]
    push_cast
    rw [div_div]
  case isFalse he =>
    obtain ⟨k, rfl⟩ : ∃ k : Nat, e = -k := ⟨(-e).toNat, by omega⟩
    rw [neg_neg, Int.toNat_natCast, Nat.shiftLeft_eq, zpow_neg, zpow_natCast]
    push_cast
    field_simp

theorem scaled_pos (e : Int) (hden : 0 < den) : 0 < (scaled num den e).2 := by
  unfold scaled
  split
  case isTrue =>
    rw [Nat.shiftLeft_eq]
    exact Nat.mul_pos hden (Nat.two_pow_pos _)
  case isFalse => exact hden

theorem fraction_value (m : Nat) (e : Int) :
    ((fraction m e).1 : ℚ) / (fraction m e).2 = m * 2 ^ e := by
  unfold fraction
  split
  case isTrue he =>
    lift e to Nat using he
    rw [Int.toNat_natCast, Nat.shiftLeft_eq, zpow_natCast]
    push_cast
    rw [div_one]
  case isFalse he =>
    obtain ⟨k, rfl⟩ : ∃ k : Nat, e = -k := ⟨(-e).toNat, by omega⟩
    rw [neg_neg, Int.toNat_natCast, Nat.shiftLeft_eq, zpow_neg, zpow_natCast]
    push_cast
    field_simp

theorem fraction_pos (m : Nat) (e : Int) : 0 < (fraction m e).2 := by
  unfold fraction
  split
  case isTrue => exact Nat.one_pos
  case isFalse =>
    rw [Nat.shiftLeft_eq, Nat.one_mul]
    exact Nat.two_pow_pos _

theorem fraction_num_pos (e : Int) (hpos : 0 < m) : 0 < (fraction m e).1 := by
  unfold fraction
  split
  case isTrue =>
    rw [Nat.shiftLeft_eq]
    exact Nat.mul_pos hpos (Nat.two_pow_pos _)
  case isFalse => exact hpos

theorem roundDiv_congr (hden : 0 < den) (hden' : 0 < den')
    (h : (num : ℚ) / den = num' / den') : roundDiv num den = roundDiv num' den' := by
  rw [div_eq_div_iff (by positivity) (by positivity)] at h
  have hcross : num * den' = num' * den := by exact_mod_cast h
  rw [← roundDiv_mul_mul num den hden', hcross, Nat.mul_comm den den', roundDiv_mul_mul _ _ hden]

/-- Nothing but the nearest integer is nearer than a half. -/
theorem roundDiv_of_near (hden : 0 < den) (h : |(num : ℚ) / den - m| < 1 / 2) :
    roundDiv num den = m := by
  have hdenq : (0 : ℚ) < den := Nat.cast_pos.mpr hden
  obtain ⟨habove, hbelow⟩ := abs_lt.mp h
  rw [lt_sub_iff_add_lt, lt_div_iff₀ hdenq] at habove
  rw [sub_lt_iff_lt_add, div_lt_iff₀ hdenq] at hbelow
  have hlow : 2 * (m * den) < 2 * num + den := by
    have hcast : (2 * (m * den) : ℚ) < 2 * num + den := by linarith
    exact_mod_cast hcast
  have hhigh : 2 * num < 2 * (m * den) + den := by
    have hcast : (2 * num : ℚ) < 2 * (m * den) + den := by linarith
    exact_mod_cast hcast
  have hrest := Nat.div_add_mod num den
  have hless := Nat.mod_lt num hden
  have hquotient : m = num / den ∨ m = num / den + 1 := by
    have hle : m ≤ num / den + 1 := by
      by_contra hfar
      have hmul : (num / den + 2) * den ≤ m * den := Nat.mul_le_mul_right den (by omega)
      rw [Nat.add_mul, Nat.mul_comm (num / den)] at hmul
      omega
    have hge : num / den ≤ m := by
      by_contra hfar
      have hmul : (m + 1) * den ≤ num / den * den := Nat.mul_le_mul_right den (by omega)
      rw [Nat.add_mul, Nat.mul_comm (num / den)] at hmul
      omega
    omega
  unfold roundDiv
  rcases hquotient with rfl | rfl
  · rw [Nat.mul_comm (num / den)] at hhigh
    exact if_pos (by omega)
  · rw [Nat.add_mul, Nat.mul_comm (num / den)] at hlow
    dsimp only
    rw [if_neg (by omega), if_pos (by omega)]

/-- The exponent of the last bit of the doubles around a value. -/
structure Scale (q : ℚ) (e : Int) : Prop where
  least_le : -1074 ≤ e
  below : q < 2 ^ (53 + e)
  full : e = -1074 ∨ 2 ^ (52 + e) ≤ q

theorem Scale.le (h : Scale q e) (h' : Scale q e') : e ≤ e' := by
  rcases h.full with rfl | hfull
  · exact h'.least_le
  · have hpow : (2 : ℚ) ^ (52 + e) < 2 ^ (53 + e') := hfull.trans_lt h'.below
    rw [zpow_lt_zpow_iff_right₀ one_lt_two] at hpow
    omega

theorem Scale.unique (h : Scale q e) (h' : Scale q e') : e = e' := le_antisymm (h.le h') (h'.le h)

theorem scale_max (hbelow : q < 2 ^ (53 + e)) (hfull : 2 ^ (52 + e) ≤ q) :
    Scale q (max e (-1074)) where
  least_le := le_max_right _ _
  below := hbelow.trans_le (zpow_le_zpow_right₀ one_le_two (by omega))
  full := by
    rcases max_choice e (-1074) with hmax | hmax
    · rw [hmax]
      exact .inr hfull
    · exact .inl hmax

theorem scale_exponentFor (hnum : 0 < num) (hden : 0 < den) :
    Scale (num / den : ℚ) (exponentFor num den) := by
  have hdenq : (0 : ℚ) < den := Nat.cast_pos.mpr hden
  obtain ⟨hnumLow, hnumHigh⟩ := log2_bounds hnum
  obtain ⟨hdenLow, hdenHigh⟩ := log2_bounds hden
  let guess : Int := (num.log2 : Int) - den.log2 - 53
  have habove : (2 : ℚ) ^ (52 + guess) < num / den := by
    rw [lt_div_iff₀ hdenq]
    calc (2 : ℚ) ^ (52 + guess) * den < 2 ^ (52 + guess) * 2 ^ (den.log2 + 1) := by
          gcongr
          exact_mod_cast hdenHigh
      _ = 2 ^ num.log2 := by
          rw [← zpow_natCast, ← zpow_natCast, ← zpow_add₀ two_ne_zero]
          congr 1
          push_cast
          omega
      _ ≤ num := by exact_mod_cast hnumLow
  have hbelow : (num : ℚ) / den < 2 ^ (53 + (guess + 1)) := by
    rw [div_lt_iff₀ hdenq]
    calc (num : ℚ) < 2 ^ (num.log2 + 1) := by exact_mod_cast hnumHigh
      _ = 2 ^ (53 + (guess + 1)) * 2 ^ den.log2 := by
          rw [← zpow_natCast, ← zpow_natCast, ← zpow_add₀ two_ne_zero]
          congr 1
          push_cast
          omega
      _ ≤ 2 ^ (53 + (guess + 1)) * den := by
          gcongr
          exact_mod_cast hdenLow
  have hfits : (scaled num den guess).1 / (scaled num den guess).2 < 2 * hiddenBit ↔
      (num : ℚ) / den < 2 ^ (53 + guess) := by
    have hpos : 0 < (scaled num den guess).2 := scaled_pos guess hden
    have hposq : (0 : ℚ) < (scaled num den guess).2 := Nat.cast_pos.mpr hpos
    rw [Nat.div_lt_iff_lt_mul hpos, zpow_add₀ two_ne_zero, ← div_lt_iff₀ (by positivity),
      ← scaled_value, div_lt_iff₀ hposq, show (2 : ℚ) ^ (53 : Int) = (2 * hiddenBit : Nat) from by
        norm_num [hiddenBit]]
    exact_mod_cast Iff.rfl
  have hexponent : exponentFor num den =
      max (if (num : ℚ) / den < 2 ^ (53 + guess) then guess else guess + 1) (-1074) := by
    simp only [exponentFor, ← hfits]
    rfl
  rw [hexponent]
  split
  case isTrue hsmall => exact scale_max hsmall habove.le
  case isFalse hlarge =>
    refine scale_max hbelow ?_
    rw [show 52 + (guess + 1) = 53 + guess by ring]
    exact not_lt.mp hlarge

theorem nearestBits_eq (hnum : 0 < num) (hden : 0 < den) (hscale : Scale (num / den : ℚ) e)
    (hnear : |(num : ℚ) / den / 2 ^ e - m| < 1 / 2) :
    nearestBits num den = (e + 1074).toNat * hiddenBit + m := by
  have hexponent : exponentFor num den = e := (scale_exponentFor hnum hden).unique hscale
  unfold nearestBits
  rw [if_neg hnum.ne', hexponent]
  dsimp only
  rw [← scaled_value] at hnear
  rw [roundDiv_of_near (scaled_pos e hden) hnear]

/-- Rounding sees nothing of a fraction but its value. -/
theorem nearestBits_congr (hden : 0 < den) (hden' : 0 < den')
    (h : (num : ℚ) / den = num' / den') : nearestBits num den = nearestBits num' den' := by
  have hzero : num = 0 ↔ num' = 0 := by
    rw [div_eq_div_iff (by positivity) (by positivity)] at h
    have hcross : num * den' = num' * den := by exact_mod_cast h
    constructor
    · rintro rfl
      simpa [hden.ne'] using hcross
    · rintro rfl
      simpa [hden'.ne'] using hcross
  unfold nearestBits
  by_cases hnum : num = 0
  · rw [if_pos hnum, if_pos (hzero.mp hnum)]
  · have hnum' : num' ≠ 0 := fun h => hnum (hzero.mpr h)
    have hscale := scale_exponentFor (Nat.pos_of_ne_zero hnum) hden
    rw [h] at hscale
    have hexponent := hscale.unique (scale_exponentFor (Nat.pos_of_ne_zero hnum') hden')
    rw [if_neg hnum, if_neg hnum', hexponent]
    dsimp only
    congr 1
    apply roundDiv_congr (scaled_pos _ hden) (scaled_pos _ hden')
    rw [scaled_value, scaled_value, h]

section Shape

variable {x : Float} {negative : Bool}

/-- Sign, exponent field and fraction of a double. -/
theorem toBits_eq (x : Float) :
    x.toBits.toNat = (if x.toBits.toNat.testBit 63 then signBit else 0) +
      (x.toBits.toNat / hiddenBit % 2048 * hiddenBit + x.toBits.toNat % hiddenBit) := by
  have hlt : x.toBits.toNat < 2 ^ 64 := UInt64.toNat_lt _
  rw [Nat.testBit_eq_decide_div_mod_eq]
  unfold hiddenBit signBit
  split
  case isTrue hsign =>
    have hsign := of_decide_eq_true hsign
    omega
  case isFalse hsign =>
    have hsign := of_decide_eq_false (Bool.eq_false_iff.mpr hsign)
    omega

theorem ofMagnitude_eq {bits : Nat}
    (h : x.toBits.toNat = (if negative then signBit else 0) + bits) :
    ofMagnitude negative bits = x := by
  have hbits : (if negative then signBit + bits else bits) = x.toBits.toNat := by
    rw [h]
    split <;> omega
  rw [ofMagnitude, hbits, UInt64.ofNat_toNat, Float.ofBits_toBits]

theorem eq_infinity_of_shape (h : shape x = .infinite negative) : x = infinity negative := by
  unfold shape at h
  dsimp only at h
  split at h
  case isTrue hfield =>
    split at h
    case isTrue hfraction =>
      cases h
      refine (ofMagnitude_eq ?_).symm
      have hbits := toBits_eq x
      rwa [hfield, hfraction] at hbits
    case isFalse => cases h
  case isFalse =>
    split at h
    · cases h
    · cases h

/-- There is one NaN only. -/
theorem eq_nan_of_shape (h : shape x = .nan) : x = nan := by
  unfold shape at h
  dsimp only at h
  split at h
  case isTrue hfield =>
    split at h
    case isTrue => cases h
    case isFalse hfraction =>
      have hexponent : (@unpackExponent .binary64 x.toModel.toBits.toBitVec) = -1#11 := by
        apply BitVec.eq_of_toNat_eq
        rw [unpackExponent, BitVec.toNat_cast, BitVec.extractLsb_toNat, Nat.shiftRight_eq_div_pow]
        exact hfield
      have hmantissa : (@unpackMantissa .binary64 x.toModel.toBits.toBitVec) ≠ 0#52 := by
        intro hzero
        have hlow := congrArg BitVec.toNat hzero
        rw [unpackMantissa, BitVec.toNat_cast, BitVec.extractLsb_toNat, Nat.shiftRight_zero] at hlow
        exact hfraction hlow
      have hpacked := x.toModel.valid.eq_packedNaN hexponent hmantissa
      apply Float.toBits_inj.mp
      apply UInt64.toBitVec_inj.mp
      exact hpacked
  case isFalse =>
    split at h
    · cases h
    · cases h

/-- A double that has a size is normalized, and its bits are those of the exponent above those of
the significand. -/
theorem ofMagnitude_of_shape (h : shape x = .finite negative m e) :
    Normalized m e ∧ e ≤ 971 ∧ ofMagnitude negative ((e + 1074).toNat * hiddenBit + m) = x := by
  have hbits := toBits_eq x
  have hfraction : x.toBits.toNat % hiddenBit < hiddenBit := Nat.mod_lt _ (by decide)
  have hfield : x.toBits.toNat / hiddenBit % 2048 < 2048 := Nat.mod_lt _ (by decide)
  unfold shape at h
  dsimp only at h
  split at h
  case isTrue =>
    split at h
    · cases h
    · cases h
  case isFalse hfinite =>
    split at h
    case isTrue hzero =>
      cases h
      rw [hzero] at hbits
      refine ⟨⟨by unfold hiddenBit at *; omega, by decide, .inr rfl⟩, by decide, ?_⟩
      exact ofMagnitude_eq hbits
    case isFalse hnormal =>
      cases h
      refine ⟨⟨by unfold hiddenBit at *; omega, by omega, .inl (by unfold hiddenBit at *; omega)⟩,
        by omega, ofMagnitude_eq (hbits.trans ?_)⟩
      obtain ⟨k, hk⟩ := Nat.exists_eq_succ_of_ne_zero hnormal
      have hexponent : (((k + 1 : Nat) : Int) - 1075 + 1074).toNat = k := by omega
      rw [hk, hexponent, Nat.succ_mul, Nat.add_assoc]

end Shape

theorem nearestBits_zero (den : Nat) : nearestBits 0 den = 0 := if_pos rfl

theorem Normalized.scale (h : Normalized m e) : Scale (m * 2 ^ e) e where
  least_le := h.least_le
  below := by
    rw [zpow_add₀ two_ne_zero]
    gcongr
    exact_mod_cast h.fits
  full := by
    rcases h.full with hfull | hleast
    · refine .inr ?_
      rw [zpow_add₀ two_ne_zero]
      gcongr
      exact_mod_cast hfull
    · exact .inl hleast

/-- The fraction of a double is rounded to that double. -/
theorem Normalized.nearestBits_fraction (h : Normalized m e) :
    nearestBits (fraction m e).1 (fraction m e).2 = (e + 1074).toNat * hiddenBit + m := by
  rcases Nat.eq_zero_or_pos m with rfl | hpos
  · obtain rfl := h.full.resolve_left (by decide)
    rfl
  · have hscale := h.scale
    rw [← fraction_value] at hscale
    refine nearestBits_eq (fraction_num_pos e hpos) (fraction_pos m e) hscale ?_
    rw [fraction_value, mul_div_cancel_right₀ _ (by positivity), sub_self, abs_zero]
    norm_num

end BulkPaths.Binary64
