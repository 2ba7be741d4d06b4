import BulkPaths.Proofs.DoubleRounding
import Mathlib

/-!
# How doubles are packed

Significands come out of bits normalized and within the range of exponents. Such a one is packed and
unpacked without change, and what is larger becomes infinite.
-/

namespace BulkPaths.Binary64

open Float.Model (Format UnpackedFloat)
open Float.Model.UnpackedFloat

/-- What bits can stand for. -/
inductive Packable : UnpackedFloat → Prop
  | infinity (sign : Sign) : Packable (.infinity sign)
  | notANumber : Packable .notANumber
  | zero (sign : Sign) : Packable (.zero sign)
  | finite (sign : Sign) {m : Nat} {e : Int} (hpos : 0 < m) (hnormalized : Normalized m e)
      (hrange : e ≤ 971) : Packable (.finite sign m e hpos)

theorem toNat_hidden (mantissa : BitVec 52) :
    (1#1 ++ mantissa).toNat = 2 ^ 52 + mantissa.toNat := by
  rw [BitVec.toNat_append, ← Nat.shiftLeft_add_eq_or_of_lt mantissa.isLt, Nat.shiftLeft_eq]
  rfl

theorem packable_unpack (b : BitVec 64) : Packable (unpack Format.binary64 b) := by
  have hfits : (@unpackMantissa .binary64 b).toNat < 2 ^ 52 := BitVec.isLt _
  have hfield : (@unpackExponent .binary64 b).toNat < 2 ^ 11 := BitVec.isLt _
  have hbias : Format.binary64.exponentBias = 1023 := rfl
  have hwidth : Format.binary64.mantissaBitsWithoutImplicit = 52 := rfl
  rw [unpack]
  dsimp only
  split_ifs with hones hfraction hzeros hfraction
  · exact .infinity _
  · exact .notANumber
  · exact .zero _
  · rw [hzeros]
    exact .finite _ _ ⟨by omega, by decide, .inr rfl⟩ (by decide)
  · have hlow : (@unpackExponent .binary64 b).toNat ≠ 0 :=
      fun h => hzeros (BitVec.eq_of_toNat_eq h)
    have hhigh : (@unpackExponent .binary64 b).toNat ≠ 2047 :=
      fun h => hones (BitVec.eq_of_toNat_eq h)
    have hhidden := toNat_hidden (@unpackMantissa .binary64 b)
    refine .finite _ _ ⟨?_, ?_, ?_⟩ ?_ <;> omega

theorem unpack_normal (sign : Sign) {field m : Nat} (hpos : 0 < m) (hlow : 0 < field)
    (hhigh : field < 2047) (hfull : 2 ^ 52 ≤ m) (hfits : m < 2 ^ 53) :
    unpack Format.binary64
        (packComponents Format.binary64 sign (BitVec.ofNat 11 field) (BitVec.ofNat 52 m))
      = .finite sign m (field - 1075) hpos := by
  have hfield : (BitVec.ofNat 11 field).toNat = field := by
    rw [BitVec.toNat_ofNat]
    omega
  have hones : BitVec.ofNat 11 field ≠ -1#11 := by
    intro h
    rw [h] at hfield
    exact hhigh.ne hfield.symm
  have hzeros : BitVec.ofNat 11 field ≠ 0#11 := by
    intro h
    rw [h] at hfield
    exact hlow.ne hfield
  have hmantissa : (1#1 ++ BitVec.ofNat 52 m).toNat = m := by
    rw [toNat_hidden, BitVec.toNat_ofNat]
    omega
  simp only [unpack, unpackExponent_packComponents, unpackMantissa_packComponents,
    unpackSign_packComponents, Sign.ofBitVec_toBitVec]
  rw [if_neg hones, if_neg hzeros, UnpackedFloat.finite.injEq]
  refine ⟨rfl, hmantissa, ?_⟩
  rw [hfield]
  rfl

theorem unpack_subnormal (sign : Sign) {m : Nat} (hpos : 0 < m) (hfits : m < 2 ^ 52) :
    unpack Format.binary64 (packComponents Format.binary64 sign 0#11 (BitVec.ofNat 52 m))
      = .finite sign m (-1074) hpos := by
  have hmantissa : (BitVec.ofNat 52 m).toNat = m := by
    rw [BitVec.toNat_ofNat]
    omega
  have hzeros : BitVec.ofNat 52 m ≠ 0#52 := by
    intro h
    rw [h] at hmantissa
    exact hpos.ne hmantissa
  simp only [unpack, unpackExponent_packComponents, unpackMantissa_packComponents,
    unpackSign_packComponents, Sign.ofBitVec_toBitVec]
  rw [if_neg (by decide), if_pos trivial, dif_neg hzeros, UnpackedFloat.finite.injEq]
  exact ⟨rfl, hmantissa, rfl⟩

/-- Packing cuts what is too large. -/
theorem unpack_pack_finite {m : Nat} {e : Int} (sign : Sign) (hpos : 0 < m)
    (h : Normalized m e) :
    unpack Format.binary64 (pack Format.binary64 (.finite sign m e hpos))
      = if e ≤ 971 then .finite sign m e hpos else .infinity sign := by
  obtain ⟨hfits, hleast, hfull⟩ := h
  have hbias : Format.binary64.exponentBias = 1023 := rfl
  have hbits : Format.binary64.mantissaBits = 53 := rfl
  have hlog : m.log2 + 1 = 53 ↔ 2 ^ 52 ≤ m := by
    have hlow := Nat.le_log2 (k := 52) hpos.ne'
    have hhigh := (Nat.log2_lt hpos.ne').mpr hfits
    omega
  rw [pack]
  dsimp only
  rw [hbias, hbits]
  split_ifs with hlarge hrange hnormal hrange hrange
  · omega
  · simp [packedInfinity, unpack]
  · refine (unpack_normal sign hpos ?_ ?_ (hlog.mp hnormal) hfits).trans ?_
    · omega
    · omega
    · congr 1
      omega
  · omega
  · have hbelow := hlog.not.mp hnormal
    obtain rfl := hfull.resolve_left hbelow
    exact unpack_subnormal sign hpos (by omega)
  · omega

theorem packable_model (x : Float.Model) : Packable x.unpack :=
  packable_unpack x.toBits.toBitVec

/-- What a double stands for determines it. -/
theorem eq_of_unpack {x y : Float.Model} (hsame : x.unpack = y.unpack) : x = y := by
  have hbits := (unpack_inj_of_valid x.valid y.valid).mp hsame
  obtain ⟨bits, valid⟩ := x
  obtain ⟨bits', valid'⟩ := y
  obtain rfl := UInt64.toBitVec_inj.mp hbits
  rfl

end BulkPaths.Binary64
