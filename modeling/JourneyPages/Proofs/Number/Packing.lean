import JourneyPages.Number.Binary64
import Mathlib

/-!
Doubles and the logical model of `Float`. Taking a double apart is what the model does to unpack it,
and a number that the model packs is read again as the same sign, significand and exponent, or as
an infinity where the exponent is too large.
-/
namespace JourneyPages.Number.Binary64

open Float.Model (Format UnpackedFloat)
open Float.Model.UnpackedFloat

/-- Whether a sign is the negative one. -/
def isNegative : Sign → Bool
  | .negative => true
  | .positive => false

/-- A double taken apart, as the logical model of `Float` has it. -/
def ofUnpacked : Float.Model.UnpackedFloat → Binary64
  | .notANumber => .nan
  | .infinity s => .infinite (isNegative s)
  | .zero s => .finite (isNegative s) 0 (-1074)
  | .finite s m e _ => .finite (isNegative s) m e

/-! Fields -/

section bits
variable (b : BitVec Format.binary64.numBits)

theorem toNat_unpackExponent :
    (@unpackExponent Format.binary64 b).toNat = b.toNat / leadingBit % 2048 := by
  simp [unpackExponent, BitVec.extractLsb, BitVec.extractLsb'_toNat, Nat.shiftRight_eq_div_pow,
    leadingBit]

theorem toNat_unpackMantissa :
    (@unpackMantissa Format.binary64 b).toNat = b.toNat % leadingBit := by
  simp [unpackMantissa, BitVec.extractLsb, BitVec.extractLsb'_toNat, leadingBit]

theorem isNegative_unpackSign :
    isNegative (Sign.ofBitVec (@unpackSign Format.binary64 b)) =
      decide (signBit ≤ b.toNat) := by
  have hlt := b.isLt
  have hbit : (@unpackSign Format.binary64 b).toNat = b.toNat / signBit % 2 := by
    simp [unpackSign, BitVec.extractLsb, BitVec.extractLsb'_toNat, Nat.shiftRight_eq_div_pow,
      signBit]
  have hzero : @unpackSign Format.binary64 b = 0#1 ↔ b.toNat < signBit := by
    rw [← BitVec.toNat_inj, hbit, BitVec.toNat_ofNat]
    change b.toNat < 18446744073709551616 at hlt
    simp only [signBit]
    omega
  unfold Sign.ofBitVec
  split
  case isTrue h => simp [isNegative, hzero.mp h]
  case isFalse h =>
    rw [hzero] at h
    simp only [isNegative]
    exact (decide_eq_true (by omega)).symm

end bits

/-- The double with a sign, an exponent field and fraction bits. -/
def ofFields (negative : Bool) (field fraction : Nat) : Binary64 :=
  if field = 2047 then if fraction = 0 then .infinite negative else .nan
  else if field = 0 then .finite negative fraction (-1074)
  else .finite negative (leadingBit + fraction) ((field : Int) - 1075)

theorem ofFloat_eq_ofFields (x : Float) :
    ofFloat x = ofFields
      (isNegative (Sign.ofBitVec (@unpackSign Format.binary64 x.toBits.toBitVec)))
      (@unpackExponent Format.binary64 x.toBits.toBitVec).toNat
      (@unpackMantissa Format.binary64 x.toBits.toBitVec).toNat := by
  have hbits : x.toBits.toBitVec.toNat = x.toBits.toNat := rfl
  rw [isNegative_unpackSign, toNat_unpackExponent, toNat_unpackMantissa, hbits]
  rfl

theorem ofFloat_eq_ofUnpacked (x : Float) : ofFloat x = ofUnpacked x.toModel.unpack := by
  change ofFloat x = ofUnpacked (UnpackedFloat.unpack Format.binary64 x.toBits.toBitVec)
  rw [ofFloat_eq_ofFields]
  generalize x.toBits.toBitVec = b
  have hinf : @unpackExponent Format.binary64 b = -1#_ ↔
      (@unpackExponent Format.binary64 b).toNat = 2047 := by
    rw [← BitVec.toNat_inj]
    rfl
  have hzero : @unpackExponent Format.binary64 b = 0#_ ↔
      (@unpackExponent Format.binary64 b).toNat = 0 := by
    rw [← BitVec.toNat_inj]
    rfl
  have hnone : @unpackMantissa Format.binary64 b = 0#_ ↔
      (@unpackMantissa Format.binary64 b).toNat = 0 := by
    rw [← BitVec.toNat_inj]
    rfl
  have hbias : ((Format.binary64.exponentBias : Int) + (52 : Nat)) = 1075 := rfl
  have himplicit : (1#1 ++ @unpackMantissa Format.binary64 b).toNat =
      leadingBit + (@unpackMantissa Format.binary64 b).toNat := by
    have hlt := (@unpackMantissa Format.binary64 b).isLt
    rw [BitVec.toNat_append, ← Nat.shiftLeft_add_eq_or_of_lt hlt]
    rfl
  unfold UnpackedFloat.unpack ofFields
  simp only [hinf, hzero, hnone, hbias, himplicit]
  by_cases h : (@unpackExponent Format.binary64 b).toNat = 2047
  · simp only [h, if_true]
    split <;> rfl
  · simp only [h, if_false]
    split
    case isFalse => rfl
    case isTrue h0 =>
      split
      case isTrue h1 => rw [h1]; rfl
      case isFalse => rw [h0]; rfl

/-! Packed numbers -/

theorem ofFloat_of_components {x : Float} {s : Sign} {e : BitVec 11} {m : BitVec 52}
    (h : x.toBits.toBitVec = packComponents Format.binary64 s e m) :
    ofFloat x = ofFields (isNegative s) e.toNat m.toNat := by
  rw [ofFloat_eq_ofFields, h, unpackSign_packComponents, Sign.ofBitVec_toBitVec,
    unpackExponent_packComponents, unpackMantissa_packComponents]

/-- Significands and exponents as rounding leaves them, of 53 bits unless the exponent is the least
of all. -/
structure Proper (m : Nat) (e : Int) : Prop where
  lt : m < 2 ^ 53
  le : -1074 ≤ e
  normal : 2 ^ 52 ≤ m ∨ e = -1074

theorem proper_of_ofFloat {x : Float} {s : Bool} {m : Nat} {e : Int}
    (h : ofFloat x = .finite s m e) : Proper m e ∧ e ≤ 971 := by
  have hfield := Nat.mod_lt (x.toBits.toNat / leadingBit) (show 2048 > 0 by decide)
  have hfraction := Nat.mod_lt x.toBits.toNat (show leadingBit > 0 by decide)
  unfold ofFloat at h
  dsimp only at h
  generalize x.toBits.toNat / leadingBit % 2048 = field at *
  generalize x.toBits.toNat % leadingBit = fraction at *
  unfold leadingBit at *
  split at h
  · split at h <;> cases h
  · split at h
    · cases h
      exact ⟨⟨by omega, by omega, .inr rfl⟩, by omega⟩
    · cases h
      exact ⟨⟨by omega, by omega, .inl (by omega)⟩, by omega⟩

/-- What is packed is read again, unless it is too large. -/
theorem ofFloat_pack_finite {s : Sign} {m : Nat} {e : Int} (hm : 0 < m) (h : Proper m e) :
    ofFloat (Float.ofModel (Float.Model.pack (.finite s m e hm))) =
      if e ≤ 971 then .finite (isNegative s) m e else .infinite (isNegative s) := by
  obtain ⟨hlt, hle, hnormal⟩ := h
  let x := Float.ofModel (Float.Model.pack (.finite s m e hm))
  have hbits : x.toBits.toBitVec = UnpackedFloat.pack Format.binary64 (.finite s m e hm) := rfl
  have hbias : (e + (Format.binary64.exponentBias : Int) + (52 : Nat)).toNat =
      (e + 1075).toNat := by
    change (e + (1023 : Nat) + (52 : Nat)).toNat = (e + 1075).toNat
    omega
  unfold UnpackedFloat.pack at hbits
  dsimp only at hbits
  rw [hbias] at hbits
  change ofFloat x = _
  by_cases hlarge : 2 ^ 11 ≤ (e + 1075).toNat + 1
  · rw [if_pos hlarge] at hbits
    rw [ofFloat_of_components hbits, if_neg (show ¬ e ≤ 971 by omega)]
    rfl
  rw [if_neg hlarge] at hbits
  rw [if_pos (show e ≤ 971 by omega)]
  by_cases hbig : 2 ^ 52 ≤ m
  · have hlog : m.log2 + 1 = Format.binary64.mantissaBits := by
      rw [(Nat.log2_eq_iff (Nat.ne_of_gt hm)).mpr ⟨hbig, hlt⟩]
      rfl
    rw [if_pos hlog] at hbits
    rw [ofFloat_of_components hbits, ofFields, BitVec.toNat_ofNat, BitVec.toNat_ofNat,
      Nat.mod_eq_of_lt (by omega), if_neg (by omega), if_neg (by omega)]
    have hmantissa : leadingBit + m % 2 ^ 52 = m := by
      rw [leadingBit]
      omega
    have hexponent : ((e + 1075).toNat : Int) - 1075 = e := by omega
    rw [hmantissa, hexponent]
  · have hlog : m.log2 + 1 ≠ Format.binary64.mantissaBits := by
      have hsmall := (Nat.log2_lt (Nat.ne_of_gt hm)).mpr (Nat.lt_of_not_le hbig)
      change m.log2 + 1 ≠ 53
      omega
    obtain rfl := hnormal.resolve_left hbig
    rw [if_neg hlog] at hbits
    rw [ofFloat_of_components hbits, ofFields, BitVec.toNat_ofNat, BitVec.toNat_ofNat,
      Nat.mod_eq_of_lt (Nat.lt_of_not_le hbig)]
    rfl

/-- Packing of what is finite, zero or not. -/
theorem ofFloat_pack {u : Float.Model.UnpackedFloat} {s : Bool} {m : Nat} {e : Int}
    (hu : ofUnpacked u = .finite s m e) (h : Proper m e) :
    ofFloat (Float.ofModel (Float.Model.pack u)) =
      if e ≤ 971 then .finite s m e else .infinite s := by
  cases u with
  | notANumber => cases hu
  | infinity => cases hu
  | zero sign =>
    cases hu
    cases sign <;> decide
  | finite sign =>
    cases hu
    exact ofFloat_pack_finite _ h

@[simp] theorem ofFloat_pack_infinity (s : Sign) :
    ofFloat (Float.ofModel (Float.Model.pack (.infinity s))) = .infinite (isNegative s) := by
  cases s <;> decide

end JourneyPages.Number.Binary64
