import NodeQuery.Proofs.Numeral.Rounding

/-!
# Doubles that are taken apart

What a double is when it is taken out of its word: a whole number with few bits in stored form, and any
double in the parts that are read off its bits.
-/

namespace NodeQuery.Numeral

open Float.Model
open Float.Model.UnpackedFloat

theorem unpack_toFloat {n : Nat} (small : n < 2 ^ 53) :
    Stores 0 n.toUInt64.toFloat.toModel.unpack n := by
  have same : n.toUInt64.toNat = n := by
    change n % 2 ^ 64 = n
    omega
  have stores : Stores 0 (UnpackedFloat.normalize .binary64 n 0 .positive) n := by
    have normalized := stores_normalize (n := n) (by omega) (e := 0) (by omega) 0
    simpa using normalized
  have made : n.toUInt64.toFloat.toModel =
      Float.Model.pack (UnpackedFloat.normalize .binary64 n 0 .positive) := by
    change Float.Model.pack (UnpackedFloat.normalize .binary64 n.toUInt64.toNat 0 .positive) = _
    rw [same]
  rw [made, unpack_pack_stores stores (by omega) (by omega)]
  exact stores

/-- A whole number below `2 ^ 53` is itself, whichever way it is made a double. -/
theorem unpack_ofScientific {n : Nat} (small : n < 2 ^ 53) (fraction : Bool) :
    Stores 0 (Float.ofScientific n fraction 0).toModel.unpack n := by
  have whole := unpack_toFloat small
  have unit : Float.exactlyRepresentablePowersOfTen[0].toModel.unpack = one := rfl
  have fast : n < 2 ^ 53 ∧ 0 ≤ 22 := ⟨small, by omega⟩
  have made : (Float.ofScientific n fraction 0).toModel =
      Float.Model.pack n.toUInt64.toFloat.toModel.unpack := by
    rw [Float.ofScientific, dif_pos fast]
    cases fraction with
    | false =>
        have kept := mul_one_of_stores whole (by omega)
        rw [← unit] at kept
        exact congrArg Float.Model.pack kept
    | true =>
        have kept := div_one_of_stores whole (by omega)
        rw [← unit] at kept
        exact congrArg Float.Model.pack kept
  rw [made, unpack_pack_stores whole (by omega) (by omega)]
  exact whole

/-- The parts read off the bits are those of the unpacked double. -/
theorem parts_ofFloat (x : Float) :
    Parts.ofFloat x =
      match x.toModel.unpack with
      | .infinity sign => .infinite (sign == .negative)
      | .notANumber => .undefined
      | .zero sign => .finite (sign == .negative) 0 Parts.leastExponent
      | .finite sign mantissa exponent _ => .finite (sign == .negative) mantissa exponent := by
  let bits : BitVec 64 := x.toModel.toBits.toBitVec
  have mantissa : (@unpackMantissa .binary64 bits).toNat = bits.toNat % 2 ^ 52 := by
    simp [unpackMantissa, BitVec.extractLsb_toNat]
  have exponent : (@unpackExponent .binary64 bits).toNat = bits.toNat / 2 ^ 52 % 2 ^ 11 := by
    simp [unpackExponent, BitVec.extractLsb_toNat, Nat.shiftRight_eq_div_pow]
  have sign : (@unpackSign .binary64 bits).toNat = bits.toNat / 2 ^ 63 := by
    have bound := bits.isLt
    simp [unpackSign, BitVec.extractLsb_toNat, Nat.shiftRight_eq_div_pow]
    omega
  have top : @unpackExponent .binary64 bits = -1#_ ↔
      (bits.toNat / 2 ^ 52 % 2 ^ 11 == 2047) = true := by
    rw [← BitVec.toNat_inj, exponent, beq_iff_eq]
    rfl
  have bottom : @unpackExponent .binary64 bits = 0#_ ↔
      (bits.toNat / 2 ^ 52 % 2 ^ 11 == 0) = true := by
    rw [← BitVec.toNat_inj, exponent, beq_iff_eq]
    rfl
  have empty : @unpackMantissa .binary64 bits = 0#_ ↔ bits.toNat % 2 ^ 52 = 0 := by
    rw [← BitVec.toNat_inj, mantissa]
    rfl
  have negative : (bits.toNat / 2 ^ 63 == 1) =
      (Sign.ofBitVec (@unpackSign .binary64 bits) == .negative) := by
    rw [← sign]
    generalize @unpackSign .binary64 bits = b
    revert b
    decide
  have full : (1#1 ++ @unpackMantissa .binary64 bits).toNat = 2 ^ 52 + bits.toNat % 2 ^ 52 := by
    rw [BitVec.toNat_append, ← Nat.shiftLeft_add_eq_or_of_lt (BitVec.isLt _), mantissa,
      Nat.shiftLeft_eq]
    rfl
  have bias : ((Format.binary64.exponentBias : Nat) : Int) = 1023 := rfl
  change Parts.ofFloat x = match UnpackedFloat.unpack .binary64 bits with
    | .infinity sign => _ | .notANumber => _ | .zero sign => _ | .finite sign mantissa exponent _ => _
  rw [UnpackedFloat.unpack]
  have shown : x.toBits.toNat = bits.toNat := rfl
  simp only [Parts.ofFloat, Nat.pow_eq, shown, negative]
  generalize Sign.ofBitVec (@unpackSign .binary64 bits) = s
  by_cases isTop : (bits.toNat / 2 ^ 52 % 2 ^ 11 == 2047) = true
  · rw [if_pos isTop, if_pos (top.mpr isTop)]
    by_cases isEmpty : bits.toNat % 2 ^ 52 = 0
    · rw [if_pos (beq_iff_eq.mpr isEmpty), if_pos (empty.mpr isEmpty)]
    · rw [if_neg (fun same => isEmpty (beq_iff_eq.mp same)), if_neg (fun same => isEmpty (empty.mp same))]
  · rw [if_neg isTop, if_neg (fun same => isTop (top.mp same))]
    by_cases isBottom : (bits.toNat / 2 ^ 52 % 2 ^ 11 == 0) = true
    · rw [if_pos isBottom, if_pos (bottom.mpr isBottom)]
      by_cases isEmpty : bits.toNat % 2 ^ 52 = 0
      · rw [dif_pos (empty.mpr isEmpty)]
        simp only [isEmpty]
      · rw [dif_neg (fun same => isEmpty (empty.mp same))]
        simp only [mantissa, exponent, beq_iff_eq.mp isBottom, bias]
        rfl
    · rw [if_neg isBottom, if_neg (fun same => isBottom (bottom.mp same))]
      simp only [full, exponent, bias]
      congr 1

end NodeQuery.Numeral
