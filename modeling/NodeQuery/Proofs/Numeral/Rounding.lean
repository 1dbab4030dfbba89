import Mathlib
import NodeQuery.Numeral.Decimal

/-!
# Doubles that need no rounding

A number with few enough bits is kept by every operation that yields it: its mantissa is shifted up
until it has all its bits, rounding drops zeros only, and packing it into a word and taking it out
again gives it back.
-/

namespace NodeQuery.Numeral

open Float.Model
open Float.Model.UnpackedFloat

/-- How far a mantissa is shifted up until it has all its bits. -/
def lift (n : Nat) : Nat := 52 - n.log2

theorem log2_mul_two_pow {n : Nat} (pos : 0 < n) (k : Nat) : (n * 2 ^ k).log2 = n.log2 + k := by
  induction k with
  | zero => simp
  | succ k ih =>
      have filled : n * 2 ^ k ≠ 0 := Nat.ne_of_gt (Nat.mul_pos pos (Nat.two_pow_pos k))
      rw [Nat.pow_succ, ← Nat.mul_assoc, Nat.mul_comm _ 2, Nat.log2_two_mul filled, ih]
      omega

theorem log2_le_of_lt {n : Nat} (pos : 0 < n) (small : n < 2 ^ 53) : n.log2 ≤ 52 :=
  Nat.le_of_lt_succ ((Nat.log2_lt (Nat.ne_of_gt pos)).mpr small)

theorem log2_lifted {n : Nat} (pos : 0 < n) (small : n < 2 ^ 53) : (n * 2 ^ lift n).log2 = 52 := by
  have bound := log2_le_of_lt pos small
  rw [log2_mul_two_pow pos, lift]
  omega

theorem shift_exact (m k : Nat) :
    ExtendedMantissa.ofMantissaAndAccuracy (m * 2 ^ k) .exact >>> k = ⟨m, false, false⟩ := by
  change k.repeat ExtendedMantissa.shiftRightOne ⟨m * 2 ^ k, false, false⟩ = _
  induction k generalizing m with
  | zero => simp [Nat.repeat]
  | succ k ih =>
      have apart : m * 2 ^ (k + 1) = m * 2 * 2 ^ k := by
        rw [Nat.pow_succ, Nat.mul_assoc, Nat.mul_comm 2]
      rw [Nat.repeat, apart, ih (m * 2)]
      simp [ExtendedMantissa.shiftRightOne]

/-- A mantissa and an exponent as doubles keep them: the mantissa has all its bits, or it has fewer
because the exponent is the least there is. -/
structure IsCanonical (m : Nat) (e : Int) : Prop where
  pos : 0 < m
  bound : m.log2 ≤ 52
  low : -1074 ≤ e
  full : m.log2 = 52 ∨ e = -1074

theorem isCanonical_of_full {m : Nat} (full : m.log2 = 52) (pos : 0 < m) {e : Int}
    (low : -1074 ≤ e) : IsCanonical m e :=
  ⟨pos, Nat.le_of_eq full, low, .inl full⟩

section
variable {m : Nat} {e : Int} (canonical : IsCanonical m e)
include canonical

theorem targetExponent_canonical :
    Format.binary64.targetExponent (totalExponent m e) = e := by
  have least : Format.binary64.minExponent = -1074 := rfl
  have bits : Format.binary64.mantissaBits = 53 := rfl
  have bound := canonical.bound
  have low := canonical.low
  rw [Format.targetExponent, totalExponent, least, bits]
  rcases canonical.full with full | lowest <;> omega

theorem shiftToTargetExponent_exact (k : Nat) :
    shiftToTargetExponent .binary64 (m * 2 ^ k) (e - k) .exact = (⟨m, false, false⟩, e) := by
  have total : totalExponent (m * 2 ^ k) (e - k) = totalExponent m e := by
    rw [totalExponent, totalExponent, log2_mul_two_pow canonical.pos]
    omega
  have distance : (e - (e - k)).toNat = k := by omega
  rw [shiftToTargetExponent, total, targetExponent_canonical canonical, shiftToExponent, distance,
    shift_exact]
  congr 1
  omega

theorem roundWithAccuracy_exact (sign : Sign) (k : Nat) :
    roundWithAccuracy .binary64 sign (m * 2 ^ k) (e - k) .exact = .finite sign m e canonical.pos := by
  have again := shiftToTargetExponent_exact canonical 0
  rw [Nat.pow_zero, Nat.mul_one, Int.natCast_zero, Int.sub_zero] at again
  have rounded : (⟨m, false, false⟩ : ExtendedMantissa).roundedMantissa = m := rfl
  rw [roundWithAccuracy, shiftToTargetExponent_exact canonical]
  dsimp only
  rw [rounded, again]
  dsimp only
  rw [dif_neg (Nat.ne_of_gt canonical.pos)]

end

/-- The stored form of `n * 2 ^ exponent`: the mantissa has all its bits. -/
def stored (sign : Sign) (n : Nat) (pos : 0 < n) (exponent : Int) : UnpackedFloat :=
  .finite sign (n * 2 ^ lift n) (exponent - lift n) (Nat.mul_pos pos (Nat.two_pow_pos _))

theorem round_stored (sign : Sign) {n : Nat} (pos : 0 < n) (small : n < 2 ^ 53) {e : Int}
    (low : -1022 ≤ e) (t : Nat) :
    UnpackedFloat.round .binary64 sign (n * 2 ^ t) (e - t) = stored sign n pos e := by
  have least : Format.binary64.minExponent = -1074 := rfl
  have bits : Format.binary64.mantissaBits = 53 := rfl
  have bound := log2_le_of_lt pos small
  have target : Format.binary64.targetExponent (totalExponent (n * 2 ^ t) (e - t)) = e - lift n := by
    rw [Format.targetExponent, totalExponent, log2_mul_two_pow pos, least, bits, lift]
    omega
  have filled : 0 < n * 2 ^ lift n := Nat.mul_pos pos (Nat.two_pow_pos _)
  have lowest : -1074 ≤ e - (lift n : Int) := by
    rw [lift]
    omega
  have exact_ := roundWithAccuracy_exact
    (isCanonical_of_full (log2_lifted pos small) filled lowest) sign
  rw [UnpackedFloat.round, target, decreaseExponent]
  by_cases up : t ≤ lift n
  · have distance : (e - t - (e - lift n)).toNat = lift n - t := by omega
    have same := exact_ 0
    rw [Nat.pow_zero, Nat.mul_one, Int.natCast_zero, Int.sub_zero] at same
    have mantissa : n * 2 ^ t * 2 ^ (lift n - t) = n * 2 ^ lift n := by
      rw [Nat.mul_assoc, ← Nat.pow_add, Nat.add_sub_cancel' up]
    have exponent : e - t - ((lift n - t : Nat) : Int) = e - lift n := by omega
    dsimp only
    rw [distance, Nat.shiftLeft_eq, mantissa, exponent, same, stored]
  · have distance : (e - t - (e - lift n)).toNat = 0 := by omega
    have same := exact_ (t - lift n)
    have mantissa : n * 2 ^ lift n * 2 ^ (t - lift n) = n * 2 ^ t := by
      rw [Nat.mul_assoc, ← Nat.pow_add]
      congr 2
      omega
    have exponent : e - lift n - ((t - lift n : Nat) : Int) = e - t - ((0 : Nat) : Int) := by omega
    rw [mantissa, exponent] at same
    dsimp only
    rw [distance, Nat.shiftLeft_zero, same, stored]

/-- An unpacked double that is `n * 2 ^ exponent`, in stored form. -/
inductive Stores (exponent : Int) : UnpackedFloat → Int → Prop
  | zero (sign : Sign) : Stores exponent (.zero sign) 0
  | finite (sign : Sign) {n : Nat} (pos : 0 < n) (small : n < 2 ^ 53) :
      Stores exponent (stored sign n pos exponent) (sign.apply n)

theorem stores_normalize {n : Int} (small : n.natAbs < 2 ^ 53) {e : Int} (low : -1022 ≤ e) (t : Nat) :
    Stores e (UnpackedFloat.normalize .binary64 (n * 2 ^ t) (e - t) .positive) n := by
  have raised : (0 : Int) < 2 ^ t := by positivity
  rcases Int.lt_trichotomy n 0 with negative | rfl | positive
  · have below : n * 2 ^ t < 0 := Int.mul_neg_of_neg_of_pos negative raised
    have pos : 0 < n.natAbs := by omega
    have size : (-(n * 2 ^ t)).toNat = n.natAbs * 2 ^ t := by
      zify
      rw [Int.toNat_of_nonneg (by omega), abs_of_neg negative, Int.neg_mul]
    have value : Sign.apply .negative n.natAbs = n := by
      rw [Sign.apply]
      omega
    have order : compare (n * 2 ^ t) 0 = .lt := Int.compare_eq_lt.mpr below
    have finite : Stores e _ _ := Stores.finite .negative pos small
    rw [value] at finite
    rw [UnpackedFloat.normalize, order]
    dsimp only
    rw [size, round_stored .negative pos small low]
    exact finite
  · rw [Int.zero_mul]
    exact Stores.zero .positive
  · have above : 0 < n * 2 ^ t := Int.mul_pos positive raised
    have pos : 0 < n.natAbs := by omega
    have size : (n * 2 ^ t).toNat = n.natAbs * 2 ^ t := by
      zify
      rw [Int.toNat_of_nonneg (by omega), abs_of_pos positive]
    have value : Sign.apply .positive n.natAbs = n := by
      rw [Sign.apply]
      omega
    have order : compare (n * 2 ^ t) 0 = .gt := Int.compare_eq_gt.mpr above
    have finite : Stores e _ _ := Stores.finite .positive pos small
    rw [value] at finite
    rw [UnpackedFloat.normalize, order]
    dsimp only
    rw [size, round_stored .positive pos small low]
    exact finite

theorem ofBitVec_unpackSign (sign : Sign) (exponent : BitVec 11) (mantissa : BitVec 52) :
    Sign.ofBitVec (unpackSign (packComponents .binary64 sign exponent mantissa)) = sign := by
  simp only [unpackSign, packComponents, BitVec.extractLsb]
  rw [BitVec.extractLsb'_append_eq_of_le (by omega), BitVec.extractLsb'_append_eq_of_le (by omega)]
  cases sign <;> rfl

/-- A double with all bits of its mantissa and an exponent in range is kept as it is. -/
theorem unpack_pack_full (sign : Sign) {m : Nat} (full : m.log2 = 52) (pos : 0 < m) {e : Int}
    (low : -1074 ≤ e) (high : e ≤ 971) :
    UnpackedFloat.unpack .binary64 (UnpackedFloat.pack .binary64 (.finite sign m e pos)) =
      .finite sign m e pos := by
  rcases (Nat.log2_eq_iff (Nat.ne_of_gt pos)).mp full with ⟨least, most⟩
  have biased : (e + Format.binary64.exponentBias + Format.binary64.mantissaBitsWithoutImplicit).toNat =
      (e + 1075).toNat := by
    change (e + (2 ^ (11 - 1) - 1 : Nat) + (52 : Nat)).toNat = (e + 1075).toNat
    omega
  have exponent : (BitVec.ofNat 11 (e + 1075).toNat).toNat = (e + 1075).toNat := by
    rw [BitVec.toNat_ofNat]
    omega
  have notTop : BitVec.ofNat 11 (e + 1075).toNat ≠ -1#11 := by
    intro same
    have number := congrArg BitVec.toNat same
    rw [exponent] at number
    change (e + 1075).toNat = 2047 at number
    omega
  have notBottom : BitVec.ofNat 11 (e + 1075).toNat ≠ 0#11 := by
    intro same
    have number := congrArg BitVec.toNat same
    rw [exponent] at number
    change (e + 1075).toNat = 0 at number
    omega
  have mantissa : (1#1 ++ BitVec.ofNat 52 m).toNat = m := by
    rw [BitVec.toNat_append, ← Nat.shiftLeft_add_eq_or_of_lt (BitVec.ofNat 52 m).isLt,
      BitVec.toNat_ofNat, Nat.shiftLeft_eq]
    change 1 * 2 ^ 52 + m % 2 ^ 52 = m
    omega
  rw [UnpackedFloat.pack]
  simp only [full, biased]
  have bits : 52 + 1 = Format.binary64.mantissaBits := rfl
  rw [if_neg (by omega), if_pos bits, UnpackedFloat.unpack]
  simp only [unpackMantissa_packComponents, unpackExponent_packComponents, ofBitVec_unpackSign]
  rw [if_neg notTop, if_neg notBottom]
  have bias : ((Format.binary64.exponentBias : Nat) : Int) = 1023 := rfl
  have restored : (((e + 1075).toNat : Nat) : Int) - (1023 + (52 : Nat)) = e := by omega
  simp only [mantissa, exponent, bias, restored]

/-- A double with fewer bits and the least exponent is kept as it is, too. -/
theorem unpack_pack_least (sign : Sign) {m : Nat} (few : m.log2 < 52) (pos : 0 < m) :
    UnpackedFloat.unpack .binary64 (UnpackedFloat.pack .binary64 (.finite sign m (-1074) pos)) =
      .finite sign m (-1074) pos := by
  have small : m < 2 ^ 52 := (Nat.log2_lt (Nat.ne_of_gt pos)).mp few
  have biased : (-1074 + (Format.binary64.exponentBias : Int) +
      Format.binary64.mantissaBitsWithoutImplicit).toNat = 1 := rfl
  have bits : Format.binary64.mantissaBits = 53 := rfl
  have mantissa : (BitVec.ofNat 52 m).toNat = m := by
    rw [BitVec.toNat_ofNat]
    omega
  have filled : BitVec.ofNat 52 m ≠ 0#52 := by
    intro same
    have number := congrArg BitVec.toNat same
    rw [mantissa] at number
    change m = 0 at number
    omega
  have notTop : (0#11 : BitVec 11) ≠ -1#11 := by decide
  have bias : ((Format.binary64.exponentBias : Nat) : Int) = 1023 := rfl
  have restored : ((0#11 : BitVec 11).toNat : Int) - (1023 + (52 : Nat)) + 1 = -1074 := rfl
  rw [UnpackedFloat.pack]
  simp only [biased]
  rw [if_neg (by decide), if_neg (by omega), UnpackedFloat.unpack]
  simp only [unpackMantissa_packComponents, unpackExponent_packComponents, ofBitVec_unpackSign]
  rw [if_neg notTop, if_pos trivial, dif_neg filled]
  simp only [mantissa, bias, restored]

theorem unpack_pack_finite (sign : Sign) {m : Nat} {e : Int} (canonical : IsCanonical m e)
    (high : e ≤ 971) :
    UnpackedFloat.unpack .binary64 (UnpackedFloat.pack .binary64 (.finite sign m e canonical.pos)) =
      .finite sign m e canonical.pos := by
  by_cases full : m.log2 = 52
  · exact unpack_pack_full sign full canonical.pos canonical.low high
  · have few : m.log2 < 52 := Nat.lt_of_le_of_ne canonical.bound full
    rcases canonical.full with impossible | rfl
    · exact absurd impossible full
    · exact unpack_pack_least sign few canonical.pos

theorem unpack_pack_stores {u : UnpackedFloat} {n : Int} {e : Int} (stores : Stores e u n)
    (low : -1022 ≤ e) (high : e ≤ 971) : (Float.Model.pack u).unpack = u := by
  cases stores with
  | zero sign => cases sign <;> rfl
  | @finite sign n pos small =>
      have lowest : -1074 ≤ e - (lift n : Int) := by
        rw [lift]
        omega
      exact unpack_pack_full sign (log2_lifted pos small) _ lowest (by omega)

theorem exists_of_stores {u : UnpackedFloat} {k e : Int} (stores : Stores e u k) (positive : 0 < k) :
    ∃ m pos, u = stored .positive m pos e ∧ k = m := by
  cases stores with
  | zero sign => omega
  | @finite sign m pos small =>
      cases sign with
      | negative =>
          simp only [Sign.apply] at positive
          omega
      | positive => exact ⟨m, pos, rfl, rfl⟩

def one : UnpackedFloat := .finite .positive (2 ^ 52) (-52) (Nat.two_pow_pos 52)

theorem mul_one_of_stores {u : UnpackedFloat} {k e : Int} (stores : Stores e u k) (low : -1022 ≤ e) :
    UnpackedFloat.mul .binary64 u one = u := by
  cases stores with
  | zero sign => cases sign <;> rfl
  | @finite sign n pos small =>
      have lowest : -1074 ≤ e - (lift n : Int) := by
        rw [lift]
        omega
      have canonical := isCanonical_of_full (log2_lifted pos small)
        (Nat.mul_pos pos (Nat.two_pow_pos _)) lowest
      have exact_ := roundWithAccuracy_exact canonical sign 52
      have sameSign : sign * .positive = sign := by cases sign <;> rfl
      simp only [stored, one, UnpackedFloat.mul, sameSign]
      exact exact_

theorem divCore_one {m : Nat} (full : m.log2 = 52) {e : Int} (low : -1073 ≤ e) :
    divCore .binary64 m e (2 ^ 52) (-52) = (m * 2 ^ 1, e - (1 : Nat), .exact) := by
  have least : Format.binary64.minExponent = -1074 := rfl
  have bits : Format.binary64.mantissaBits = 53 := rfl
  have target : min (e - -52) (Format.binary64.targetExponent
      (totalExponent m e - totalExponent (2 ^ 52) (-52))) = e - 1 := by
    rw [Format.targetExponent, totalExponent, totalExponent, full, Nat.log2_two_pow, least, bits]
    omega
  have distance : (e - -52 - (e - 1)).toNat = 53 := by omega
  have raised : m <<< 53 = m * 2 ^ 1 * 2 ^ 52 := by rw [Nat.shiftLeft_eq, Nat.mul_assoc, ← Nat.pow_add]
  have rest : m * 2 ^ 1 * 2 ^ 52 % 2 ^ 52 = 0 := Nat.mul_mod_left _ _
  rw [divCore, target, distance, raised, rest, Nat.mul_div_cancel _ (Nat.two_pow_pos 52)]
  rfl

theorem div_one_of_stores {u : UnpackedFloat} {k e : Int} (stores : Stores e u k) (low : -1021 ≤ e) :
    UnpackedFloat.div .binary64 u one = u := by
  cases stores with
  | zero sign => cases sign <;> rfl
  | @finite sign n pos small =>
      have lowest : -1073 ≤ e - (lift n : Int) := by
        rw [lift]
        omega
      have full := log2_lifted pos small
      have canonical := isCanonical_of_full full (Nat.mul_pos pos (Nat.two_pow_pos _))
        (Int.le_trans (by omega) lowest)
      have exact_ := roundWithAccuracy_exact canonical sign 1
      have sameSign : sign / .positive = sign := by cases sign <;> rfl
      simp only [stored, one, UnpackedFloat.div, sameSign, divCore_one full lowest]
      exact exact_

theorem shift_mantissa (em : ExtendedMantissa) (k : Nat) : (em >>> k).mantissa = em.mantissa / 2 ^ k := by
  change (k.repeat ExtendedMantissa.shiftRightOne em).mantissa = _
  induction k with
  | zero => rw [Nat.pow_zero, Nat.div_one]; rfl
  | succ k ih =>
      rw [Nat.repeat, ExtendedMantissa.shiftRightOne, ih, Nat.div_div_eq_div_mul, Nat.pow_succ]

theorem roundedMantissa_bounds (em : ExtendedMantissa) :
    em.mantissa ≤ em.roundedMantissa ∧ em.roundedMantissa ≤ em.mantissa + 1 := by
  rcases em with ⟨m, round, sticky⟩
  have odd := Nat.mod_lt m Nat.two_pos
  cases round <;> cases sticky <;>
    simp only [ExtendedMantissa.roundedMantissa, ExtendedMantissa.accuracy,
      Accuracy.roundToNearestEven] <;> omega

/-- The leading bits of a number, as many as a mantissa has. -/
theorem leading_bounds {n k : Nat} (size : n.log2 = 52 + k) (filled : n ≠ 0) :
    2 ^ 52 ≤ n / 2 ^ k ∧ n / 2 ^ k < 2 ^ 53 := by
  rcases (Nat.log2_eq_iff filled).mp size with ⟨least, most⟩
  rw [Nat.le_div_iff_mul_le (Nat.two_pow_pos _), Nat.div_lt_iff_lt_mul (Nat.two_pow_pos _),
    ← Nat.pow_add, ← Nat.pow_add, Nat.add_right_comm 52 1 k]
  exact ⟨least, most⟩

/-- Too large an exponent makes a double infinite. -/
theorem unpack_pack_high (sign : Sign) {m : Nat} (pos : 0 < m) {e : Int} (high : 971 < e) :
    UnpackedFloat.unpack .binary64 (UnpackedFloat.pack .binary64 (.finite sign m e pos)) =
      .infinity sign := by
  have biased : 2 ^ Format.binary64.exponentBits ≤
      (e + Format.binary64.exponentBias + Format.binary64.mantissaBitsWithoutImplicit).toNat + 1 := by
    change 2048 ≤ (e + (1023 : Nat) + (52 : Nat)).toNat + 1
    omega
  rw [UnpackedFloat.pack]
  dsimp only
  rw [if_pos biased]
  cases sign <;> rfl

end NodeQuery.Numeral
