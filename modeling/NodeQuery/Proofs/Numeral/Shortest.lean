import Mathlib
import NodeQuery.Numeral.Text
import NodeQuery.Proofs.Numeral.Unpacked

/-!
# Decimals that read back

A number without a sign is printed as a decimal, and the double nearest to that decimal is the number
itself.  The short decimals are checked when they are picked.  If none of them is good the exact value
is printed, and reading it rounds nothing: a quotient that is the value of a double is computed
without a rest.
-/

namespace NodeQuery.Numeral

open Float.Model
open Float.Model.UnpackedFloat

def value (m : Nat) (e : Int) : ℚ := m * 2 ^ e

theorem value_raised (m : Nat) {t e : Int} (le : t ≤ e) :
    value m e = (m * 2 ^ (e - t).toNat : Nat) * 2 ^ t := by
  have distance : ((e - t).toNat : Int) = e - t := Int.toNat_of_nonneg (by omega)
  rw [value]
  push_cast
  rw [mul_assoc, ← zpow_natCast, distance, ← zpow_add₀ two_ne_zero, Int.sub_add_cancel]

/-- A value that is not zero is taken out of a double as it is read off the bits. -/
theorem unpack_of_parts {x : Float} {m : Nat} {e : Int} (parts : Parts.ofFloat x = .finite false m e)
    (filled : 0 < m) : x.toModel.unpack = .finite .positive m e filled := by
  rw [parts_ofFloat] at parts
  rcases shown : x.toModel.unpack with sign | _ | sign | ⟨sign, mantissa, exponent, pos⟩
  · rw [shown] at parts; cases parts
  · rw [shown] at parts; cases parts
  · rw [shown] at parts
    injection parts with _ none
    omega
  · rw [shown] at parts
    injection parts with unsigned sameMantissa sameExponent
    subst sameMantissa sameExponent
    cases sign with
    | positive => rfl
    | negative => cases unsigned

/-- No minus sign: what numbers are read as. -/
def Unsigned : UnpackedFloat → Prop
  | .infinity sign => sign = .positive
  | .notANumber => True
  | .zero sign => sign = .positive
  | .finite sign _ _ _ => sign = .positive

theorem unsigned_roundWithAccuracy (m : Nat) (e : Int) (accuracy : Accuracy) :
    Unsigned (roundWithAccuracy .binary64 .positive m e accuracy) := by
  rw [roundWithAccuracy]
  dsimp only
  split <;> rfl

theorem unsigned_mul {u v : UnpackedFloat} (left : Unsigned u) (right : Unsigned v) :
    Unsigned (UnpackedFloat.mul .binary64 u v) := by
  cases u <;> cases v <;> cases left <;> cases right
  all_goals first
    | exact unsigned_roundWithAccuracy _ _ _
    | trivial

theorem unsigned_div {u v : UnpackedFloat} (left : Unsigned u) (right : Unsigned v) :
    Unsigned (UnpackedFloat.div .binary64 u v) := by
  cases u <;> cases v <;> cases left <;> cases right
  all_goals first
    | exact unsigned_roundWithAccuracy _ _ _
    | trivial

theorem unsigned_ofScientific (digits : Nat) (e : Int) :
    Unsigned (UnpackedFloat.ofScientific .binary64 digits e) := by
  rw [UnpackedFloat.ofScientific]
  split
  · rfl
  · split
    · rfl
    · split
      · rfl
      · split
        · exact unsigned_mul rfl rfl
        · exact unsigned_div rfl rfl

theorem unsigned_normalize (n : Nat) :
    Unsigned (UnpackedFloat.normalize .binary64 n 0 .positive) := by
  rw [UnpackedFloat.normalize]
  rcases Nat.eq_zero_or_pos n with rfl | positive
  · rfl
  · have order : compare (n : Int) 0 = .gt := Int.compare_eq_gt.mpr (by omega)
    rw [order]
    exact unsigned_roundWithAccuracy _ _ _

/-- The mantissa of a value without a sign over a lower exponent. -/
def Parts.mantissaOver (t : Int) : Parts → Option Nat
  | .finite false m e => if t ≤ e then some (m * 2 ^ (e - t).toNat) else none
  | _ => none

theorem mantissaOver_powerOfTen : ∀ k : Fin Float.exactlyRepresentablePowersOfTen.size,
    (Parts.ofFloat Float.exactlyRepresentablePowersOfTen[k]).mantissaOver (-52) =
      some (10 ^ k.val * 2 ^ 52) := by
  decide +kernel

/-- The power of ten that the table has at a place is a double without a rest. -/
theorem unpack_powerOfTen {k : Nat} (inside : k < Float.exactlyRepresentablePowersOfTen.size) :
    ∃ m e pos, Float.exactlyRepresentablePowersOfTen[k].toModel.unpack = .finite .positive m e pos ∧
      value m e = 10 ^ k := by
  have tabled := mantissaOver_powerOfTen ⟨k, inside⟩
  change (Parts.ofFloat Float.exactlyRepresentablePowersOfTen[k]).mantissaOver (-52) =
    some (10 ^ k * 2 ^ 52) at tabled
  rcases parts : Parts.ofFloat Float.exactlyRepresentablePowersOfTen[k] with _ | _ | ⟨negative, m, e⟩
  · rw [parts] at tabled; cases tabled
  · rw [parts] at tabled; cases tabled
  · cases negative with
    | true => rw [parts] at tabled; cases tabled
    | false =>
        rw [parts, Parts.mantissaOver] at tabled
        split at tabled
        · rename_i low
          have raised : m * 2 ^ (e - -52).toNat = 10 ^ k * 2 ^ 52 := Option.some.inj tabled
          have large : 0 < 10 ^ k * 2 ^ 52 := by positivity
          have filled : 0 < m := Nat.pos_of_mul_pos_right (raised.symm ▸ large)
          refine ⟨m, e, filled, unpack_of_parts parts filled, ?_⟩
          rw [value_raised m low, raised]
          push_cast
          rw [mul_assoc]
          norm_num
        · cases tabled

theorem unsigned_powerOfTen {k : Nat} (inside : k < Float.exactlyRepresentablePowersOfTen.size) :
    Unsigned Float.exactlyRepresentablePowersOfTen[k].toModel.unpack := by
  rcases unpack_powerOfTen inside with ⟨m, e, pos, shown, _⟩
  rw [shown]
  rfl

/-- What is packed without a minus sign is taken out again without one. -/
theorem unsigned_unpack_pack {u : UnpackedFloat} (unsigned : Unsigned u) :
    Unsigned (UnpackedFloat.unpack .binary64 (UnpackedFloat.pack .binary64 u)) := by
  have positive : ∃ exponent mantissa, UnpackedFloat.pack .binary64 u =
      packComponents .binary64 .positive exponent mantissa := by
    cases u with
    | infinity sign => cases unsigned; exact ⟨_, _, rfl⟩
    | notANumber => exact ⟨_, _, rfl⟩
    | zero sign => cases unsigned; exact ⟨_, _, rfl⟩
    | finite sign m e pos =>
        cases unsigned
        rw [UnpackedFloat.pack]
        dsimp only
        split
        · exact ⟨_, _, rfl⟩
        · split <;> exact ⟨_, _, rfl⟩
  rcases positive with ⟨exponent, mantissa, packed⟩
  rw [packed, UnpackedFloat.unpack]
  simp only [ofBitVec_unpackSign]
  split
  · split
    · rfl
    · trivial
  · split
    · split <;> rfl
    · rfl

theorem unsigned_toFloat (decimal : Decimal) : Unsigned decimal.toFloat.toModel.unpack := by
  rw [Decimal.toFloat, Float.ofScientific]
  split
  · rename_i fast
    have digits : Unsigned decimal.digits.toUInt64.toFloat.toModel.unpack :=
      unsigned_unpack_pack (unsigned_normalize _)
    exact unsigned_unpack_pack (unsigned_div digits (unsigned_powerOfTen _))
  · exact unsigned_unpack_pack (unsigned_ofScientific _ _)

/-- A word is put together from its fields. -/
theorem exists_packComponents (bits : BitVec 64) :
    ∃ sign exponent mantissa, packComponents .binary64 sign exponent mantissa = bits := by
  have sign : (Sign.ofBitVec (@unpackSign .binary64 bits)).toBitVec = @unpackSign .binary64 bits := by
    generalize @unpackSign .binary64 bits = b
    revert b
    decide
  refine ⟨Sign.ofBitVec (@unpackSign .binary64 bits), @unpackExponent .binary64 bits,
    @unpackMantissa .binary64 bits, ?_⟩
  rw [packComponents, sign]
  simp only [unpackSign, unpackExponent, unpackMantissa, BitVec.extractLsb]
  change (bits.extractLsb' 63 1 ++ bits.extractLsb' 52 11) ++ bits.extractLsb' 0 52 = bits
  rw [BitVec.extractLsb'_append_extractLsb'_eq_extractLsb' (by decide)]
  exact BitVec.extractLsb'_append_extractLsb'

/-- Fields of a finite double are packed as they were taken out. -/
theorem pack_unpack_packComponents (sign : Sign) (exponent : BitVec 11) (mantissa : BitVec 52)
    (finite : (UnpackedFloat.unpack .binary64
      (packComponents .binary64 sign exponent mantissa)).isFinite = true) :
    UnpackedFloat.pack .binary64
        (UnpackedFloat.unpack .binary64 (packComponents .binary64 sign exponent mantissa)) =
      packComponents .binary64 sign exponent mantissa := by
  have bias : ((Format.binary64.exponentBias : Nat) : Int) = 1023 := rfl
  have bits : Format.binary64.mantissaBits = 53 := rfl
  have exponentBound := exponent.isLt
  have mantissaBound := mantissa.isLt
  rw [UnpackedFloat.unpack] at finite ⊢
  simp only [unpackMantissa_packComponents, unpackExponent_packComponents, ofBitVec_unpackSign]
    at finite ⊢
  by_cases top : exponent = -1#11
  · rw [if_pos top] at finite
    split at finite <;> cases finite
  · rw [if_neg top]
    by_cases bottom : exponent = 0#11
    · rw [if_pos bottom]
      by_cases empty : mantissa = 0#52
      · rw [dif_pos empty, empty, bottom]
        rfl
      · have filled : mantissa.toNat ≠ 0 := fun same => empty (BitVec.eq_of_toNat_eq same)
        have few : mantissa.toNat.log2 < 52 := (Nat.log2_lt filled).mpr mantissaBound
        have biased : (((0#11 : BitVec 11).toNat : Int) -
            ((Format.binary64.exponentBias : Nat) + (52 : Nat)) + 1 +
            (Format.binary64.exponentBias : Nat) + (52 : Nat)).toNat = 1 := rfl
        rw [dif_neg empty, bottom, UnpackedFloat.pack]
        dsimp only
        rw [biased, if_neg (by decide), if_neg (by omega), BitVec.ofNat_toNat, BitVec.setWidth_eq]
    · have notTop : exponent.toNat ≠ 2047 := fun same => top (BitVec.eq_of_toNat_eq same)
      have whole : (1#1 ++ mantissa).toNat = 2 ^ 52 + mantissa.toNat := by
        rw [BitVec.toNat_append, ← Nat.shiftLeft_add_eq_or_of_lt mantissaBound, Nat.shiftLeft_eq]
        rfl
      have full : (1#1 ++ mantissa).toNat.log2 = 52 := by
        rw [whole]
        exact (Nat.log2_eq_iff (by omega)).mpr ⟨by omega, by omega⟩
      have biased : ((exponent.toNat : Int) - ((Format.binary64.exponentBias : Nat) + (52 : Nat)) +
          (Format.binary64.exponentBias : Nat) + (52 : Nat)).toNat = exponent.toNat := by omega
      have fraction : BitVec.ofNat 52 (1#1 ++ mantissa).toNat = mantissa := by
        apply BitVec.eq_of_toNat_eq
        rw [BitVec.toNat_ofNat, whole]
        omega
      rw [if_neg bottom, UnpackedFloat.pack]
      dsimp only
      rw [biased, if_neg (by change ¬ 2048 ≤ _; omega), if_pos (by omega)]
      change packComponents .binary64 sign (BitVec.ofNat 11 exponent.toNat)
        (BitVec.ofNat 52 (1#1 ++ mantissa).toNat) = _
      rw [fraction, BitVec.ofNat_toNat, BitVec.setWidth_eq]

theorem pack_unpack {x : Float} (finite : x.isFinite = true) :
    Float.Model.pack x.toModel.unpack = x.toModel := by
  rcases x with ⟨⟨⟨bits⟩, valid⟩⟩
  rcases exists_packComponents bits with ⟨sign, exponent, mantissa, rfl⟩
  have same := pack_unpack_packComponents sign exponent mantissa finite
  rw [Float.Model.pack, Float.Model.mk.injEq]
  exact congrArg UInt64.ofBitVec same

/-- A finite double is known by what is taken out of it. -/
theorem eq_of_unpack_eq {x y : Float} (finite : x.isFinite = true)
    (same : y.toModel.unpack = x.toModel.unpack) : y = x := by
  have other : y.isFinite = true := by
    change y.toModel.unpack.isFinite = true
    rw [same]
    exact finite
  have models : y.toModel = x.toModel := by
    rw [← pack_unpack finite, ← pack_unpack other, same]
  cases x
  cases y
  exact congrArg Float.ofModel models

theorem two_pow_log2_le_value {m : Nat} (pos : 0 < m) (e : Int) :
    (2 : ℚ) ^ (m.log2 + e : Int) ≤ value m e := by
  have least : ((2 ^ m.log2 : Nat) : ℚ) ≤ m := by exact_mod_cast Nat.log2_self_le (Nat.ne_of_gt pos)
  push_cast at least
  rw [zpow_add₀ two_ne_zero, zpow_natCast, value]
  exact mul_le_mul_of_nonneg_right least (by positivity)

theorem value_lt_two_pow_log2 (m : Nat) (e : Int) :
    value m e < (2 : ℚ) ^ (m.log2 + 1 + e : Int) := by
  have most : (m : ℚ) < ((2 ^ (m.log2 + 1) : Nat) : ℚ) := by exact_mod_cast Nat.lt_log2_self
  push_cast at most
  have split : (2 : ℚ) ^ (m.log2 + 1 + e : Int) = 2 ^ (m.log2 + 1) * 2 ^ e := by
    rw [zpow_add₀ two_ne_zero]
    norm_cast
  rw [split, value]
  exact mul_lt_mul_of_pos_right most (by positivity)

section
variable {a b m : Nat} {ea eb e : Int} (canonical : IsCanonical m e) (apos : 0 < a) (bpos : 0 < b)
  (same : value a ea = value m e * value b eb)
include canonical apos bpos same

/-- The exponent that a quotient is computed for is not above that of its value. -/
theorem targetExponent_quotient_le :
    Format.binary64.targetExponent (totalExponent a ea - totalExponent b eb) ≤ e := by
  have lower := two_pow_log2_le_value apos ea
  have upper : value a ea < (2 : ℚ) ^ (m.log2 + 1 + e + (b.log2 + 1 + eb) : Int) := by
    rw [same, zpow_add₀ two_ne_zero]
    have bvalue : 0 < value b eb := by
      rw [value]
      positivity
    exact mul_lt_mul'' (value_lt_two_pow_log2 m e) (value_lt_two_pow_log2 b eb)
      (by rw [value]; positivity) bvalue.le
  have apart := (zpow_lt_zpow_iff_right₀ one_lt_two).mp (lower.trans_lt upper)
  have target := targetExponent_canonical canonical
  rw [Format.targetExponent, totalExponent] at target ⊢
  rw [totalExponent]
  omega

theorem divCore_exact : ∃ k : Nat, divCore .binary64 a ea b eb = (m * 2 ^ k, e - k, .exact) := by
  have below := targetExponent_quotient_le canonical apos bpos same
  let t := min (ea - eb) (Format.binary64.targetExponent (totalExponent a ea - totalExponent b eb))
  have lowTarget : t ≤ e := Int.le_trans (Int.min_le_right _ _) below
  have lowStart : t ≤ ea - eb := Int.min_le_left _ _
  have raised : a * 2 ^ (ea - eb - t).toNat = m * 2 ^ (e - t).toNat * b := by
    have start : ea - (t + eb) = ea - eb - t := by omega
    have left := value_raised a (by omega : t + eb ≤ ea)
    have right := value_raised m lowTarget
    have scale : (2 : ℚ) ^ (t + eb) ≠ 0 := by positivity
    have product : ((a * 2 ^ (ea - eb - t).toNat : Nat) : ℚ) * 2 ^ (t + eb) =
        ((m * 2 ^ (e - t).toNat * b : Nat) : ℚ) * 2 ^ (t + eb) := by
      rw [← start, ← left, same, right, value, zpow_add₀ two_ne_zero]
      push_cast
      ring
    exact_mod_cast mul_right_cancel₀ scale product
  refine ⟨(e - t).toNat, ?_⟩
  have quotient : a <<< (ea - eb - t).toNat / b = m * 2 ^ (e - t).toNat := by
    rw [Nat.shiftLeft_eq, raised, Nat.mul_div_cancel _ bpos]
  have rest : a <<< (ea - eb - t).toNat % b = 0 := by
    rw [Nat.shiftLeft_eq, raised, Nat.mul_mod_left]
  have exponent : e - ((e - t).toNat : Int) = t := by omega
  rw [divCore]
  change (a <<< (ea - eb - t).toNat / b, t, accuracyOfFraction (a <<< (ea - eb - t).toNat % b) b) = _
  rw [quotient, rest, exponent]
  rfl

/-- A quotient that is the value of a double is that double. -/
theorem div_exact :
    UnpackedFloat.div .binary64 (.finite .positive a ea apos) (.finite .positive b eb bpos) =
      .finite .positive m e canonical.pos := by
  rcases divCore_exact canonical apos bpos same with ⟨k, quotient⟩
  simp only [UnpackedFloat.div, quotient]
  exact roundWithAccuracy_exact canonical .positive k

end

/-- A whole number with few bits is taken out of a double with its value. -/
theorem unpack_whole {n : Nat} (pos : 0 < n) (small : n < 2 ^ 53) :
    ∃ m e mpos, n.toUInt64.toFloat.toModel.unpack = .finite .positive m e mpos ∧ value m e = n := by
  rcases exists_of_stores (unpack_toFloat small) (by omega) with ⟨other, otherPos, shown, same⟩
  have equal : other = n := by omega
  subst equal
  refine ⟨_, _, _, shown, ?_⟩
  have low : 0 - (lift other : Int) ≤ 0 := by omega
  have raised := value_raised other low
  have distance : (0 - (0 - (lift other : Int))).toNat = lift other := by omega
  rw [value, zpow_zero, mul_one, distance] at raised
  rw [value, raised]

section
variable {m : Nat} {e : Int} (canonical : IsCanonical m e) {digits places : Nat}
  (same : (digits : ℚ) = value m e * 10 ^ places)
include canonical same

theorem digits_pos : 0 < digits := by
  have positive : (0 : ℚ) < digits := by
    have mpos : (0 : ℚ) < m := by exact_mod_cast canonical.pos
    rw [same, value]
    positivity
  exact_mod_cast positive

/-- With a power of ten from the table. -/
theorem div_powerOfTen (small : digits < 2 ^ 53)
    (inside : places < Float.exactlyRepresentablePowersOfTen.size) :
    UnpackedFloat.div .binary64 digits.toUInt64.toFloat.toModel.unpack
        Float.exactlyRepresentablePowersOfTen[places].toModel.unpack =
      .finite .positive m e canonical.pos := by
  rcases unpack_whole (digits_pos canonical same) small with ⟨a, ea, apos, shown, whole⟩
  rcases unpack_powerOfTen inside with ⟨b, eb, bpos, shownPower, power⟩
  rw [shown, shownPower]
  exact div_exact canonical apos bpos (by rw [whole, power, same])

/-- Without a fraction the digits are the mantissa with zeros behind it. -/
theorem mul_exact (whole : places = 0) :
    roundWithAccuracy .binary64 .positive (digits * 2 ^ 53) (-53) .exact =
      .finite .positive m e canonical.pos := by
  have filled := digits_pos canonical same
  rw [whole, pow_zero, mul_one] at same
  have low : -53 ≤ e := by
    have atLeast : (2 : ℚ) ^ (0 : Int) ≤ value m e := by
      rw [zpow_zero, ← same]
      exact_mod_cast filled
    have apart := (zpow_lt_zpow_iff_right₀ one_lt_two).mp
      (atLeast.trans_lt (value_lt_two_pow_log2 m e))
    have bound := canonical.bound
    omega
  have raised : digits * 2 ^ 53 = m * 2 ^ (e + 53).toNat := by
    have scaled := value_raised m low
    rw [← same, Int.sub_neg] at scaled
    have product : ((digits * 2 ^ 53 : Nat) : ℚ) = (m * 2 ^ (e + 53).toNat : Nat) := by
      rw [Nat.cast_mul, scaled, mul_assoc]
      norm_num
    exact_mod_cast product
  have distance : e - ((e + 53).toNat : Int) = -53 := by omega
  have rounded := roundWithAccuracy_exact canonical .positive (e + 53).toNat
  rwa [← raised, distance] at rounded

/-- With a power of ten that is computed. -/
theorem ofScientific_exact (few : places ≤ 1074) :
    UnpackedFloat.ofScientific .binary64 digits (Int.negOfNat places) =
      .finite .positive m e canonical.pos := by
  have filled := Nat.ne_of_gt (digits_pos canonical same)
  have exponent : Int.negOfNat places = -(places : Int) := Int.negOfNat_eq
  have notAbove : ¬ Int.negOfNat places > 2 ^ Format.binary64.exponentBits := by
    change ¬ (2 : Int) ^ 11 < Int.negOfNat places
    omega
  have notBelow : ¬ Int.negOfNat places < -(2 ^ Format.binary64.exponentBits + digits.log2) := by
    change ¬ Int.negOfNat places < -((2 : Int) ^ 11 + digits.log2)
    omega
  rw [UnpackedFloat.ofScientific, dif_neg filled, if_neg notAbove, if_neg notBelow]
  rcases Nat.eq_zero_or_pos places with whole | fraction
  · have shifted : digits <<< 53 * 10 ^ (0 : Int).toNat = digits * 2 ^ 53 := by
      rw [Nat.shiftLeft_eq]
      exact Nat.mul_one _
    have none : Int.negOfNat places = 0 := by rw [whole]; rfl
    have bits : Format.binary64.mantissaBits = 53 := rfl
    rw [none, if_pos (Int.le_refl 0)]
    simp only [UnpackedFloat.mul, bits, shifted]
    exact mul_exact canonical same whole
  · have positive : (-Int.negOfNat places).toNat = places := by omega
    have power : value (10 ^ places) 0 = 10 ^ places := by
      rw [value, zpow_zero, mul_one, Nat.cast_pow]
      rfl
    rw [if_neg (by omega)]
    simp only [positive]
    apply div_exact canonical
    rw [power, ← same, value, zpow_zero, mul_one]

/-- A decimal with the value of a double is read as that double. -/
theorem unpack_toFloat_exact (few : places ≤ 1074) (high : e ≤ 971) :
    (Decimal.toFloat ⟨digits, places⟩).toModel.unpack = .finite .positive m e canonical.pos := by
  have kept := unpack_pack_finite .positive canonical high
  rw [Decimal.toFloat, Float.ofScientific]
  by_cases fast : digits < 2 ^ 53 ∧ places ≤ 22
  · have inside : places < Float.exactlyRepresentablePowersOfTen.size := Nat.lt_succ_of_le fast.2
    have quotient := div_powerOfTen canonical same fast.1 inside
    rw [dif_pos fast]
    rw [← quotient] at kept
    exact kept.trans quotient
  · have quotient := ofScientific_exact canonical same few
    rw [dif_neg fast]
    rw [← quotient] at kept
    exact kept.trans quotient

end

/-!
## The decimal that is printed

Short decimals are tried first, and each is checked by reading it.  The exact value is what is left.
-/

/-- An unpacked double that equals a finite one, on either side, is the same. -/
theorem eq_of_beq_finite {u : UnpackedFloat} {m : Nat} {e : Int} {pos : 0 < m}
    (equal : u.beq (.finite .positive m e pos) = true ∨
      (UnpackedFloat.finite .positive m e pos).beq u = true) : u = .finite .positive m e pos := by
  cases u with
  | infinity sign => cases sign <;> rcases equal with equal | equal <;> cases equal
  | notANumber => rcases equal with equal | equal <;> cases equal
  | zero sign => rcases equal with equal | equal <;> cases equal
  | finite sign other exponent otherPos =>
      cases sign with
      | negative => rcases equal with equal | equal <;> cases equal
      | positive =>
          simp only [UnpackedFloat.beq, UnpackedFloat.compare, beq_iff_eq, Option.some_inj,
            Ordering.then_eq_eq, Int.compare_eq_eq, Nat.compare_eq_eq] at equal
          rcases equal with ⟨rfl, rfl⟩ | ⟨rfl, rfl⟩ <;> rfl

/-- Dropping zeros at the end of a fraction keeps the value. -/
theorem trimZeros_keeps (digits places : Nat) :
    (Decimal.trimZeros digits places).places ≤ places ∧
      (Decimal.trimZeros digits places).digits * 10 ^ places =
        digits * 10 ^ (Decimal.trimZeros digits places).places := by
  induction places generalizing digits with
  | zero => exact ⟨Nat.le_refl 0, rfl⟩
  | succ places ih =>
      rw [Decimal.trimZeros]
      split
      · rename_i zero
        have whole : digits / 10 * 10 = digits := by
          have last := beq_iff_eq.mp zero
          omega
        rcases ih (digits / 10) with ⟨fewer, kept⟩
        refine ⟨Nat.le_succ_of_le fewer, ?_⟩
        rw [Nat.pow_succ, ← Nat.mul_assoc, kept, Nat.mul_right_comm, whole]
      · exact ⟨Nat.le_refl _, rfl⟩

/-- The exact decimal has the value of the double. -/
theorem exact_value (m : Nat) (e : Int) :
    ((Decimal.exact m e).digits : ℚ) = value m e * 10 ^ (Decimal.exact m e).places := by
  have untrimmed : ((m * 2 ^ e.toNat * 5 ^ (-e).toNat : Nat) : ℚ) = value m e * 10 ^ (-e).toNat := by
    have ten : (10 : ℚ) = 2 * 5 := by norm_num
    rw [value, ten, mul_pow]
    rcases Int.eq_nat_or_neg e with ⟨n, rfl | rfl⟩
    · have none : (-(n : Int)).toNat = 0 := by omega
      rw [Int.toNat_natCast, none, zpow_natCast]
      push_cast
      ring
    · have none : (-(n : Int)).toNat = 0 := by omega
      rw [none, Int.neg_neg, Int.toNat_natCast, zpow_neg, zpow_natCast]
      push_cast
      field_simp
  have kept := (trimZeros_keeps (m * 2 ^ e.toNat * 5 ^ (-e).toNat) (-e).toNat).2
  change (Decimal.exact m e).digits * 10 ^ (-e).toNat = _ * 10 ^ (Decimal.exact m e).places at kept
  have scale : (10 : ℚ) ^ (-e).toNat ≠ 0 := by positivity
  apply mul_right_cancel₀ scale
  rw [mul_right_comm, ← untrimmed]
  exact_mod_cast kept

section
variable {x : Float} {m : Nat} {e : Int} (parts : Parts.ofFloat x = .finite false m e)
include parts

/-- The bits of a value without a sign are those of its mantissa, or those of its exponent and of its
mantissa without the first bit. -/
theorem bits_of_parts : e = -1074 ∧ x.toBits.toNat = m ∧ m < 2 ^ 52 ∨
    -1074 ≤ e ∧ e ≤ 971 ∧ 2 ^ 52 ≤ m ∧ m < 2 ^ 53 ∧
      x.toBits.toNat = (e + 1075).toNat * 2 ^ 52 + (m - 2 ^ 52) := by
  have bound : x.toBits.toNat < 2 ^ 64 := x.toBits.toNat_lt
  generalize bits : x.toBits.toNat = b at bound
  rw [Parts.ofFloat, bits] at parts
  simp only [Nat.pow_eq] at parts
  split at parts
  · split at parts <;> cases parts
  · rename_i notTop
    rw [beq_iff_eq] at notTop
    split at parts
    · rename_i bottom
      rw [beq_iff_eq] at bottom
      injection parts with unsigned mantissa exponent
      rw [beq_eq_false_iff_ne] at unsigned
      left
      refine ⟨exponent.symm, ?_, ?_⟩ <;> omega
    · rename_i notBottom
      rw [beq_iff_eq] at notBottom
      injection parts with unsigned mantissa exponent
      rw [beq_eq_false_iff_ne] at unsigned
      right
      refine ⟨?_, ?_, ?_, ?_, ?_⟩ <;> omega

theorem isCanonical_of_parts (filled : 0 < m) : IsCanonical m e ∧ e ≤ 971 := by
  rcases bits_of_parts parts with ⟨rfl, _, few⟩ | ⟨low, high, least, most, _⟩
  · have bound : m.log2 < 52 := (Nat.log2_lt (Nat.ne_of_gt filled)).mpr few
    exact ⟨⟨filled, by omega, by omega, .inr rfl⟩, by omega⟩
  · have full : m.log2 = 52 := (Nat.log2_eq_iff (by omega)).mpr ⟨least, most⟩
    exact ⟨isCanonical_of_full full filled low, high⟩

theorem isFinite_of_parts : x.isFinite = true := by
  rw [parts_ofFloat] at parts
  change x.toModel.unpack.isFinite = true
  rcases shown : x.toModel.unpack with sign | _ | sign | ⟨sign, mantissa, exponent, pos⟩
  · rw [shown] at parts; cases parts
  · rw [shown] at parts; cases parts
  · rfl
  · rfl

/-- Parts that are read off a double are put together to it. -/
theorem finiteToFloat_parts (filled : 0 < m) : Parts.finiteToFloat false m e = x := by
  have same (b : Nat) (bits : x.toBits.toNat = b) : Float.ofBits b.toUInt64 = x := by
    have word : b.toUInt64 = x.toBits := by
      rw [← bits]
      exact UInt64.ofNat_toNat
    rw [word]
    exact congrArg Float.ofModel (pack_unpack (isFinite_of_parts parts))
  have notZero : ¬ (m == 0) = true := by
    rw [beq_iff_eq]
    omega
  rw [Parts.finiteToFloat]
  simp only [Nat.pow_eq, Parts.signBit, Parts.leastExponent, if_neg notZero]
  rcases bits_of_parts parts with ⟨rfl, bits, few⟩ | ⟨low, high, least, most, bits⟩
  · have shift : min (52 - m.log2) (-1074 - -1074 : Int).toNat = 0 := by omega
    rw [shift, if_pos (by omega)]
    exact same _ (by simp only [Bool.false_eq_true, if_false]; omega)
  · have full : m.log2 = 52 := (Nat.log2_eq_iff (by omega)).mpr ⟨least, most⟩
    have shift : min (52 - m.log2) (e - -1074).toNat = 0 := by omega
    rw [shift, if_neg (by omega)]
    exact same _ (by simp only [Bool.false_eq_true, if_false]; omega)

/-- The decimal that a number is printed as is read as that number. -/
theorem toFloat_shortest (filled : 0 < m) : (Decimal.shortest m e).toFloat = x := by
  have finite := isFinite_of_parts parts
  have shown := unpack_of_parts parts filled
  rw [Decimal.shortest, finiteToFloat_parts parts filled]
  rcases found : (Decimal.candidates m e).find? fun d => d.toFloat == x with _ | decimal
  · rcases isCanonical_of_parts parts filled with ⟨canonical, high⟩
    have few : (Decimal.exact m e).places ≤ 1074 :=
      Nat.le_trans (trimZeros_keeps _ _).1 (by have low := canonical.low; omega)
    rw [found, Option.getD_none]
    apply eq_of_unpack_eq finite
    rw [shown]
    exact unpack_toFloat_exact canonical (exact_value m e) few high
  · have equal := List.find?_some found
    rw [found, Option.getD_some]
    apply eq_of_unpack_eq finite
    rw [shown]
    change decimal.toFloat.toModel.unpack.beq x.toModel.unpack = true at equal
    rw [shown] at equal
    exact eq_of_beq_finite (.inl equal)

end

/-- A finite number without a sign is printed as a decimal that is read as the number. -/
theorem exists_printed {x : Float} (unsigned : Unsigned x.toModel.unpack)
    (finite : x.isFinite = true) :
    ∃ printed : Decimal, chars x = printed.toChars ∧ printed.toFloat = x := by
  have parts := parts_ofFloat x
  rcases shown : x.toModel.unpack with sign | _ | sign | ⟨sign, m, e, pos⟩
  · have infinite : x.toModel.unpack.isFinite = true := finite
    rw [shown] at infinite
    cases infinite
  · have undefined : x.toModel.unpack.isFinite = true := finite
    rw [shown] at undefined
    cases undefined
  · rw [shown] at unsigned parts
    cases unsigned
    have read : Parts.ofFloat x = .finite false 0 Parts.leastExponent := parts
    refine ⟨⟨0, 0⟩, ?_, ?_⟩
    · rw [chars, read]
      dsimp only
      rw [if_pos (beq_iff_eq.mpr rfl)]
      decide
    · apply eq_of_unpack_eq finite
      rw [shown]
      rfl
  · rw [shown] at unsigned parts
    cases unsigned
    have read : Parts.ofFloat x = .finite false m e := parts
    refine ⟨Decimal.shortest m e, ?_, toFloat_shortest read pos⟩
    have filled : ¬ (m == 0) = true := by
      rw [beq_iff_eq]
      omega
    rw [chars, read]
    dsimp only
    rw [if_neg filled]
    rfl

end NodeQuery.Numeral
