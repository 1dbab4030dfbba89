import NodeQuery.Proofs.Numeral.Amount

/-!
# The nearest double

A number is rounded to the nearest one that a mantissa of 53 bits can hold, and to the one with the even
mantissa if two are as near.  The bits that are shifted out of a mantissa are told by two bits beside
it, which is all that rounding needs to know of them.
-/

namespace NodeQuery.Numeral

open Float.Model
open Float.Model.UnpackedFloat

/-- A number that a mantissa of 53 bits can hold; there is no largest exponent. -/
def IsGrid (number : ℚ) : Prop :=
  ∃ n e : ℤ, |n| < 2 ^ 53 ∧ -1074 ≤ e ∧ number = n * 2 ^ e

/-- A number that an even mantissa can hold. -/
def IsEvenGrid (number : ℚ) : Prop :=
  ∃ n e : ℤ, |2 * n| < 2 ^ 53 ∧ -1074 ≤ e ∧ number = (2 * n : ℤ) * 2 ^ e

/-- Rounding to nearest, with ties to the even mantissa. -/
structure IsNearest (number rounded : ℚ) : Prop where
  grid : IsGrid rounded
  close : ∀ other, IsGrid other → |number - rounded| ≤ |number - other|
  even : ∀ other, IsGrid other → |number - rounded| = |number - other| → other ≠ rounded →
    IsEvenGrid rounded

/-- A double that a number is rounded to: the nearest one, or an infinite one for a number that is
rounded to one too large. -/
def Rounds (number : ℚ) (x : Float) : Prop :=
  ∃ rounded, IsNearest number rounded ∧ amount x = .held rounded

theorem zpow_cast_split {t e : ℤ} (le : t ≤ e) :
    (2 : ℚ) ^ e = ((2 ^ (e - t).toNat : ℤ) : ℚ) * 2 ^ t := by
  have distance : ((e - t).toNat : ℤ) = e - t := Int.toNat_of_nonneg (by omega)
  push_cast
  rw [← zpow_natCast, distance, ← zpow_add₀ two_ne_zero, Int.sub_add_cancel]

/-- The mantissa may be one too large, since it can be halved then. -/
theorem isGrid_of_le {n e : ℤ} (size : |n| ≤ 2 ^ 53) (low : -1074 ≤ e) : IsGrid (n * 2 ^ e) := by
  rcases lt_or_eq_of_le size with less | largest
  · exact ⟨n, e, less, low, rfl⟩
  · have twice (m : ℤ) : ((2 * m : ℤ) : ℚ) * 2 ^ e = m * 2 ^ (e + 1) := by
      rw [zpow_add_one₀ two_ne_zero]
      push_cast
      ring
    rcases abs_eq (by norm_num) |>.mp largest with rfl | rfl
    · exact ⟨2 ^ 52, e + 1, by norm_num, by omega, twice (2 ^ 52)⟩
    · exact ⟨-2 ^ 52, e + 1, by norm_num, by omega, twice (-2 ^ 52)⟩

theorem isEvenGrid_of_le {n e : ℤ} (size : |2 * n| ≤ 2 ^ 53) (low : -1074 ≤ e) :
    IsEvenGrid ((2 * n : ℤ) * 2 ^ e) := by
  rcases lt_or_eq_of_le size with less | largest
  · exact ⟨n, e, less, low, rfl⟩
  · have twice (m : ℤ) : ((2 * (2 * m) : ℤ) : ℚ) * 2 ^ e = (2 * m : ℤ) * 2 ^ (e + 1) := by
      rw [zpow_add_one₀ two_ne_zero]
      push_cast
      ring
    rcases abs_eq (by norm_num) |>.mp largest with most | least
    · obtain rfl : n = 2 * 2 ^ 51 := by omega
      exact ⟨2 ^ 51, e + 1, by norm_num, by omega, twice (2 ^ 51)⟩
    · obtain rfl : n = 2 * (-2 ^ 51) := by omega
      exact ⟨-2 ^ 51, e + 1, by norm_num, by omega, twice (-2 ^ 51)⟩

theorem isGrid_intCast {n : ℤ} (size : |n| ≤ 2 ^ 53) : IsGrid n := by
  have grid := isGrid_of_le size (e := 0) (by omega)
  rwa [zpow_zero, mul_one] at grid

theorem isGrid_zero : IsGrid 0 := by
  have grid := isGrid_intCast (n := 0) (by norm_num)
  rwa [Int.cast_zero] at grid

theorem IsGrid.neg {number : ℚ} (grid : IsGrid number) : IsGrid (-number) := by
  rcases grid with ⟨n, e, size, low, rfl⟩
  exact ⟨-n, e, by rwa [abs_neg], low, by rw [Int.cast_neg, neg_mul]⟩

theorem IsEvenGrid.neg {number : ℚ} (grid : IsEvenGrid number) : IsEvenGrid (-number) := by
  rcases grid with ⟨n, e, size, low, rfl⟩
  exact ⟨-n, e, by rwa [mul_neg, abs_neg], low, by rw [mul_neg, Int.cast_neg, neg_mul]⟩

/-- The exponent of a number that is not small is not small. -/
theorem exponent_of_le {n e t : ℤ} (size : |n| < 2 ^ 53)
    (large : (2 : ℚ) ^ (52 + t) ≤ |(n : ℚ) * 2 ^ e|) : t ≤ e := by
  have unit : (0 : ℚ) < 2 ^ e := by positivity
  have most : (|n| : ℚ) < 2 ^ (53 : ℤ) := by exact_mod_cast size
  have apart : (2 : ℚ) ^ (52 + t) < 2 ^ (53 + e) := by
    rw [abs_mul, abs_of_pos unit] at large
    rw [zpow_add₀ two_ne_zero 53]
    exact large.trans_lt (mul_lt_mul_of_pos_right most unit)
  have exponents := (zpow_lt_zpow_iff_right₀ one_lt_two).mp apart
  omega

/-- Numbers that are not small lie a power of two apart. -/
theorem IsGrid.multiple {number : ℚ} (grid : IsGrid number) {t : ℤ}
    (large : (2 : ℚ) ^ (52 + t) ≤ |number|) : ∃ k : ℤ, number = k * 2 ^ t := by
  rcases grid with ⟨n, e, size, low, rfl⟩
  refine ⟨n * 2 ^ (e - t).toNat, ?_⟩
  rw [zpow_cast_split (exponent_of_le size large), Int.cast_mul, mul_assoc]

theorem IsEvenGrid.multiple {number : ℚ} (grid : IsEvenGrid number) {t : ℤ}
    (large : (2 : ℚ) ^ (52 + t) ≤ |number|) : ∃ k : ℤ, number = (2 * k : ℤ) * 2 ^ t := by
  rcases grid with ⟨n, e, size, low, rfl⟩
  refine ⟨n * 2 ^ (e - t).toNat, ?_⟩
  rw [zpow_cast_split (exponent_of_le size large), ← mul_assoc, ← Int.cast_mul, mul_assoc]

namespace IsNearest

variable {number rounded bound : ℚ}

theorem neg (nearest : IsNearest number rounded) : IsNearest (-number) (-rounded) := by
  have mirrored (other : ℚ) : |-number - other| = |number - -other| := by
    rw [← abs_neg, neg_sub, sub_neg_eq_add, sub_neg_eq_add, add_comm]
  refine ⟨nearest.grid.neg, fun other grid => ?_, fun other grid same apart => ?_⟩
  · rw [mirrored, mirrored, neg_neg]
    exact nearest.close _ grid.neg
  · rw [mirrored, mirrored, neg_neg] at same
    exact (nearest.even _ grid.neg same fun equal => apart (by rw [← equal, neg_neg])).neg

/-- Rounding does not lead past a number of the grid. -/
theorem le (nearest : IsNearest number rounded) (grid : IsGrid bound) (below : number ≤ bound) :
    rounded ≤ bound := by
  by_contra above
  have close := nearest.close bound grid
  rw [abs_of_nonpos (by linarith), abs_of_nonpos (by linarith)] at close
  linarith

theorem ge (nearest : IsNearest number rounded) (grid : IsGrid bound) (above : bound ≤ number) :
    bound ≤ rounded := by
  by_contra below
  have close := nearest.close bound grid
  rw [abs_of_nonneg (by linarith), abs_of_nonneg (by linarith)] at close
  linarith

theorem of_isGrid (grid : IsGrid number) : IsNearest number number := by
  refine ⟨grid, fun other _ => ?_, fun other _ same apart => absurd ?_ apart⟩
  · rw [sub_self, abs_zero]
    exact abs_nonneg _
  · rw [sub_self, abs_zero, eq_comm, abs_eq_zero, sub_eq_zero] at same
    exact same.symm

end IsNearest

/-!
## Bits that are shifted out

The first bit below the mantissa, and whether there is any behind it, tell on which side of a half the
rest is.
-/

/-- What a mantissa stands for together with the two bits beside it: a half or not, and more than that
or not. -/
def Around (em : ExtendedMantissa) (units : ℚ) : Prop :=
  match em.roundBit, em.stickyBit with
  | false, false => units = em.mantissa
  | false, true => em.mantissa < units ∧ units < em.mantissa + 1 / 2
  | true, false => units = em.mantissa + 1 / 2
  | true, true => em.mantissa + 1 / 2 < units ∧ units < em.mantissa + 1

theorem around_shiftRightOne {em : ExtendedMantissa} {units : ℚ} (around : Around em units) :
    Around em.shiftRightOne (units / 2) := by
  rcases em with ⟨m, round, sticky⟩
  have whole : (m : ℚ) = 2 * (m / 2 : Nat) + (m % 2 : Nat) := by
    exact_mod_cast (Nat.div_add_mod m 2).symm
  rcases Nat.mod_two_eq_zero_or_one m with even | odd
  · have last : (m % 2 != 0) = false := by rw [even]; rfl
    rw [even, Nat.cast_zero, add_zero] at whole
    cases round <;> cases sticky <;>
      simp only [Around, ExtendedMantissa.shiftRightOne, last, Bool.or_false, Bool.or_true]
        at around ⊢
    case false.false => linarith
    all_goals exact ⟨by linarith, by linarith⟩
  · have last : (m % 2 != 0) = true := by rw [odd]; rfl
    rw [odd, Nat.cast_one] at whole
    cases round <;> cases sticky <;>
      simp only [Around, ExtendedMantissa.shiftRightOne, last, Bool.or_false, Bool.or_true]
        at around ⊢
    case false.false => linarith
    all_goals exact ⟨by linarith, by linarith⟩

theorem around_shift {em : ExtendedMantissa} {units : ℚ} (around : Around em units) (k : Nat) :
    Around (em >>> k) (units / 2 ^ k) := by
  change Around (k.repeat ExtendedMantissa.shiftRightOne em) _
  induction k with
  | zero => rwa [pow_zero, div_one]
  | succ k ih =>
      rw [Nat.repeat, pow_succ, ← div_div]
      exact around_shiftRightOne ih

/-- The rounded mantissa is less than a half away, or a half and even. -/
theorem around_roundedMantissa {em : ExtendedMantissa} {units : ℚ} (around : Around em units) :
    |units - em.roundedMantissa| < 1 / 2 ∨
      |units - em.roundedMantissa| = 1 / 2 ∧ Even em.roundedMantissa := by
  rcases em with ⟨m, round, sticky⟩
  cases round with
  | false =>
      left
      cases sticky with
      | false =>
          change |units - m| < 1 / 2
          have same : units = m := around
          rw [same, sub_self, abs_zero]
          norm_num
      | true =>
          change |units - m| < 1 / 2
          have between : m < units ∧ units < m + 1 / 2 := around
          rw [abs_lt]
          exact ⟨by linarith, by linarith⟩
  | true =>
      cases sticky with
      | false =>
          right
          have half : units = m + 1 / 2 := around
          change |units - (m + m % 2 : Nat)| = 1 / 2 ∧ Even (m + m % 2)
          refine ⟨?_, by rw [Nat.even_iff]; omega⟩
          rcases Nat.mod_two_eq_zero_or_one m with even | odd
          · rw [half, even, Nat.add_zero, add_sub_cancel_left, abs_of_pos (by norm_num)]
          · rw [half, odd, Nat.cast_add, Nat.cast_one, add_sub_add_left_eq_sub, abs_of_neg (by norm_num)]
            norm_num
      | true =>
          left
          have between : m + 1 / 2 < units ∧ units < m + 1 := around
          change |units - (m + 1 : Nat)| < 1 / 2
          rw [Nat.cast_add, Nat.cast_one, abs_lt]
          exact ⟨by linarith, by linarith⟩

theorem mantissa_le_of_around {em : ExtendedMantissa} {units : ℚ} (around : Around em units) :
    (em.mantissa : ℚ) ≤ units := by
  rcases em with ⟨m, round, sticky⟩
  cases round <;> cases sticky <;> simp only [Around] at around ⊢
  case false.false => exact around.ge
  case true.false => linarith
  all_goals linarith [around.1]

section
variable {units : ℚ} {rounded : ℕ}
  (near : |units - rounded| < 1 / 2 ∨ |units - rounded| = 1 / 2 ∧ Even rounded)
include near

/-- Any other integer is at least a half away. -/
theorem half_le_of_ne {n : ℤ} (apart : n ≠ rounded) : 1 / 2 ≤ |units - n| := by
  have step : (1 : ℚ) ≤ |(n : ℚ) - rounded| := by
    have whole : 1 ≤ |n - (rounded : ℤ)| := Int.one_le_abs (sub_ne_zero.mpr apart)
    exact_mod_cast whole
  have triangle : |(n : ℚ) - rounded| ≤ |units - rounded| + |units - n| := by
    rw [add_comm, abs_sub_comm units n]
    exact abs_sub_le _ _ _
  rcases near with less | ⟨half, _⟩ <;> linarith

theorem abs_sub_le_of_near (n : ℤ) : |units - rounded| ≤ |units - n| := by
  by_cases same : n = rounded
  · rw [same, Int.cast_natCast]
  · have far := half_le_of_ne near same
    rcases near with less | ⟨half, _⟩ <;> linarith

theorem even_of_near {n : ℤ} (same : |units - rounded| = |units - n|) (apart : n ≠ rounded) :
    Even rounded := by
  have far := half_le_of_ne near apart
  rcases near with less | ⟨_, even⟩
  · linarith
  · exact even

end

/-- A mantissa that has all its bits, or is over the least exponent. -/
structure IsFull (em : ExtendedMantissa) (t : ℤ) : Prop where
  low : -1074 ≤ t
  small : em.mantissa < 2 ^ 53
  full : t = -1074 ∨ 2 ^ 52 ≤ em.mantissa

/-- Numbers with a lower exponent are below all mantissas that have their bits. -/
theorem abs_sub_lt_of_lower {units : ℚ} {rounded : ℕ}
    (near : |units - rounded| < 1 / 2 ∨ |units - rounded| = 1 / 2 ∧ Even rounded)
    (filled : ((2 ^ 52 : ℕ) : ℚ) ≤ units) {n e t : ℤ} (size : |n| < 2 ^ 53) (lower : e < t) :
    |units - rounded| * 2 ^ t < |units * 2 ^ t - n * 2 ^ e| := by
  have unit : (0 : ℚ) < 2 ^ t := by positivity
  have close := abs_sub_le_of_near near (2 ^ 52 : ℕ)
  rw [Int.cast_natCast, abs_of_nonneg (by linarith : 0 ≤ units - (2 ^ 52 : ℕ))] at close
  have most : (n : ℚ) < 2 ^ 53 := by exact_mod_cast (le_abs_self n).trans_lt size
  have halved : (2 : ℚ) ^ 53 * 2 ^ e ≤ (2 ^ 52 : ℕ) * 2 ^ t := by
    have shorter : (2 : ℚ) ^ (e + 1) ≤ 2 ^ t := zpow_le_zpow_right₀ one_le_two (by omega)
    rw [zpow_add_one₀ two_ne_zero] at shorter
    push_cast
    linarith
  have other : (n : ℚ) * 2 ^ e < (2 ^ 52 : ℕ) * 2 ^ t :=
    (mul_lt_mul_of_pos_right most (by positivity)).trans_le halved
  have scaledClose := mul_le_mul_of_nonneg_right close unit.le
  refine lt_of_lt_of_le ?_ (le_abs_self _)
  linarith

/-- A full mantissa is rounded to the nearest number of the grid. -/
theorem isNearest_roundedMantissa {em : ExtendedMantissa} {units : ℚ} (around : Around em units)
    {t : ℤ} (full : IsFull em t) : IsNearest (units * 2 ^ t) (em.roundedMantissa * 2 ^ t) := by
  have near := around_roundedMantissa around
  have atLeast := mantissa_le_of_around around
  have bounds := roundedMantissa_bounds em
  have small := full.small
  generalize em.roundedMantissa = rounded at near bounds
  have unit : (0 : ℚ) < 2 ^ t := by positivity
  have scaled (number : ℚ) : |units * 2 ^ t - number * 2 ^ t| = |units - number| * 2 ^ t := by
    rw [← sub_mul, abs_mul, abs_of_pos unit]
  have fine {n e : ℤ} (size : |n| < 2 ^ 53) (least : -1074 ≤ e) (lower : e < t) :
      |units - rounded| * 2 ^ t < |units * 2 ^ t - n * 2 ^ e| := by
    have filled : ((2 ^ 52 : ℕ) : ℚ) ≤ em.mantissa := by
      exact_mod_cast full.full.resolve_left (by omega)
    exact abs_sub_lt_of_lower near (filled.trans atLeast) size lower
  have coarse (n : ℤ) {e : ℤ} (upper : t ≤ e) :
      (n : ℚ) * 2 ^ e = (n * 2 ^ (e - t).toNat : ℤ) * 2 ^ t := by
    rw [zpow_cast_split upper, Int.cast_mul, mul_assoc]
  refine ⟨?_, ?_, ?_⟩
  · have size : |(rounded : ℤ)| ≤ 2 ^ 53 := by
      rw [Nat.abs_cast]
      omega
    exact_mod_cast isGrid_of_le size full.low
  · rintro other ⟨n, e, size, least, rfl⟩
    rw [scaled]
    rcases lt_or_ge e t with lower | upper
    · exact (fine size least lower).le
    · rw [coarse n upper, scaled]
      exact mul_le_mul_of_nonneg_right (abs_sub_le_of_near near _) unit.le
  · rintro other ⟨n, e, size, least, rfl⟩ same apart
    rw [scaled] at same
    rcases lt_or_ge e t with lower | upper
    · exact absurd same (fine size least lower).ne
    · rw [coarse n upper, scaled] at same
      rw [coarse n upper] at apart
      have even := even_of_near near (mul_right_cancel₀ unit.ne' same) fun equal =>
        apart (by rw [equal, Int.cast_natCast])
      rcases even with ⟨half, doubled⟩
      have twice : (rounded : ℚ) = (2 * half : ℤ) := by
        rw [doubled]
        push_cast
        ring
      rw [twice]
      refine isEvenGrid_of_le ?_ full.low
      rw [abs_of_nonneg (by omega)]
      omega

/-- An unpacked double that is a number, kept as doubles keep it but for an exponent that may be too
large. -/
inductive Keeps : UnpackedFloat → ℚ → Prop
  | zero (sign : Sign) : Keeps (.zero sign) 0
  | finite (sign : Sign) {m : Nat} {e : Int} (canonical : IsCanonical m e) :
      Keeps (.finite sign m e canonical.pos) (signed (sign == .negative) (value m e))

theorem Keeps.amount_pack {u : UnpackedFloat} {number : ℚ} (keeps : Keeps u number) :
    unpackedAmount (Float.Model.pack u).unpack = .held number := by
  cases keeps with
  | zero sign =>
      have kept : (Float.Model.pack (.zero sign)).unpack = .zero sign := by cases sign <;> rfl
      have small : |(0 : ℚ)| < 2 ^ (1024 : ℤ) := by
        rw [abs_zero]
        positivity
      rw [kept, Amount.held, if_pos small]
      rfl
  | finite sign canonical => exact unpackedAmount_pack_finite sign canonical

/-- A mantissa is shifted until it is full, if its exponent is not above the one it is to have. -/
theorem exists_shift {m : Nat} {e : Int} (accuracy : Accuracy)
    (below : e ≤ Format.binary64.targetExponent (totalExponent m e)) :
    ∃ k : Nat, shiftToTargetExponent .binary64 m e accuracy =
        (ExtendedMantissa.ofMantissaAndAccuracy m accuracy >>> k, e + k) ∧
      IsFull (ExtendedMantissa.ofMantissaAndAccuracy m accuracy >>> k) (e + k) := by
  have minimum : Format.binary64.minExponent = -1074 := rfl
  have bits : Format.binary64.mantissaBits = 53 := rfl
  rcases Int.eq_ofNat_of_zero_le (Int.sub_nonneg_of_le below) with ⟨k, distance⟩
  have target : Format.binary64.targetExponent (totalExponent m e) = e + k := by omega
  have exponents := target
  rw [Format.targetExponent, totalExponent, minimum, bits] at exponents
  have mantissa : (ExtendedMantissa.ofMantissaAndAccuracy m accuracy >>> k).mantissa = m / 2 ^ k := by
    refine (shift_mantissa _ k).trans ?_
    cases accuracy with
    | exact => rfl
    | inexact order => cases order <;> rfl
  refine ⟨k, ?_, ?_, ?_, ?_⟩
  · have steps : (e + k - e).toNat = k := by omega
    rw [shiftToTargetExponent, target, shiftToExponent, steps]
  · omega
  · rw [mantissa, Nat.div_lt_iff_lt_mul (Nat.two_pow_pos _), ← Nat.pow_add]
    exact Nat.lt_log2_self.trans_le (Nat.pow_le_pow_right Nat.two_pos (by omega))
  · by_cases least : e + k = -1074
    · exact .inl least
    · right
      have filled : m ≠ 0 := by
        rintro rfl
        have none : Nat.log2 0 = 0 := rfl
        omega
      rw [mantissa]
      exact (leading_bounds (by omega) filled).1

/-- The rounded mantissa is kept as it is, or halved if it is one too large. -/
theorem exists_canonical_of_isFull {em : ExtendedMantissa} {t : ℤ} (full : IsFull em t)
    (some : em.roundedMantissa ≠ 0) :
    ∃ (n : Nat) (f : Int), IsCanonical n f ∧
      shiftToTargetExponent .binary64 em.roundedMantissa t .exact = (⟨n, false, false⟩, f) ∧
      value n f = em.roundedMantissa * 2 ^ t := by
  rcases roundedMantissa_bounds em with ⟨atLeast, atMost⟩
  have low := full.low
  have small := full.small
  by_cases carried : em.roundedMantissa = 2 ^ 53
  · have canonical : IsCanonical (2 ^ 52) (t + 1) :=
      isCanonical_of_full Nat.log2_two_pow (Nat.two_pow_pos 52) (by omega)
    have again := shiftToTargetExponent_exact canonical 1
    have exponent : t + 1 - ((1 : Nat) : Int) = t := by omega
    have doubled : 2 ^ 52 * 2 ^ 1 = em.roundedMantissa := by rw [carried, ← Nat.pow_add]
    rw [exponent, doubled] at again
    refine ⟨_, _, canonical, again, ?_⟩
    rw [value, carried, zpow_add_one₀ two_ne_zero]
    push_cast
    ring
  · have canonical : IsCanonical em.roundedMantissa t := by
      have pos : 0 < em.roundedMantissa := Nat.pos_of_ne_zero some
      refine ⟨pos, log2_le_of_lt pos (by omega), low, ?_⟩
      rcases full.full with least | filled
      · exact .inr least
      · exact .inl ((Nat.log2_eq_iff some).mpr ⟨by omega, by omega⟩)
    have again := shiftToTargetExponent_exact canonical 0
    rw [Nat.pow_zero, Nat.mul_one, Int.natCast_zero, Int.sub_zero] at again
    exact ⟨_, _, canonical, again, rfl⟩

theorem keeps_roundWithAccuracy (sign : Sign) {m : Nat} {e t : Int} {accuracy : Accuracy}
    {em : ExtendedMantissa} (shifted : shiftToTargetExponent .binary64 m e accuracy = (em, t))
    (full : IsFull em t) :
    Keeps (roundWithAccuracy .binary64 sign m e accuracy)
      (signed (sign == .negative) (em.roundedMantissa * 2 ^ t)) := by
  rw [roundWithAccuracy, shifted]
  dsimp only
  by_cases none : em.roundedMantissa = 0
  · have empty : (shiftToTargetExponent .binary64 0 t .exact).1.mantissa = 0 :=
      (shift_mantissa _ _).trans (Nat.zero_div _)
    rw [none, dif_pos empty, Nat.cast_zero, zero_mul, signed_zero]
    exact .zero sign
  · rcases exists_canonical_of_isFull full none with ⟨n, f, canonical, again, same⟩
    rw [again, ← same]
    dsimp only
    rw [dif_neg (Nat.ne_of_gt canonical.pos)]
    exact .finite sign canonical

/-- A mantissa that may have lost bits is rounded to the nearest number, if its exponent is not above the
one it is to have. -/
theorem roundWithAccuracy_nearest (sign : Sign) {m : Nat} {e : Int} {accuracy : Accuracy} {units : ℚ}
    (around : Around (ExtendedMantissa.ofMantissaAndAccuracy m accuracy) units)
    (below : e ≤ Format.binary64.targetExponent (totalExponent m e)) :
    ∃ rounded, IsNearest (units * 2 ^ e) rounded ∧
      Keeps (roundWithAccuracy .binary64 sign m e accuracy) (signed (sign == .negative) rounded) := by
  rcases exists_shift accuracy below with ⟨k, shifted, full⟩
  have nearest := isNearest_roundedMantissa (around_shift around k) full
  have scale : units / 2 ^ k * (2 : ℚ) ^ (e + k) = units * 2 ^ e := by
    rw [zpow_add₀ two_ne_zero, zpow_natCast]
    field_simp
  rw [scale] at nearest
  exact ⟨_, nearest, keeps_roundWithAccuracy sign shifted full⟩

end NodeQuery.Numeral
