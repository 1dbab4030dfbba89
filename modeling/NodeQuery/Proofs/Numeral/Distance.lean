import NodeQuery.Evaluation
import NodeQuery.Proofs.Numeral.Halves

/-!
# Doubles close to a position

A predicate takes a number for a position if it is closer to it than the tolerance.  Doubles lie no
closer to one another than that, once they are not below one, so that the number has to be the position.
Below one they lie twice as close, and the largest double below one is taken for the first position.
-/

namespace NodeQuery.Numeral

open Float.Model
open Float.Model.UnpackedFloat

def Amount.abs : Amount → Amount
  | undefined => undefined
  | infinite _ => infinite false
  | exact number => exact |number|

theorem amount_abs (x : Float) : amount x.abs = (amount x).abs := by
  have made : amount x.abs = unpackedAmount (Float.Model.pack x.toModel.unpack.abs).unpack := amount_eq _
  rw [made, amount_eq]
  cases shown : x.toModel.unpack with
  | infinity sign => cases sign <;> rfl
  | notANumber => rfl
  | zero sign =>
      have none : (Float.Model.pack (.zero .positive)).unpack = .zero .positive := rfl
      change unpackedAmount (Float.Model.pack (.zero .positive)).unpack = .exact |0|
      rw [none, abs_zero]
      rfl
  | finite sign m e pos =>
      rcases isCanonical_unpack shown with ⟨canonical, high⟩
      have kept : (Float.Model.pack (.finite .positive m e pos)).unpack = .finite .positive m e pos :=
        unpack_pack_finite .positive canonical high
      have size : |signed (sign == .negative) (value m e)| = value m e := by
        rw [abs_signed, abs_of_pos (value_pos pos e)]
      change unpackedAmount (Float.Model.pack (.finite .positive m e pos)).unpack = .exact _
      rw [kept, size]
      rfl

theorem amount_tolerance : amount Evaluation.positionTolerance = .exact (2 ^ (-52 : ℤ)) := by
  have shown : Evaluation.positionTolerance.toModel.unpack =
      .finite .positive (2 ^ 52) (-104) (Nat.two_pow_pos 52) := rfl
  rw [amount_eq, shown]
  refine congrArg Amount.exact ?_
  change ((2 ^ 52 : ℕ) : ℚ) * 2 ^ (-104 : ℤ) = 2 ^ (-52 : ℤ)
  norm_num

theorem isGrid_tolerance : IsGrid (2 ^ (-52 : ℤ)) := ⟨1, -52, by norm_num, by omega, by norm_num⟩

/-- The difference of doubles is the sum of one and the negative of the other. -/
theorem amount_sub (x y : Float) : amount (x - y) = amount (x + -y) := by
  have difference : amount (x - y) = unpackedAmount (Float.Model.pack
      (UnpackedFloat.sub .binary64 x.toModel.unpack y.toModel.unpack)).unpack := amount_eq _
  have sum : amount (x + -y) = unpackedAmount (Float.Model.pack
      (UnpackedFloat.add .binary64 x.toModel.unpack (-y).toModel.unpack)).unpack := amount_eq _
  rw [difference, sum, sub_eq_add, unpack_neg]

theorem abs_lt_tolerance_iff (x : Float) :
    x.abs < Evaluation.positionTolerance ↔ ∃ number, amount x = .exact number ∧ |number| < 2 ^ (-52 : ℤ) := by
  rw [lt_iff_amount, amount_abs, amount_tolerance]
  cases amount x with
  | undefined | infinite negative =>
      refine iff_of_false (fun impossible => by cases impossible) ?_
      rintro ⟨_, impossible, _⟩
      cases impossible
  | exact number =>
      rw [Amount.abs, Amount.exact_lt_exact]
      simp only [Amount.exact.injEq, exists_eq_left']

/-- Only numbers are close to each other. -/
theorem exists_of_abs_sub_lt {x y : Float} (close : (x - y).abs < Evaluation.positionTolerance) :
    ∃ a b, amount x = .exact a ∧ amount y = .exact b := by
  by_contra special
  have apart : ∀ a b, ¬ (amount x = .exact a ∧ amount (-y) = .exact b) := by
    rintro a b ⟨left, right⟩
    rw [amount_neg] at right
    cases known : amount y <;> rw [known] at right <;> cases right
    exact special ⟨_, _, left, known⟩
  rcases (abs_lt_tolerance_iff _).mp close with ⟨number, sum, _⟩
  rw [amount_sub, amount_add_special apart] at sum
  rcases first : amount x with _ | sign | a <;> rcases second : amount (-y) with _ | other | b <;>
    rw [first, second] at sum
  case exact.exact => exact apart a b ⟨first, second⟩
  case infinite.infinite =>
    rw [Amount.add] at sum
    split at sum <;> cases sum
  all_goals cases sum

section
variable {x y : Float} {a b : ℚ} (left : amount x = .exact a) (right : amount y = .exact b)
include left right

/-- Numbers that are as far apart as the tolerance are not close. -/
theorem not_abs_sub_lt (far : 2 ^ (-52 : ℤ) ≤ |a - b|) :
    ¬ (x - y).abs < Evaluation.positionTolerance := by
  rcases rounds_sub left right with ⟨rounded, nearest, held⟩
  rw [abs_lt_tolerance_iff]
  rintro ⟨number, known, less⟩
  rw [held, Amount.held] at known
  split at known
  · injection known with same
    subst same
    rw [abs_lt] at less
    rcases le_abs'.mp far with below | above
    · exact absurd less.1 (not_lt.mpr (nearest.le isGrid_tolerance.neg below))
    · exact absurd less.2 (not_lt.mpr (nearest.ge isGrid_tolerance above))
  · cases known

/-- A difference that is a double and less than the tolerance is close. -/
theorem abs_sub_lt (grid : IsGrid (a - b)) (near : |a - b| < 2 ^ (-52 : ℤ)) :
    (x - y).abs < Evaluation.positionTolerance := by
  rcases rounds_sub left right with ⟨rounded, nearest, held⟩
  have same : rounded = a - b := le_antisymm (nearest.le grid le_rfl) (nearest.ge grid le_rfl)
  have small : |a - b| < 2 ^ (1024 : ℤ) := near.trans (zpow_lt_zpow_right₀ one_lt_two (by omega))
  rw [abs_lt_tolerance_iff]
  exact ⟨a - b, by rw [held, same, Amount.held, if_pos small], near⟩

end

def justBelowOne : Float := Float.ofBits 0x3FEFFFFFFFFFFFFF

theorem unpack_justBelowOne : justBelowOne.toModel.unpack =
    .finite .positive (2 ^ 53 - 1) (-53) (by decide) := rfl

theorem amount_justBelowOne : amount justBelowOne = .exact (1 - 2 ^ (-53 : ℤ)) := by
  rw [amount_eq, unpack_justBelowOne]
  refine congrArg Amount.exact ?_
  change ((2 ^ 53 - 1 : ℕ) : ℚ) * 2 ^ (-53 : ℤ) = 1 - 2 ^ (-53 : ℤ)
  norm_num

theorem eq_justBelowOne {x : Float} (known : amount x = .exact (1 - 2 ^ (-53 : ℤ))) : x = justBelowOne := by
  have equal : (x == justBelowOne) = true := by
    rw [beq_iff_amount, known, amount_justBelowOne, Amount.compare?_exact_eq_some_eq]
  have same : x.toModel.unpack.beq justBelowOne.toModel.unpack = true := equal
  rw [unpack_justBelowOne] at same
  apply eq_of_unpack_eq rfl
  rw [unpack_justBelowOne]
  exact eq_of_beq_finite (.inl same)

/-- Multiples of a unit that are less than the unit apart are the same. -/
theorem eq_of_multiples {u j k : ℤ} (near : |(j : ℚ) * 2 ^ u - k * 2 ^ u| < 2 ^ u) : j = k := by
  have unit : (0 : ℚ) < 2 ^ u := by positivity
  rw [← sub_mul, abs_mul, abs_of_pos unit, mul_lt_iff_lt_one_left unit] at near
  have apart : |j - k| < 1 := by exact_mod_cast near
  exact sub_eq_zero.mp (Int.abs_lt_one_iff.mp apart)

/-- A double that is closer to a positive integer than the tolerance is the integer, or it is just below
one. -/
theorem eq_or_below_one {a : ℚ} (grid : IsGrid a) {n : ℤ} (pos : 0 < n)
    (near : |a - n| < 2 ^ (-52 : ℤ)) : a = n ∨ a = 1 - 2 ^ (-53 : ℤ) ∧ n = 1 := by
  have unit : (2 : ℚ) ^ (-52 : ℤ) = 1 / 2 ^ 52 := by norm_num
  have one : (1 : ℚ) ≤ n := by exact_mod_cast pos
  have bounds := abs_lt.mp near
  rw [unit] at bounds
  have half : 1 / 2 ≤ a := by linarith
  have size : |a| = a := abs_of_pos (by linarith)
  rcases le_or_gt 1 a with large | small
  · -- From one on doubles are multiples of the tolerance.
    have least : (2 : ℚ) ^ (52 + -52 : ℤ) ≤ |a| := by rwa [size, add_neg_cancel, zpow_zero]
    have whole : (n : ℚ) = (n * 2 ^ 52 : ℤ) * 2 ^ (-52 : ℤ) := by
      rw [unit]
      push_cast
      ring
    rcases grid.multiple least with ⟨k, rfl⟩
    rw [whole] at near ⊢
    exact .inl (by rw [eq_of_multiples near])
  · -- Below one they are multiples of half of it.
    have least : (2 : ℚ) ^ (52 + -53 : ℤ) ≤ |a| := by
      rw [size]
      norm_num
      exact half
    have last : 1 - (2 : ℚ) ^ (-53 : ℤ) = (2 ^ 53 - 1 : ℤ) * 2 ^ (-53 : ℤ) := by norm_num
    have few : (n : ℚ) < (2 : ℤ) := by push_cast; linarith
    have fewInt : n < 2 := by exact_mod_cast few
    obtain rfl : n = 1 := by omega
    have doubled : (2 : ℚ) ^ (-52 : ℤ) = 2 * 2 ^ (-53 : ℤ) := by norm_num
    rw [Int.cast_one, doubled, abs_lt] at near
    have close : |a - (1 - 2 ^ (-53 : ℤ))| < 2 ^ (-53 : ℤ) := abs_lt.mpr ⟨by linarith, by linarith⟩
    rcases grid.multiple least with ⟨k, rfl⟩
    rw [last] at close ⊢
    exact .inr ⟨by rw [eq_of_multiples close], rfl⟩

/-- A positive whole number is made an integer that is one only if it is, unless it is too large. -/
theorem exists_amount_ofNat {n : Nat} (pos : 0 < n) :
    ∃ m : ℤ, amount (Float.ofNat n) = .held m ∧ 0 < m ∧ (m = 1 ↔ n = 1) ∧
      (n < 2 ^ 64 → amount (Float.ofNat n) = .exact m) := by
  rcases rounds_ofNat n with ⟨rounded, nearest, held⟩
  have whole : ∃ m : ℤ, rounded = m := by
    by_cases small : n < 2 ^ 53
    · exact ⟨n, (nearest.eq_intCast_iff (by rw [Nat.abs_cast]; omega)).mpr rfl⟩
    · have bound : ((2 ^ 53 : ℤ) : ℚ) ≤ rounded :=
        nearest.ge (isGrid_intCast (by norm_num)) (by exact_mod_cast not_lt.mp small)
      apply nearest.grid.exists_intCast
      rw [Int.cast_pow] at bound
      exact le_trans (le_trans (by norm_num) bound) (le_abs_self _)
  rcases whole with ⟨m, rfl⟩
  have above := nearest.intCast_lt_iff (by norm_num : |(0 : ℤ)| < 2 ^ 53)
  have one := nearest.eq_intCast_iff (by norm_num : |(1 : ℤ)| < 2 ^ 53)
  have filled : ((0 : ℤ) : ℚ) < m := above.mpr (by omega)
  rw [Int.cast_zero] at filled
  refine ⟨m, held, by exact_mod_cast filled, ?_, fun small => ?_⟩
  · have same : m = 1 ↔ (n : ℤ) = 1 := by exact_mod_cast one
    omega
  · have limit : IsGrid ((2 : ℚ) ^ (64 : ℤ)) := ⟨1, 64, by norm_num, by omega, by norm_num⟩
    have most : (m : ℚ) ≤ 2 ^ (64 : ℤ) := nearest.le limit (by exact_mod_cast small.le)
    have few : |(m : ℚ)| < 2 ^ (1024 : ℤ) := by
      rw [abs_of_pos filled]
      exact most.trans_lt (zpow_lt_zpow_right₀ one_lt_two (by omega))
    rw [held, Amount.held, if_pos few]

/-- No whole number is just below one. -/
theorem ofNat_beq_justBelowOne {n : Nat} (pos : 0 < n) : (Float.ofNat n == justBelowOne) = false := by
  rcases exists_amount_ofNat pos with ⟨m, known, least, _, _⟩
  rw [Bool.eq_false_iff, ne_eq, beq_iff_amount, known, amount_justBelowOne,
    Amount.compare?_eq_some_eq_exact, Amount.held_eq_exact_iff (abs_lt_of_amount amount_justBelowOne)]
  intro same
  have one : (1 : ℚ) ≤ m := by exact_mod_cast least
  have less : (1 : ℚ) - 2 ^ (-53 : ℤ) < 1 := by norm_num
  linarith

/-- A number is closer to a whole number than the tolerance if the two are equal, or else if it is the
largest double below one and the whole number is one. -/
theorem abs_sub_ofNat_lt_iff (x : Float) {n : Nat} (pos : 0 < n) (bound : n < 2 ^ 64) :
    (x - Float.ofNat n).abs < Evaluation.positionTolerance ↔
      (Float.ofNat n == x) = true ∨ x = justBelowOne ∧ n = 1 := by
  rcases exists_amount_ofNat pos with ⟨m, _, least, one, small⟩
  have whole := small bound
  rw [beq_iff_amount, whole, Amount.compare?_exact_eq_some_eq]
  constructor
  · intro close
    rcases exists_of_abs_sub_lt close with ⟨a, b, known, other⟩
    have near : |a - m| < 2 ^ (-52 : ℤ) := not_le.mp fun far => not_abs_sub_lt known whole far close
    rcases eq_or_below_one (keeps_unpack known).isGrid least near with rfl | ⟨rfl, single⟩
    · exact .inl known
    · exact .inr ⟨eq_justBelowOne known, one.mp single⟩
  · rintro (known | ⟨rfl, single⟩)
    · apply abs_sub_lt known whole
      · rw [sub_self]
        exact isGrid_zero
      · rw [sub_self, abs_zero]
        positivity
    · rw [one.mpr single, Int.cast_one] at whole
      have distance : (1 : ℚ) - 2 ^ (-53 : ℤ) - 1 = (-1 : ℤ) * 2 ^ (-53 : ℤ) := by norm_num
      apply abs_sub_lt amount_justBelowOne whole
      · rw [distance]
        exact isGrid_of_le (by norm_num) (by omega)
      · rw [distance]
        norm_num [abs_lt]

/-- One is the only whole number, of any size, that it is closer to than the tolerance. -/
theorem abs_one_sub_ofNat_lt_iff (n : Nat) :
    (Decimal.toFloat ⟨1, 0⟩ - Float.ofNat n).abs < Evaluation.positionTolerance ↔ n = 1 := by
  have single : amount (Decimal.toFloat ⟨1, 0⟩) = .exact (1 : ℤ) :=
    amount_of_rounds (rounds_toFloat_whole 1) (by decide)
  constructor
  · intro close
    rcases exists_of_abs_sub_lt close with ⟨a, b, _, known⟩
    have near : |((1 : ℤ) : ℚ) - b| < 2 ^ (-52 : ℤ) :=
      not_le.mp fun far => not_abs_sub_lt single known far close
    rcases rounds_ofNat n with ⟨rounded, nearest, held⟩
    have same : rounded = b :=
      (Amount.held_eq_exact_iff (abs_lt_of_amount known)).mp (held.symm.trans known)
    have tiny : (2 : ℚ) ^ (-52 : ℤ) < 1 := by norm_num
    rw [← same, Int.cast_one, abs_lt] at near
    by_contra other
    rcases Nat.lt_or_gt_of_ne other with none | more
    · have zero := (nearest.eq_intCast_iff (by norm_num : |(0 : ℤ)| < 2 ^ 53)).mpr (by omega)
      rw [zero, Int.cast_zero] at near
      linarith
    · have least := (nearest.lt_intCast_iff (by norm_num : |(2 : ℤ)| < 2 ^ 53)).not.mpr (by omega)
      push_cast at least
      linarith
  · rintro rfl
    decide +kernel

end NodeQuery.Numeral
