import NodeQuery.Proofs.Numeral.Whole

/-!
# Rounding to integers

A double is rounded to an integer by adding a half and rounding down.  The sum is itself rounded to a
double, and almost always that makes no difference.  It does for the largest double below one half and
for the odd integers that leave no bit for a half: the sum is rounded up to the next integer there.
-/

namespace NodeQuery.Numeral

open Float.Model
open Float.Model.UnpackedFloat

/-- The nearest integer, and of two such the upper one. -/
def rounded (number : ℚ) : ℤ := ⌊number + 1 / 2⌋

/-- The numbers whose sum with a half is rounded up to an integer that is too large. -/
def Overshoots (number : ℚ) : Prop :=
  number = 1 / 2 - 1 / 2 ^ 54 ∨
    number.den = 1 ∧ Odd number.num ∧ 2 ^ 52 < |number.num| ∧ |number.num| < 2 ^ 53

instance : DecidablePred Overshoots := fun number =>
  inferInstanceAs (Decidable (number = 1 / 2 - 1 / 2 ^ 54 ∨
    number.den = 1 ∧ Odd number.num ∧ 2 ^ 52 < |number.num| ∧ |number.num| < 2 ^ 53))

/-- What adding a half and rounding down makes of a number. -/
def settled (number : ℚ) : ℤ := if Overshoots number then rounded number + 1 else rounded number

/-- From `2 ^ 52` on doubles are integers. -/
theorem IsGrid.exists_intCast {number : ℚ} (grid : IsGrid number) (large : (2 : ℚ) ^ 52 ≤ |number|) :
    ∃ n : ℤ, number = n := by
  have exponent : (2 : ℚ) ^ (52 + 0 : ℤ) ≤ |number| := by exact_mod_cast large
  rcases grid.multiple exponent with ⟨n, whole⟩
  rw [zpow_zero, mul_one] at whole
  exact ⟨n, whole⟩

/-- A number is a neighbour of its sum with a half. -/
theorem sum_between {number sum : ℚ} (grid : IsGrid number)
    (nearest : IsNearest (number + 1 / 2) sum) : number ≤ sum ∧ sum ≤ number + 1 := by
  have close := nearest.close number grid
  rw [add_sub_cancel_left, abs_of_pos (by norm_num : (0 : ℚ) < 1 / 2), abs_le] at close
  exact ⟨by linarith, by linarith⟩

/-- An integer and the next one are as far from the half between them. -/
theorem half_tie (n : ℚ) : |n + 1 / 2 - n| = |n + 1 / 2 - (n + 1)| := by
  rw [add_sub_cancel_left, add_sub_add_left_eq_sub, abs_of_pos (by norm_num : (0 : ℚ) < 1 / 2),
    abs_of_neg (by norm_num)]
  norm_num

/-- Of two integers that are as near, the even one is taken where doubles lie no closer than integers. -/
theorem even_of_tie {number sum other : ℚ} (nearest : IsNearest number sum)
    (large : (2 : ℚ) ^ 52 ≤ |sum|) {j : ℤ} (integral : sum = j) (grid : IsGrid other)
    (tie : |number - sum| = |number - other|) (apart : other ≠ sum) : Even j := by
  have exponent : (2 : ℚ) ^ (52 + 0 : ℤ) ≤ |sum| := by exact_mod_cast large
  rcases (nearest.even other grid tie apart).multiple exponent with ⟨k, doubled⟩
  rw [zpow_zero, mul_one, integral] at doubled
  have same : j = 2 * k := by exact_mod_cast doubled
  exact ⟨k, by rw [same, two_mul]⟩

/-- Where only integers are doubles, the sum is the even one of the two integers next to it. -/
theorem sum_of_large {n : ℤ} {sum : ℚ} (grid : IsGrid n) (nearest : IsNearest (n + 1 / 2) sum)
    (large : 2 ^ 52 ≤ |sum|) (bound : |n| ≤ 2 ^ 53 ∨ Even n) :
    sum = if Even n then (n : ℚ) else n + 1 := by
  have between := sum_between grid nearest
  rcases nearest.grid.exists_intCast large with ⟨j, integral⟩
  have least : n ≤ j := by exact_mod_cast integral ▸ between.1
  have most : j ≤ n + 1 := by exact_mod_cast integral ▸ between.2
  rcases Int.le_iff_eq_or_lt.mp least with rfl | above
  · by_cases even : Even n
    · rw [if_pos even, integral]
    · have next : IsGrid ((n + 1 : ℤ) : ℚ) := by
        have size := abs_le.mp (bound.resolve_right even)
        have odd : n ≠ 2 ^ 53 := by
          rintro rfl
          exact even (by decide)
        exact isGrid_intCast (abs_le.mpr ⟨by omega, by omega⟩)
      rw [Int.cast_add, Int.cast_one] at next
      refine absurd (even_of_tie nearest large integral next ?_ ?_) even
      · rw [integral]
        exact half_tie n
      · rw [integral]
        exact_mod_cast (Int.lt_succ n).ne'
  · have step : j = n + 1 := by omega
    have value : sum = n + 1 := by
      rw [integral, step]
      push_cast
      rfl
    have even : Even j := by
      refine even_of_tie nearest large integral grid ?_ ?_
      · rw [value]
        exact (half_tie n).symm
      · rw [integral]
        exact_mod_cast above.ne
    rw [step] at even
    rw [if_neg (Int.even_add_one.mp even), value]

/-!
## Numbers that leave a bit for the half

Between the sum with a half and the next integer there is a number on the grid here, or the sum is on the
grid itself, so rounding does not reach that integer.
-/

section
variable {number : ℚ} (grid : IsGrid number)

theorem rounded_le (number : ℚ) : (rounded number : ℚ) ≤ number + 1 / 2 := Int.floor_le _

theorem lt_rounded_add_one (number : ℚ) : number + 1 / 2 < rounded number + 1 :=
  Int.lt_floor_add_one _

theorem rounded_intCast (n : ℤ) : rounded n = n := by
  rw [rounded, Int.floor_eq_iff]
  exact ⟨by linarith, by linarith⟩

theorem isGrid_half {n : ℤ} (size : |2 * n + 1| ≤ 2 ^ 53) : IsGrid (n + 1 / 2 : ℚ) := by
  have half := isGrid_of_le size (e := -1) (by omega)
  have same : ((2 * n + 1 : ℤ) : ℚ) * 2 ^ (-1 : ℤ) = n + 1 / 2 := by
    rw [zpow_neg_one]
    push_cast
    ring
  rwa [same] at half

/-- The least number that leaves a bit for the half is an integer, so one above its integer is not it. -/
theorem lt_of_rounded_lt (low : -2 ^ 52 ≤ number) (above : rounded number < number) :
    -2 ^ 52 < number := by
  have least := lt_rounded_add_one number
  by_contra tight
  have same : number = ((-2 ^ 52 : ℤ) : ℚ) := by
    push_cast
    linarith
  rw [same, rounded_intCast] at above
  exact lt_irrefl _ above

/-- One half on a unit that divides it. -/
theorem exists_half_eq {u : ℤ} (divides : u ≤ -1) : ∃ h : ℤ, (2 : ℚ)⁻¹ = h * 2 ^ u := by
  have half := zpow_cast_split divides
  rw [zpow_neg_one] at half
  exact ⟨_, half⟩

/-- A number on a unit that divides one half is a whole unit below a half that it is below. -/
theorem add_unit_le {a n u : ℤ} (divides : u ≤ -1) (below : (a : ℚ) * 2 ^ u < n + 1 / 2) :
    (a : ℚ) * 2 ^ u + 2 ^ u ≤ n + 1 / 2 := by
  have unit : (0 : ℚ) < 2 ^ u := by positivity
  rcases exists_half_eq divides with ⟨h, half⟩
  have middle : (n : ℚ) + 1 / 2 = ((2 * n + 1) * h : ℤ) * 2 ^ u := by
    push_cast
    linear_combination (2 * n + 1) * half
  rw [middle] at below ⊢
  have units : a < (2 * n + 1) * h := by exact_mod_cast lt_of_mul_lt_mul_right below unit.le
  have scaled : ((a + 1 : ℤ) : ℚ) * 2 ^ u ≤ ((2 * n + 1) * h : ℤ) * 2 ^ u :=
    mul_le_mul_of_nonneg_right (by exact_mod_cast units) unit.le
  push_cast at scaled ⊢
  linarith

/-- The number one unit below the next integer, if it is not too large for the unit. -/
theorem isGrid_next_sub {n u : ℤ} (divides : u ≤ -1) (low : -1074 ≤ u)
    (size : |(n : ℚ) + 1 - 2 ^ u| ≤ 2 ^ (52 + u + 1)) : IsGrid ((n : ℚ) + 1 - 2 ^ u) := by
  have unit : (0 : ℚ) < 2 ^ u := by positivity
  rcases exists_half_eq divides with ⟨h, half⟩
  have places : (n : ℚ) + 1 - 2 ^ u = ((2 * n + 2) * h - 1 : ℤ) * 2 ^ u := by
    push_cast
    linear_combination (2 * n + 2) * half
  have bits : (2 : ℚ) ^ (52 + u + 1) = (2 ^ 53 : ℤ) * 2 ^ u := by
    rw [add_right_comm, zpow_add₀ two_ne_zero]
    norm_num
  rw [places, bits, abs_mul, abs_of_pos unit, ← Int.cast_abs] at size
  rw [places]
  exact isGrid_of_le (by exact_mod_cast le_of_mul_le_mul_right size unit) low

/-- The number one unit below the next integer is within the power of two that a number above the integer
is within. -/
theorem abs_next_sub_le {n u : ℤ} (some : n ≠ 0) (above : n < number)
    (next : number + 2 ^ u ≤ n + 1 / 2) (whole : 0 ≤ 52 + u + 1) (less : |number| < 2 ^ (52 + u + 1)) :
    |(n : ℚ) + 1 - 2 ^ u| ≤ 2 ^ (52 + u + 1) := by
  have unit : (0 : ℚ) < 2 ^ u := by positivity
  have bound : (0 : ℚ) < 2 ^ (52 + u + 1) := by positivity
  rw [abs_le]
  rcases lt_or_gt_of_ne some with negative | positive
  · have one : (n : ℚ) ≤ -1 := by exact_mod_cast Int.le_sub_one_of_lt negative
    have far := neg_lt_of_abs_lt less
    exact ⟨by linarith, by linarith⟩
  · have step : (n : ℚ) + 1 ≤ 2 ^ (52 + u + 1) := by
      have order : (n : ℚ) < 2 ^ (52 + u + 1) := above.trans (lt_of_abs_lt less)
      rw [zpow_cast_split whole, zpow_zero, mul_one] at order ⊢
      exact_mod_cast order
    have one : (1 : ℚ) ≤ n := by exact_mod_cast positive
    exact ⟨by linarith, by linarith⟩

include grid

/-- A number that is not above the integer: there is a half between the sum and the next integer. -/
theorem exists_bound_of_le (low : -2 ^ 52 ≤ number) (high : number < 2 ^ 52)
    (below : number ≤ rounded number) :
    ∃ bound, IsGrid bound ∧ number + 1 / 2 ≤ bound ∧ bound < rounded number + 1 := by
  have least := rounded_le number
  have most := lt_rounded_add_one number
  generalize rounded number = n at below least most
  have lower : -2 ^ 52 ≤ n := by
    have close : ((-2 ^ 52 : ℤ) : ℚ) < (n + 1 : ℤ) := by
      push_cast
      linarith
    exact Int.lt_add_one_iff.mp (by exact_mod_cast close)
  have upper : n ≤ 2 ^ 52 := by
    have close : (n : ℚ) < (2 ^ 52 + 1 : ℤ) := by
      push_cast
      linarith
    exact Int.lt_add_one_iff.mp (by exact_mod_cast close)
  rcases Int.lt_or_eq_of_le upper with less | rfl
  · refine ⟨n + 1 / 2, isGrid_half (abs_le.mpr ⟨by omega, by omega⟩), by linarith, by linarith⟩
  · -- The number is a multiple of one half here.
    have large : (2 : ℚ) ^ (52 + -1 : ℤ) ≤ |number| := by
      refine le_trans ?_ (le_abs_self number)
      push_cast at least
      norm_num at least ⊢
      linarith
    rcases grid.multiple large with ⟨k, halves⟩
    have short : k < 2 ^ 53 := by
      have close : (k : ℚ) < (2 ^ 53 : ℤ) := by
        rw [halves, zpow_neg_one] at high
        push_cast
        linarith
      exact_mod_cast close
    have fits : (k : ℚ) ≤ (2 ^ 53 - 1 : ℤ) := by exact_mod_cast Int.le_sub_one_of_lt short
    refine ⟨(2 ^ 52 : ℤ), isGrid_intCast (by norm_num), ?_, by linarith⟩
    rw [halves, zpow_neg_one]
    push_cast at fits ⊢
    linarith

/-- A number below one half: only the largest such double is too close to it. -/
theorem exists_bound_of_rounded_eq_zero (positive : 0 < number) (none : rounded number = 0)
    (apart : number ≠ 1 / 2 - 1 / 2 ^ 54) :
    ∃ bound, IsGrid bound ∧ number + 1 / 2 ≤ bound ∧ bound < rounded number + 1 := by
  have most := lt_rounded_add_one number
  rw [none, Int.cast_zero, zero_add] at most ⊢
  by_cases small : number < 1 / 4
  · have grid : IsGrid (3 / 4) := ⟨3, -2, by norm_num, by omega, by norm_num⟩
    exact ⟨3 / 4, grid, by linarith, by norm_num⟩
  · have large : (2 : ℚ) ^ (52 + -54 : ℤ) ≤ |number| := by
      rw [abs_of_pos positive]
      norm_num at small ⊢
      exact small
    rcases grid.multiple large with ⟨k, parts⟩
    have unit : (2 : ℚ) ^ (-54 : ℤ) = 1 / 2 ^ 54 := by norm_num
    rw [unit] at parts
    have short : k < 2 ^ 53 := by
      have close : (k : ℚ) < (2 ^ 53 : ℤ) := by
        push_cast
        linarith
      exact_mod_cast close
    have notLast : k ≠ 2 ^ 53 - 1 := by
      rintro rfl
      apply apart
      rw [parts]
      norm_num
    have fits : (k : ℚ) ≤ (2 ^ 53 - 2 : ℤ) := by exact_mod_cast (by omega : k ≤ 2 ^ 53 - 2)
    have grid : IsGrid (1 - 1 / 2 ^ 53) := ⟨2 ^ 53 - 1, -53, by norm_num, by omega, by norm_num⟩
    refine ⟨_, grid, ?_, by norm_num⟩
    push_cast at fits
    linarith

/-- A number above the integer, which is not zero: it is at least one unit of its last place below the
next half. -/
theorem exists_bound_of_lt (low : -2 ^ 52 ≤ number) (high : number < 2 ^ 52)
    (above : rounded number < number) (some : rounded number ≠ 0) :
    ∃ bound, IsGrid bound ∧ number + 1 / 2 ≤ bound ∧ bound < rounded number + 1 := by
  have lower := lt_of_rounded_lt low above
  have most := lt_rounded_add_one number
  generalize rounded number = n at above most some
  have large : (2 : ℚ) ^ (-1 : ℤ) < |number| := by
    rw [zpow_neg_one]
    rcases lt_or_gt_of_ne some with negative | positive
    · have one : (n : ℚ) ≤ -1 := by exact_mod_cast Int.le_sub_one_of_lt negative
      refine lt_of_lt_of_le ?_ (neg_le_abs number)
      linarith
    · have one : (1 : ℚ) ≤ n := by exact_mod_cast positive
      refine lt_of_lt_of_le ?_ (le_abs_self number)
      linarith
  rcases exists_mem_Ico_zpow (lt_trans (by positivity) large) one_lt_two with ⟨k, least, less⟩
  have kLow := (zpow_lt_zpow_iff_right₀ one_lt_two).mp (large.trans less)
  have kHigh : k < 52 := by
    have bound : (2 : ℚ) ^ k < 2 ^ (52 : ℤ) := least.trans_lt (abs_lt.mpr ⟨lower, high⟩)
    exact (zpow_lt_zpow_iff_right₀ one_lt_two).mp bound
  -- One unit of the last place.
  obtain ⟨u, rfl⟩ : ∃ u, k = 52 + u := ⟨k - 52, by omega⟩
  have unit : (0 : ℚ) < 2 ^ u := by positivity
  have next : number + 2 ^ u ≤ n + 1 / 2 := by
    rcases grid.multiple least with ⟨a, rfl⟩
    exact add_unit_le (by omega) (by linarith)
  have size := abs_next_sub_le some above next (by omega) less
  exact ⟨_, isGrid_next_sub (by omega) (by omega) size, by linarith, by linarith⟩

/-- A bound for the sum below the next integer. -/
theorem exists_bound (low : -2 ^ 52 ≤ number) (high : number < 2 ^ 52)
    (apart : number ≠ 1 / 2 - 1 / 2 ^ 54) :
    ∃ bound, IsGrid bound ∧ number + 1 / 2 ≤ bound ∧ bound < rounded number + 1 := by
  rcases le_or_gt number (rounded number) with below | above
  · exact exists_bound_of_le grid low high below
  · by_cases none : rounded number = 0
    · have positive : 0 < number := by rwa [none, Int.cast_zero] at above
      exact exists_bound_of_rounded_eq_zero grid positive none apart
    · exact exists_bound_of_lt grid low high above none

end

theorem overshoots_intCast (n : ℤ) : Overshoots n ↔ Odd n ∧ 2 ^ 52 < |n| ∧ |n| < 2 ^ 53 := by
  have fraction : ¬ (n : ℚ) = 1 / 2 - 1 / 2 ^ 54 := by
    intro same
    have scaled : ((n * 2 ^ 54 : ℤ) : ℚ) = (2 ^ 53 - 1 : ℤ) := by
      push_cast
      rw [same]
      norm_num
    have whole : n * 2 ^ 54 = 2 ^ 53 - 1 := by exact_mod_cast scaled
    omega
  rw [Overshoots, Rat.den_intCast, Rat.num_intCast]
  simp only [fraction, false_or, true_and]

theorem large_of_overshoots {number : ℚ} (overshoots : Overshoots number)
    (apart : number ≠ 1 / 2 - 1 / 2 ^ 54) : 2 ^ 52 < |number| := by
  rcases overshoots with same | ⟨one, _, large, _⟩
  · exact absurd same apart
  · rw [← Rat.coe_int_num_of_den_eq_one one]
    exact_mod_cast large

/-- The sum of the largest double below one half and a half is rounded to one. -/
theorem sum_below_half {number sum : ℚ} (nearest : IsNearest (number + 1 / 2) sum)
    (same : number = 1 / 2 - 1 / 2 ^ 54) : sum = 1 := by
  have one : IsGrid 1 := ⟨1, 0, by norm_num, by omega, by norm_num⟩
  have under : IsGrid (1 - 1 / 2 ^ 53) := ⟨2 ^ 53 - 1, -53, by norm_num, by omega, by norm_num⟩
  have most : sum ≤ 1 := nearest.le one (by rw [same]; norm_num)
  have least : 1 - 1 / 2 ^ 53 ≤ sum := nearest.ge under (by rw [same]; norm_num)
  by_contra apart
  have less : sum < 1 := lt_of_le_of_ne most apart
  have large : (2 : ℚ) ^ (52 + -53 : ℤ) ≤ |sum| := by
    refine le_trans ?_ (le_abs_self sum)
    refine le_trans ?_ least
    norm_num
  have unit : (2 : ℚ) ^ (-53 : ℤ) = 1 / 2 ^ 53 := by norm_num
  rcases nearest.grid.multiple large with ⟨k, parts⟩
  rw [unit] at parts
  have last : k = 2 ^ 53 - 1 := by
    have below : (k : ℚ) < (2 ^ 53 : ℤ) := by
      push_cast
      linarith
    have above : ((2 ^ 53 - 1 : ℤ) : ℚ) ≤ k := by
      push_cast
      linarith
    have belowInt : k < 2 ^ 53 := by exact_mod_cast below
    have aboveInt : 2 ^ 53 - 1 ≤ k := by exact_mod_cast above
    omega
  have value : sum = 1 - 1 / 2 ^ 53 := by
    rw [parts, last]
    norm_num
  have tie : |number + 1 / 2 - sum| = |number + 1 / 2 - 1| := by
    rw [same, value]
    norm_num
  rcases (nearest.even 1 one tie (Ne.symm apart)).multiple large with ⟨j, doubled⟩
  rw [unit, parts] at doubled
  have twice : k = 2 * j := by
    have cancelled := mul_right_cancel₀ (by norm_num : (1 : ℚ) / 2 ^ 53 ≠ 0) doubled
    exact_mod_cast cancelled
  omega

/-- An integer that is a double is even from `2 ^ 53` on. -/
theorem even_of_isGrid {n : ℤ} (grid : IsGrid n) (large : 2 ^ 53 ≤ |n|) : Even n := by
  have far : (2 : ℚ) ^ (52 + 1 : ℤ) ≤ |(n : ℚ)| := by exact_mod_cast large
  rcases grid.multiple far with ⟨k, doubled⟩
  rw [zpow_one] at doubled
  have twice : n = k * 2 := by exact_mod_cast doubled
  exact ⟨k, by rw [twice, mul_two]⟩

/-- Among the integers that leave no bit for the half, the odd ones go wrong. -/
theorem overshoots_iff_not_even {n : ℤ} (apart : 2 ^ 52 ≤ n ∨ n < -2 ^ 52)
    (bound : |n| ≤ 2 ^ 53 ∨ Even n) : Overshoots n ↔ ¬ Even n := by
  rw [overshoots_intCast, Int.not_even_iff_odd]
  refine and_iff_left_of_imp fun odd => ?_
  have small := bound.resolve_right (Int.not_even_iff_odd.mpr odd)
  rcases odd with ⟨j, rfl⟩
  rw [abs_le] at small
  rw [lt_abs, abs_lt]
  omega

section
variable {number sum : ℚ} (grid : IsGrid number) (nearest : IsNearest (number + 1 / 2) sum)
include grid nearest

/-- Where only integers are doubles, the sum is even. -/
theorem sum_of_integral (large : 2 ^ 52 ≤ number ∨ number < -2 ^ 52) :
    ∃ n : ℤ, number = n ∧ sum = if Overshoots number then (n : ℚ) + 1 else n := by
  have between := sum_between grid nearest
  have size : (2 : ℚ) ^ 52 ≤ |number| := by
    rcases large with positive | negative
    · exact positive.trans (le_abs_self number)
    · refine le_trans ?_ (neg_le_abs number)
      linarith
  rcases grid.exists_intCast size with ⟨n, rfl⟩
  have apart : 2 ^ 52 ≤ n ∨ n < -2 ^ 52 := by exact_mod_cast large
  have sumLarge : 2 ^ 52 ≤ |sum| := by
    rcases apart with positive | negative
    · have least : ((2 ^ 52 : ℤ) : ℚ) ≤ n := by exact_mod_cast positive
      refine le_trans ?_ (le_abs_self sum)
      push_cast at least
      linarith
    · have most : (n : ℚ) ≤ (-2 ^ 52 - 1 : ℤ) := by exact_mod_cast Int.le_sub_one_of_lt negative
      refine le_trans ?_ (neg_le_abs sum)
      push_cast at most
      linarith
  have bound : |n| ≤ 2 ^ 53 ∨ Even n :=
    (le_total |n| (2 ^ 53)).imp_right (even_of_isGrid grid)
  have overshoots := overshoots_iff_not_even apart bound
  refine ⟨n, rfl, ?_⟩
  rw [sum_of_large grid nearest sumLarge bound]
  by_cases even : Even n
  · rw [if_pos even, if_neg (mt overshoots.mp (not_not.mpr even))]
  · rw [if_neg even, if_pos (overshoots.mpr even)]

/-- Adding a half and rounding down. -/
theorem floor_sum : ⌊sum⌋ = settled number := by
  by_cases below : number = 1 / 2 - 1 / 2 ^ 54
  · have none : rounded number = 0 := by
      rw [rounded, below, Int.floor_eq_iff]
      norm_num
    rw [sum_below_half nearest below, settled, if_pos (.inl below), none, Int.floor_one]
    rfl
  by_cases bits : -2 ^ 52 ≤ number ∧ number < 2 ^ 52
  · have notOver : ¬ Overshoots number := by
      intro overshoots
      have large := large_of_overshoots overshoots below
      exact absurd (abs_le.mpr ⟨bits.1, bits.2.le⟩) (not_le.mpr large)
    rcases exists_bound grid bits.1 bits.2 below with ⟨bound, boundGrid, above, less⟩
    have least := rounded_le number
    have most := lt_rounded_add_one number
    have size : |rounded number| ≤ 2 ^ 53 := by
      have upper : (rounded number : ℚ) < (2 ^ 53 : ℤ) := by
        push_cast
        linarith [bits.2]
      have lower : ((-2 ^ 53 : ℤ) : ℚ) < rounded number := by
        push_cast
        linarith [bits.1]
      exact abs_le.mpr ⟨by exact_mod_cast lower.le, by exact_mod_cast upper.le⟩
    rw [settled, if_neg notOver, Int.floor_eq_iff]
    exact ⟨nearest.ge (isGrid_intCast size) least, (nearest.le boundGrid above).trans_lt less⟩
  · have large : 2 ^ 52 ≤ number ∨ number < -2 ^ 52 := by
      rcases not_and_or.mp bits with lower | upper
      · exact .inr (not_le.mp lower)
      · exact .inl (not_lt.mp upper)
    rcases sum_of_integral grid nearest large with ⟨n, rfl, even⟩
    rw [even, settled, rounded_intCast]
    split
    · exact_mod_cast Int.floor_intCast (n + 1)
    · exact Int.floor_intCast n

end

def Amount.map (change : ℚ → ℚ) : Amount → Amount
  | exact number => exact (change number)
  | other => other

/-- The mantissa with its sign, over the power of two that it is a fraction of. -/
theorem floor_signed_value (negative : Bool) (m : Nat) (k : Nat) :
    ⌊signed negative (value m (-k))⌋ =
      (if negative then -(m : Int) else m).fdiv (Nat.pow 2 k) := by
  have fraction : signed negative (value m (-k)) =
      ((if negative then -(m : Int) else m : Int) : ℚ) / ((2 ^ k : Nat) : ℚ) := by
    cases negative <;>
      simp only [signed, value, zpow_neg, zpow_natCast, if_true, if_false, Bool.false_eq_true] <;>
      push_cast <;> ring
  rw [fraction, Rat.floor_intCast_div_natCast, Int.fdiv_eq_ediv_of_nonneg _ (Int.natCast_nonneg _)]
  rfl

theorem natAbs_floor_le (negative : Bool) (m k : Nat) :
    (⌊signed negative (value m (-k))⌋).natAbs ≤ m := by
  have size : |signed negative (value m (-k))| ≤ m := by
    have shorter : (2 : ℚ) ^ (-(k : ℤ)) ≤ 2 ^ (0 : ℤ) := zpow_le_zpow_right₀ one_le_two (by omega)
    rw [abs_signed, value, abs_of_nonneg (by positivity)]
    rw [zpow_zero] at shorter
    exact mul_le_of_le_one_right (Nat.cast_nonneg m) shorter
  rw [abs_le] at size
  have least : -(m : ℤ) ≤ ⌊signed negative (value m (-k))⌋ := by
    rw [Int.le_floor]
    push_cast
    exact size.1
  have most : ⌊signed negative (value m (-k))⌋ ≤ (m : ℤ) := by
    have below := (Int.floor_le (signed negative (value m (-k)))).trans size.2
    exact_mod_cast below
  omega

theorem amount_floor (x : Float) : amount (floor x) = (amount x).map fun number => ⌊number⌋ := by
  rw [floor]
  cases parts : Parts.ofFloat x with
  | undefined =>
      dsimp only
      rw [amount, parts]
      rfl
  | infinite negative =>
      dsimp only
      rw [amount, parts]
      rfl
  | finite negative m e =>
      have known : amount x = .exact (signed negative (value m e)) := by rw [amount, parts]; rfl
      dsimp only
      rw [known]
      split
      · rename_i integral
        rw [known]
        refine congrArg Amount.exact ?_
        have whole : ∃ n : ℤ, signed negative (value m e) = n := by
          rcases integral with high | rfl
          · have raised := signed_value_raised (if negative then .negative else .positive) m high
            rw [zpow_zero, mul_one] at raised
            cases negative <;> exact ⟨_, raised⟩
          · exact ⟨0, by rw [value_zero, signed_zero, Int.cast_zero]⟩
        rcases whole with ⟨n, same⟩
        dsimp only
        rw [same, Int.floor_intCast]
      · rename_i fraction
        obtain ⟨k, rfl⟩ : ∃ k : Nat, e = -(k : Int) := ⟨(-e).toNat, by omega⟩
        have steps : (-(-(k : Int))).toNat = k := by omega
        have few : m < 2 ^ 53 := by
          have canonical := (isCanonical_of_signed_parts parts (by omega)).1
          exact (Nat.log2_lt (by omega)).mp (Nat.lt_succ_of_le canonical.bound)
        rw [steps, ← floor_signed_value]
        exact amount_ofInt ((natAbs_floor_le negative m k).trans_lt few)

/-- Every double that is a number is below `2 ^ 1024`. -/
theorem abs_lt_of_amount {x : Float} {number : ℚ} (known : amount x = .exact number) :
    |number| < 2 ^ (1024 : ℤ) := by
  rw [amount_eq] at known
  cases shown : x.toModel.unpack with
  | infinity sign | notANumber =>
      rw [shown] at known
      cases known
  | zero sign =>
      rw [shown] at known
      cases known
      rw [abs_zero]
      positivity
  | finite sign m e pos =>
      rcases isCanonical_unpack shown with ⟨canonical, high⟩
      rw [shown] at known
      cases known
      rw [abs_signed, abs_of_pos (value_pos pos e)]
      exact (exponent_le_iff canonical).mp high

theorem amount_half : amount 0.5 = .exact (1 / 2) := by
  have stores : Stores (-1) (0.5 : Float).toModel.unpack 1 := .finite .positive Nat.one_pos (by decide)
  rw [amount_eq, unpackedAmount_of_stores stores]
  norm_num

/-- The sum of a double and a half is not too large for a double. -/
theorem abs_sum_lt {number sum : ℚ} (grid : IsGrid number) (nearest : IsNearest (number + 1 / 2) sum)
    (bound : |number| < 2 ^ (1024 : ℤ)) : |sum| < 2 ^ (1024 : ℤ) := by
  by_cases small : |number| ≤ 2 ^ 53
  · have between := sum_between grid nearest
    rw [abs_le] at small
    have near : |sum| < 2 ^ (54 : ℤ) := by
      rw [abs_lt]
      norm_num at small ⊢
      exact ⟨by linarith [between.1, small.1], by linarith [between.2, small.2]⟩
    exact near.trans (zpow_lt_zpow_right₀ one_lt_two (by omega))
  · have far := not_le.mp small
    have large : 2 ^ 52 ≤ number ∨ number < -2 ^ 52 := by
      rcases lt_abs.mp far with positive | negative
      · exact .inl (by linarith)
      · exact .inr (by linarith)
    rcases sum_of_integral grid nearest large with ⟨n, rfl, even⟩
    have notOver : ¬ Overshoots n := by
      rw [overshoots_intCast]
      rintro ⟨_, _, few⟩
      have less : |(n : ℚ)| < 2 ^ 53 := by exact_mod_cast few
      linarith
    rwa [even, if_neg notOver]

/-- What a double is rounded to amounts to the number that is settled on. -/
theorem amount_round (x : Float) : amount (round x) = (amount x).map fun number => settled number := by
  have special : (x.isNaN || x.isInf) = match amount x with | .exact _ => false | _ => true := by
    change (x.toModel.unpack.isNaN || x.toModel.unpack.isInf) = _
    rw [amount_eq]
    cases x.toModel.unpack <;> rfl
  rw [round, special]
  cases known : amount x with
  | undefined | infinite negative => exact known
  | exact number =>
      have grid := (keeps_unpack known).isGrid
      rcases rounds_add known amount_half with ⟨sum, nearest, held⟩
      rw [Amount.held, if_pos (abs_sum_lt grid nearest (abs_lt_of_amount known))] at held
      dsimp only
      rw [if_neg Bool.false_ne_true, amount_floor, held]
      exact congrArg (fun n : ℤ => Amount.exact n) (floor_sum grid nearest)

end NodeQuery.Numeral
