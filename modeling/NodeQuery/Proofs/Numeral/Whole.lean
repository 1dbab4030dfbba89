import NodeQuery.Proofs.Numeral.Arithmetic

/-!
# Whole numbers as doubles

Integers of up to 53 bits are doubles, and rounding another number leads past none of them.  So sums and
differences of such integers are exact as long as they are such integers themselves, and a number below
`2 ^ 53` is told from every other whole number, however large that one is.
-/

namespace NodeQuery.Numeral

open Float.Model
open Float.Model.UnpackedFloat

namespace IsNearest

variable {n place : ℤ} {rounded : ℚ}

/-- Rounding an integer leads past no integer with few bits. -/
theorem intCast_lt_iff (nearest : IsNearest n rounded) (small : |place| < 2 ^ 53) :
    (place : ℚ) < rounded ↔ place < n := by
  rw [abs_lt] at small
  constructor
  · intro less
    by_contra least
    have grid : IsGrid place := isGrid_intCast (by rw [abs_le]; omega)
    exact absurd less (not_lt.mpr (nearest.le grid (by exact_mod_cast not_lt.mp least)))
  · intro less
    have next : IsGrid (place + 1 : ℤ) := isGrid_intCast (by rw [abs_le]; omega)
    have bound := nearest.ge next (by exact_mod_cast less)
    push_cast at bound
    linarith

theorem lt_intCast_iff (nearest : IsNearest n rounded) (small : |place| < 2 ^ 53) :
    rounded < place ↔ n < place := by
  have mirrored := nearest.neg
  rw [← Int.cast_neg] at mirrored
  have few : |-place| < 2 ^ 53 := by rwa [abs_neg]
  have order := mirrored.intCast_lt_iff few
  rwa [Int.cast_neg, neg_lt_neg_iff, neg_lt_neg_iff] at order

theorem eq_intCast_iff (nearest : IsNearest n rounded) (small : |place| < 2 ^ 53) :
    rounded = place ↔ n = place := by
  rw [le_antisymm_iff, ← not_lt, ← not_lt, nearest.intCast_lt_iff small, nearest.lt_intCast_iff small,
    not_lt, not_lt, ← le_antisymm_iff]

end IsNearest

namespace Amount

variable {number value : ℚ}

theorem held_eq_exact_iff (small : |value| < 2 ^ (1024 : ℤ)) : held number = exact value ↔ number = value := by
  rw [held]
  split
  · rw [exact.injEq]
  · rename_i large
    refine iff_of_false (fun impossible => by cases impossible) ?_
    rintro rfl
    exact large small

theorem exact_lt_held_iff (small : |value| < 2 ^ (1024 : ℤ)) : exact value < held number ↔ value < number := by
  rw [held]
  split
  · exact exact_lt_exact
  · -- A number that is too large has the values of all doubles on one side.
    rename_i large
    have beyond := small.trans_le (not_lt.mp large)
    have bounds := abs_lt.mp small
    by_cases negative : number < 0
    · rw [decide_eq_true negative]
      rw [abs_of_neg negative] at beyond large
      exact iff_of_false (fun impossible => by cases impossible) (by linarith)
    · rw [decide_eq_false negative]
      rw [abs_of_nonneg (not_lt.mp negative)] at large
      exact iff_of_true rfl (by linarith)

end Amount

section
variable {n place : ℤ} {x : Float}

theorem abs_intCast_lt (small : |place| < 2 ^ 53) : |(place : ℚ)| < 2 ^ (1024 : ℤ) := by
  have few : |(place : ℚ)| < 2 ^ (53 : ℤ) := by exact_mod_cast small
  exact few.trans_le (zpow_le_zpow_right₀ one_le_two (by omega))

theorem amount_eq_iff_of_rounds (rounds : Rounds n x) (small : |place| < 2 ^ 53) :
    amount x = .exact place ↔ n = place := by
  rcases rounds with ⟨rounded, nearest, held⟩
  rw [held, Amount.held_eq_exact_iff (abs_intCast_lt small), nearest.eq_intCast_iff small]

/-- No integer with few bits lies between an integer and the double nearest to it. -/
theorem lt_amount_iff_of_rounds (rounds : Rounds n x) (small : |place| < 2 ^ 53) :
    Amount.exact place < amount x ↔ place < n := by
  rcases rounds with ⟨rounded, nearest, held⟩
  rw [held, Amount.exact_lt_held_iff (abs_intCast_lt small), nearest.intCast_lt_iff small]

/-- An integer with few bits is rounded to itself. -/
theorem amount_of_rounds (rounds : Rounds n x) (small : |n| < 2 ^ 53) : amount x = .exact n :=
  (amount_eq_iff_of_rounds rounds small).mpr rfl

end

theorem unpackedAmount_of_stores {u : UnpackedFloat} {n : Int} {e : Int} (stores : Stores e u n) :
    unpackedAmount u = .exact (n * 2 ^ e) := by
  cases stores with
  | zero sign => rw [Int.cast_zero, zero_mul]; rfl
  | @finite sign m pos small =>
      have lifted := signed_value_raised sign m (t := e - lift m) (e := e) (by omega)
      have distance : (e - (e - lift m)).toNat = lift m := by omega
      rw [distance, ← signed_value, signed_value sign m] at lifted
      exact congrArg Amount.exact lifted.symm

/-- Whole numbers with few bits are doubles. -/
theorem amount_ofNat {n : Nat} (small : n < 2 ^ 53) : amount (Float.ofNat n) = .exact n := by
  have stores := unpackedAmount_of_stores (unpack_ofScientific small false)
  rw [zpow_zero, mul_one, Int.cast_natCast] at stores
  rw [amount_eq]
  exact stores

theorem amount_ofInt {n : Int} (small : n.natAbs < 2 ^ 53) : amount (Float.ofInt n) = .exact n := by
  cases n with
  | ofNat n => exact amount_ofNat small
  | negSucc n =>
      have negated := amount_neg (Float.ofNat (n + 1))
      rw [amount_ofNat (n := n + 1) small] at negated
      refine negated.trans (congrArg Amount.exact ?_)
      rw [Int.cast_negSucc]

/-- A whole number of any size is made the nearest double. -/
theorem rounds_ofNat (n : Nat) : Rounds (n : ℤ) (Float.ofNat n) := by
  rw [Int.cast_natCast]
  by_cases small : n < 2 ^ 53
  · have grid : IsGrid ((n : ℤ) : ℚ) := isGrid_intCast (by rw [Nat.abs_cast]; omega)
    have fits : |((n : ℤ) : ℚ)| < 2 ^ (1024 : ℤ) := abs_intCast_lt (by rw [Nat.abs_cast]; omega)
    rw [Int.cast_natCast] at grid fits
    refine ⟨n, .of_isGrid grid, ?_⟩
    rw [amount_ofNat small, Amount.held, if_pos fits]
  · have slow : ¬ (n < 2 ^ 53 ∧ 0 ≤ 22) := fun both => small both.1
    rcases ofScientific_nearest n 0 with ⟨rounded, nearest, keeps⟩
    rw [pow_zero, div_one] at nearest
    refine rounds_of_keeps nearest keeps ?_
    change (Float.ofScientific n false 0).toModel = _
    rw [Float.ofScientific, dif_neg slow]
    rfl

theorem rounds_toFloat_whole (n : Nat) : Rounds (n : ℤ) (Decimal.toFloat ⟨n, 0⟩) := by
  have rounds := rounds_toFloat ⟨n, 0⟩
  rwa [pow_zero, div_one, ← Int.cast_natCast] at rounds

/-- Two whole numbers, one of them read from a text, are the same number if they are equal as doubles and
one of them has few bits. -/
theorem ofNat_beq_toFloat {count n : Nat} (small : count < 2 ^ 53 ∨ n < 2 ^ 53) :
    (Float.ofNat count == Decimal.toFloat ⟨n, 0⟩) = true ↔ count = n := by
  have few {m : Nat} (bound : m < 2 ^ 53) : |(m : ℤ)| < 2 ^ 53 := by rw [Nat.abs_cast]; omega
  rw [beq_iff_amount]
  rcases small with known | known
  · rw [amount_of_rounds (rounds_ofNat count) (few known), Amount.compare?_exact_eq_some_eq,
      amount_eq_iff_of_rounds (rounds_toFloat_whole n) (few known), Int.natCast_inj, eq_comm]
  · rw [amount_of_rounds (rounds_toFloat_whole n) (few known), Amount.compare?_eq_some_eq_exact,
      amount_eq_iff_of_rounds (rounds_ofNat count) (few known), Int.natCast_inj]

end NodeQuery.Numeral
