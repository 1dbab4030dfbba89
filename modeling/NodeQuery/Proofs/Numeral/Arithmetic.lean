import NodeQuery.Proofs.Numeral.Nearest

/-!
# Arithmetic to the nearest double

Sums and quotients of doubles, and the doubles that decimals are read as, are the nearest doubles to the
exact results.
-/

namespace NodeQuery.Numeral

open Float.Model
open Float.Model.UnpackedFloat

theorem round_nearest (sign : Sign) {n : Nat} (pos : 0 < n) (e : Int) :
    ∃ rounded, IsNearest (value n e) rounded ∧
      Keeps (UnpackedFloat.round .binary64 sign n e) (signed (sign == .negative) rounded) := by
  generalize target : Format.binary64.targetExponent (totalExponent n e) = t
  generalize distance : (e - t).toNat = d
  have total : totalExponent (n * 2 ^ d) (e - d) = totalExponent n e := by
    rw [totalExponent, totalExponent, log2_mul_two_pow pos]
    omega
  have around : Around (ExtendedMantissa.ofMantissaAndAccuracy (n * 2 ^ d) .exact)
      (n * 2 ^ d : Nat) := rfl
  have below : e - d ≤ Format.binary64.targetExponent (totalExponent (n * 2 ^ d) (e - d)) := by
    rw [total, target]
    omega
  have same : ((n * 2 ^ d : Nat) : ℚ) * 2 ^ (e - d : Int) = value n e := by
    rw [value, zpow_sub₀ two_ne_zero, zpow_natCast]
    push_cast
    field_simp
  rcases roundWithAccuracy_nearest sign around below with ⟨rounded, nearest, keeps⟩
  refine ⟨rounded, same ▸ nearest, ?_⟩
  rw [UnpackedFloat.round, target, decreaseExponent]
  dsimp only
  rw [distance, Nat.shiftLeft_eq]
  exact keeps

theorem normalize_nearest (n e : Int) :
    ∃ rounded, IsNearest (n * 2 ^ e) rounded ∧
      Keeps (UnpackedFloat.normalize .binary64 n e .positive) rounded := by
  rw [UnpackedFloat.normalize]
  rcases Int.lt_trichotomy n 0 with negative | rfl | positive
  · rcases round_nearest .negative (n := (-n).toNat) (by omega) e with ⟨rounded, nearest, keeps⟩
    have size : (((-n).toNat : Nat) : ℚ) = -n := by
      have whole : (((-n).toNat : Nat) : Int) = -n := Int.toNat_of_nonneg (by omega)
      exact_mod_cast whole
    have mirrored := nearest.neg
    rw [value, size, neg_mul, neg_neg] at mirrored
    rw [Int.compare_eq_lt.mpr negative]
    exact ⟨-rounded, mirrored, keeps⟩
  · rw [Int.cast_zero, zero_mul]
    exact ⟨0, .of_isGrid isGrid_zero, .zero .positive⟩
  · rcases round_nearest .positive (n := n.toNat) (by omega) e with ⟨rounded, nearest, keeps⟩
    have size : ((n.toNat : Nat) : ℚ) = n := by
      have whole : ((n.toNat : Nat) : Int) = n := Int.toNat_of_nonneg (by omega)
      exact_mod_cast whole
    rw [value, size] at nearest
    rw [Int.compare_eq_gt.mpr positive]
    exact ⟨rounded, nearest, keeps⟩

theorem isGrid_value {m : Nat} {e : Int} (canonical : IsCanonical m e) : IsGrid (value m e) := by
  have small : m < 2 ^ 53 := (Nat.log2_lt (Nat.ne_of_gt canonical.pos)).mp
    (Nat.lt_succ_of_le canonical.bound)
  refine ⟨m, e, ?_, canonical.low, rfl⟩
  rw [Nat.abs_cast]
  omega

theorem Keeps.isGrid {u : UnpackedFloat} {number : ℚ} (keeps : Keeps u number) : IsGrid number := by
  cases keeps with
  | zero sign => exact isGrid_zero
  | finite sign canonical =>
      cases sign
      · exact (isGrid_value canonical).neg
      · exact isGrid_value canonical

theorem signed_value (sign : Sign) (m : Nat) (e : Int) :
    signed (sign == .negative) (value m e) = (sign.apply (m : Int) : Int) * (2 : ℚ) ^ e := by
  cases sign
  · change -(m * 2 ^ e : ℚ) = (-(m : Int) : Int) * (2 : ℚ) ^ e
    rw [Int.cast_neg, Int.cast_natCast, neg_mul]
  · rfl

/-- Over a lower exponent the number is the same. -/
theorem signed_value_raised (sign : Sign) (m : Nat) {t e : Int} (le : t ≤ e) :
    signed (sign == .negative) (value m e) =
      (sign.apply ((m * 2 ^ (e - t).toNat : Nat) : Int) : Int) * (2 : ℚ) ^ t := by
  rw [value_raised m le]
  exact signed_value sign _ t

theorem add_nearest {u v : UnpackedFloat} {a b : ℚ} (left : Keeps u a) (right : Keeps v b) :
    ∃ rounded, IsNearest (a + b) rounded ∧ Keeps (UnpackedFloat.add .binary64 u v) rounded := by
  have leftGrid := left.isGrid
  have rightGrid := right.isGrid
  cases left with
  | zero sign =>
      rw [zero_add]
      refine ⟨b, .of_isGrid rightGrid, ?_⟩
      cases right with
      | zero other => cases sign <;> cases other <;> exact .zero _
      | finite other canonical => exact .finite other canonical
  | @finite sign m e canonical =>
      cases right with
      | zero other =>
          rw [add_zero]
          exact ⟨_, .of_isGrid leftGrid, .finite sign canonical⟩
      | @finite other m' e' canonical' =>
          rw [signed_value_raised sign m (Int.min_le_left e e'),
            signed_value_raised other m' (Int.min_le_right e e'), ← add_mul, ← Int.cast_add]
          simp only [UnpackedFloat.add, decreaseExponent, Nat.shiftLeft_eq]
          exact normalize_nearest _ _

theorem keeps_unpack {x : Float} {number : ℚ} (known : amount x = .exact number) :
    Keeps x.toModel.unpack number := by
  rw [amount_eq] at known
  have normal := isNormal_unpack x
  generalize x.toModel.unpack = u at known normal
  cases normal with
  | infinity sign => cases known
  | notANumber => cases known
  | zero sign =>
      cases known
      exact .zero sign
  | finite sign canonical =>
      cases known
      exact .finite sign canonical

theorem rounds_of_keeps {x : Float} {u : UnpackedFloat} {number rounded : ℚ}
    (nearest : IsNearest number rounded) (keeps : Keeps u rounded)
    (made : x.toModel = Float.Model.pack u) : Rounds number x := by
  refine ⟨rounded, nearest, ?_⟩
  rw [amount_eq, made]
  exact keeps.amount_pack

/-- A sum of doubles is the nearest double to the sum of what they amount to. -/
theorem rounds_add {x y : Float} {a b : ℚ} (left : amount x = .exact a) (right : amount y = .exact b) :
    Rounds (a + b) (x + y) := by
  rcases add_nearest (keeps_unpack left) (keeps_unpack right) with ⟨rounded, nearest, keeps⟩
  exact rounds_of_keeps nearest keeps rfl

/-- The sum of two amounts; what is infinite in both directions is undefined. -/
def Amount.add : Amount → Amount → Amount
  | undefined, _ | _, undefined => undefined
  | infinite first, infinite second => if first = second then infinite first else undefined
  | infinite negative, exact _ | exact _, infinite negative => infinite negative
  | exact first, exact second => exact (first + second)

/-- A sum with something that is not a number is not rounded. -/
theorem amount_add_special {x y : Float}
    (special : ∀ a b, ¬ (amount x = .exact a ∧ amount y = .exact b)) :
    amount (x + y) = (amount x).add (amount y) := by
  have made : amount (x + y) = unpackedAmount (Float.Model.pack
      (UnpackedFloat.add .binary64 x.toModel.unpack y.toModel.unpack)).unpack := amount_eq _
  rw [made]
  rw [amount_eq, amount_eq] at special ⊢
  generalize x.toModel.unpack = u at special ⊢
  generalize y.toModel.unpack = v at special ⊢
  have infinite (sign : Sign) (sum : UnpackedFloat.add .binary64 u v = .infinity sign) :
      unpackedAmount (Float.Model.pack (UnpackedFloat.add .binary64 u v)).unpack =
        .infinite (sign == .negative) := by
    rw [sum]
    cases sign <;> rfl
  have undefined_ (sum : UnpackedFloat.add .binary64 u v = .notANumber) :
      unpackedAmount (Float.Model.pack (UnpackedFloat.add .binary64 u v)).unpack = .undefined := by
    rw [sum]
    rfl
  cases u with
  | notANumber => exact undefined_ rfl
  | infinity sign =>
      cases v with
      | notANumber => exact undefined_ rfl
      | infinity other =>
          cases sign <;> cases other
          · exact infinite .negative rfl
          · exact undefined_ rfl
          · exact undefined_ rfl
          · exact infinite .positive rfl
      | zero | finite => exact infinite sign rfl
  | zero | finite =>
      cases v with
      | notANumber => exact undefined_ rfl
      | infinity other => exact infinite other rfl
      | zero | finite => exact absurd ⟨rfl, rfl⟩ (special _ _)

/-- The negative of a double is taken out of its word as such. -/
theorem unpack_neg (x : Float) : (-x).toModel.unpack = x.toModel.unpack.neg := by
  change (Float.Model.pack x.toModel.unpack.neg).unpack = _
  cases shown : x.toModel.unpack with
  | infinity sign => cases sign <;> rfl
  | notANumber => rfl
  | zero sign => cases sign <;> rfl
  | finite sign m e pos =>
      rcases isCanonical_unpack shown with ⟨canonical, high⟩
      exact unpack_pack_finite (-sign) canonical high

def Amount.neg : Amount → Amount
  | undefined => undefined
  | infinite negative => infinite (!negative)
  | exact number => exact (-number)

theorem amount_neg (x : Float) : amount (-x) = (amount x).neg := by
  rw [amount_eq, amount_eq, unpack_neg]
  cases x.toModel.unpack with
  | infinity sign => cases sign <;> rfl
  | notANumber => rfl
  | zero sign => exact congrArg Amount.exact neg_zero.symm
  | finite sign m e pos =>
      cases sign
      · exact congrArg Amount.exact (neg_neg _).symm
      · rfl

theorem held_neg (number : ℚ) : Amount.held (-number) = (Amount.held number).neg := by
  rw [Amount.held, Amount.held, abs_neg]
  split
  · rfl
  · rename_i large
    have filled : number ≠ 0 := by
      rintro rfl
      rw [abs_zero] at large
      exact large (by positivity)
    have flipped : decide (-number < 0) = !decide (number < 0) := by
      rw [← decide_not, decide_eq_decide, neg_neg_iff_pos, not_lt]
      exact ⟨le_of_lt, fun least => lt_of_le_of_ne least filled.symm⟩
    rw [flipped]
    rfl

theorem Rounds.neg {number : ℚ} {x : Float} (rounds : Rounds number x) : Rounds (-number) (-x) := by
  rcases rounds with ⟨rounded, nearest, held⟩
  exact ⟨-rounded, nearest.neg, by rw [amount_neg, held, held_neg]⟩

theorem apply_neg (sign : Sign) (n : Int) : (-sign).apply n = -sign.apply n := by
  cases sign
  · change n = - -n
    omega
  · rfl

theorem sub_eq_add (u v : UnpackedFloat) :
    UnpackedFloat.sub .binary64 u v = UnpackedFloat.add .binary64 u v.neg := by
  cases u <;> cases v <;>
    simp only [UnpackedFloat.sub, UnpackedFloat.add, UnpackedFloat.neg, apply_neg, Int.sub_eq_add_neg]

/-- A difference of doubles is the nearest double to the difference of what they amount to. -/
theorem rounds_sub {x y : Float} {a b : ℚ} (left : amount x = .exact a) (right : amount y = .exact b) :
    Rounds (a - b) (x - y) := by
  have negated : amount (-y) = .exact (-b) := by rw [amount_neg, right]; rfl
  rcases add_nearest (keeps_unpack left) (keeps_unpack negated) with ⟨rounded, nearest, keeps⟩
  rw [← sub_eq_add_neg] at nearest
  rw [unpack_neg, ← sub_eq_add] at keeps
  exact rounds_of_keeps nearest keeps rfl

/-- A double that a number is rounded to is not undefined. -/
theorem Rounds.isNaN {number : ℚ} {x : Float} (rounds : Rounds number x) : x.isNaN = false := by
  rcases rounds with ⟨rounded, _, held⟩
  rw [amount_eq] at held
  change x.toModel.unpack.isNaN = false
  cases shown : x.toModel.unpack with
  | notANumber =>
      rw [shown, Amount.held] at held
      split at held <;> cases held
  | infinity | zero | finite => rfl

theorem around_accuracyOfFraction (n : Nat) {d : Nat} (pos : 0 < d) :
    Around (ExtendedMantissa.ofMantissaAndAccuracy (n / d) (accuracyOfFraction (n % d) d))
      (n / d : ℚ) := by
  have filled : (0 : ℚ) < d := by exact_mod_cast pos
  have whole : (n / d : ℚ) = (n / d : Nat) + (n % d : Nat) / d := by
    rw [div_eq_iff filled.ne', add_mul, div_mul_cancel₀ _ filled.ne']
    exact_mod_cast (Nat.div_add_mod' n d).symm
  have less := Nat.mod_lt n pos
  rw [whole]
  generalize n / d = quotient
  generalize n % d = rest at less
  have below : (rest : ℚ) / d < 1 := by
    rw [div_lt_one filled]
    exact_mod_cast less
  rw [accuracyOfFraction]
  by_cases none : rest = 0
  · rw [if_pos none, none, Nat.cast_zero, zero_div, add_zero]
    rfl
  · have some : (0 : ℚ) < rest / d := div_pos (by exact_mod_cast Nat.pos_of_ne_zero none) filled
    rw [if_neg none]
    rcases Nat.lt_trichotomy (2 * rest) d with lower | half | upper
    · have first : (rest : ℚ) / d < 1 / 2 := by
        rw [div_lt_div_iff₀ filled two_pos]
        exact_mod_cast (by omega : rest * 2 < 1 * d)
      rw [Nat.compare_eq_lt.mpr lower]
      change (quotient : ℚ) < quotient + rest / d ∧ (quotient : ℚ) + rest / d < quotient + 1 / 2
      exact ⟨by linarith, by linarith⟩
    · have middle : (rest : ℚ) / d = 1 / 2 := by
        rw [div_eq_div_iff filled.ne' two_ne_zero]
        exact_mod_cast (by omega : rest * 2 = 1 * d)
      rw [Nat.compare_eq_eq.mpr half, middle]
      rfl
    · have second : 1 / 2 < (rest : ℚ) / d := by
        rw [div_lt_div_iff₀ two_pos filled]
        exact_mod_cast (by omega : 1 * d < rest * 2)
      rw [Nat.compare_eq_gt.mpr upper]
      change (quotient : ℚ) + 1 / 2 < quotient + rest / d ∧ (quotient : ℚ) + rest / d < quotient + 1
      exact ⟨by linarith, by linarith⟩

/-- A quotient has all its bits at least, or is over the least exponent. -/
theorem divCore_below {a b : Nat} (apos : 0 < a) (bpos : 0 < b) {ea eb t : Int}
    (least : t = min (ea - eb)
      (Format.binary64.targetExponent (totalExponent a ea - totalExponent b eb))) :
    t ≤ Format.binary64.targetExponent
      (totalExponent (a * 2 ^ (ea - eb - t).toNat / b) t) := by
  have minimum : Format.binary64.minExponent = -1074 := rfl
  have bits : Format.binary64.mantissaBits = 53 := rfl
  rw [Format.targetExponent, totalExponent, totalExponent, minimum, bits] at least
  rw [Format.targetExponent, totalExponent, minimum, bits]
  by_cases low : t ≤ -1074
  · omega
  · have size : 52 ≤ (a * 2 ^ (ea - eb - t).toNat / b).log2 := by
      have steps : b.log2 + 1 + 52 ≤ a.log2 + (ea - eb - t).toNat := by omega
      have large : 2 ^ 52 * b ≤ a * 2 ^ (ea - eb - t).toNat := by
        calc 2 ^ 52 * b
          _ ≤ 2 ^ 52 * 2 ^ (b.log2 + 1) := Nat.mul_le_mul_left _ (Nat.le_of_lt Nat.lt_log2_self)
          _ = 2 ^ (b.log2 + 1 + 52) := by rw [← Nat.pow_add, Nat.add_comm]
          _ ≤ 2 ^ (a.log2 + (ea - eb - t).toNat) := Nat.pow_le_pow_right Nat.two_pos steps
          _ = 2 ^ a.log2 * 2 ^ (ea - eb - t).toNat := Nat.pow_add _ _ _
          _ ≤ a * 2 ^ (ea - eb - t).toNat :=
            Nat.mul_le_mul_right _ (Nat.log2_self_le (Nat.ne_of_gt apos))
      have atLeast : 2 ^ 52 ≤ a * 2 ^ (ea - eb - t).toNat / b :=
        (Nat.le_div_iff_mul_le bpos).mpr large
      exact (Nat.le_log2 (by omega)).mpr atLeast
    omega

/-- A quotient of numbers is rounded to the nearest number. -/
theorem div_nearest (sign other : Sign) {a b : Nat} (apos : 0 < a) (bpos : 0 < b) (ea eb : Int) :
    ∃ rounded, IsNearest (value a ea / value b eb) rounded ∧
      Keeps (UnpackedFloat.div .binary64 (.finite sign a ea apos) (.finite other b eb bpos))
        (signed (sign / other == .negative) rounded) := by
  generalize least : min (ea - eb)
    (Format.binary64.targetExponent (totalExponent a ea - totalExponent b eb)) = t
  have below := divCore_below apos bpos least.symm
  have start : t ≤ ea - eb := least ▸ Int.min_le_left _ _
  have around := around_accuracyOfFraction (a * 2 ^ (ea - eb - t).toNat) bpos
  have same : ((a * 2 ^ (ea - eb - t).toNat : Nat) / b : ℚ) * 2 ^ t = value a ea / value b eb := by
    have exponent : ea - eb - t = ea - (t + eb) := by omega
    have filled : (b : ℚ) ≠ 0 := by exact_mod_cast Nat.ne_of_gt bpos
    rw [exponent, value_raised a (by omega : t + eb ≤ ea), value, zpow_add₀ two_ne_zero]
    field_simp
  rcases roundWithAccuracy_nearest (sign / other) around below with ⟨rounded, nearest, keeps⟩
  refine ⟨rounded, same ▸ nearest, ?_⟩
  simp only [UnpackedFloat.div, divCore, least, Nat.shiftLeft_eq]
  exact keeps

/-- A number far below the least double is rounded to zero. -/
theorem isNearest_zero {number : ℚ} (nonneg : 0 ≤ number) (tiny : number < 2 ^ (-1075 : ℤ)) :
    IsNearest number 0 := by
  have far {other : ℚ} (grid : IsGrid other) (filled : other ≠ 0) :
      |number - 0| < |number - other| := by
    rcases grid with ⟨n, e, _, low, rfl⟩
    have some : (1 : ℚ) ≤ |(n : ℚ)| := by
      have whole : 1 ≤ |n| := Int.one_le_abs fun none => filled (by rw [none, Int.cast_zero, zero_mul])
      exact_mod_cast whole
    have least : (2 : ℚ) ^ (-1074 : ℤ) ≤ |(n : ℚ) * 2 ^ e| := by
      have unit : (2 : ℚ) ^ (-1074 : ℤ) ≤ 2 ^ e := zpow_le_zpow_right₀ one_le_two low
      rw [abs_mul, abs_of_pos (by positivity : (0 : ℚ) < 2 ^ e)]
      exact unit.trans (le_mul_of_one_le_left (by positivity) some)
    have halves : (2 : ℚ) ^ (-1074 : ℤ) = 2 ^ (-1075 : ℤ) + 2 ^ (-1075 : ℤ) := by
      rw [← two_mul, ← zpow_one_add₀ two_ne_zero]
      rfl
    have triangle : |(n : ℚ) * 2 ^ e| ≤ |number| + |number - n * 2 ^ e| := by
      have apart := abs_sub_abs_le_abs_sub ((n : ℚ) * 2 ^ e) number
      rw [abs_sub_comm] at apart
      linarith
    rw [sub_zero]
    rw [abs_of_nonneg nonneg] at triangle ⊢
    linarith
  refine ⟨isGrid_zero, fun other grid => ?_, fun other grid same apart => ?_⟩
  · by_cases filled : other = 0
    · rw [filled]
    · exact (far grid filled).le
  · exact absurd same (far grid apart).ne

/-- With more places than digits a decimal is far below the least double. -/
theorem decimal_tiny {digits places : Nat} (more : 2048 + digits.log2 < places) :
    (digits : ℚ) / 10 ^ places < 2 ^ (-1075 : ℤ) := by
  have ten : (2 : ℚ) ^ (digits.log2 + 1 + 1075) ≤ 10 ^ places := by
    calc (2 : ℚ) ^ (digits.log2 + 1 + 1075)
      _ ≤ 2 ^ places := pow_le_pow_right₀ one_le_two (by omega)
      _ ≤ 10 ^ places := pow_le_pow_left₀ (by norm_num) (by norm_num) _
  have few : (digits : ℚ) < 2 ^ (digits.log2 + 1) := by exact_mod_cast Nat.lt_log2_self
  rw [zpow_neg, ← one_div, div_lt_div_iff₀ (by positivity) (by positivity), one_mul]
  have large : (2 : ℚ) ^ (digits.log2 + 1 + 1075) = 2 ^ (digits.log2 + 1) * 2 ^ (1075 : ℤ) := by
    rw [pow_add, ← zpow_natCast 2 1075, Nat.cast_ofNat]
  exact (mul_lt_mul_of_pos_right few (by positivity)).trans_le (large ▸ ten)

/-- An integer is rounded to the nearest number, shifted first so that all its bits are left of the
point. -/
theorem shifted_nearest {digits : Nat} (pos : 0 < digits) :
    ∃ rounded, IsNearest digits rounded ∧
      Keeps (roundWithAccuracy .binary64 .positive (digits * 2 ^ 53) (-53) .exact) rounded := by
  have bits : Format.binary64.mantissaBits = 53 := rfl
  have minimum : Format.binary64.minExponent = -1074 := rfl
  have around : Around (ExtendedMantissa.ofMantissaAndAccuracy (digits * 2 ^ 53) .exact)
      (digits * 2 ^ 53 : Nat) := rfl
  have below : -53 ≤ Format.binary64.targetExponent (totalExponent (digits * 2 ^ 53) (-53)) := by
    rw [Format.targetExponent, totalExponent, log2_mul_two_pow pos, minimum, bits]
    omega
  have same : ((digits * 2 ^ 53 : Nat) : ℚ) * 2 ^ (-53 : Int) = digits := by
    rw [zpow_neg]
    push_cast
    rw [mul_assoc]
    norm_num
  rcases roundWithAccuracy_nearest .positive around below with ⟨rounded, nearest, keeps⟩
  exact ⟨rounded, same ▸ nearest, keeps⟩

/-- A decimal is rounded to the nearest number also when the power of ten is computed. -/
theorem ofScientific_nearest (digits places : Nat) :
    ∃ rounded, IsNearest (digits / 10 ^ places) rounded ∧
      Keeps (UnpackedFloat.ofScientific .binary64 digits (Int.negOfNat places)) rounded := by
  have exponent : Int.negOfNat places = -(places : Int) := Int.negOfNat_eq
  rw [UnpackedFloat.ofScientific]
  by_cases none : digits = 0
  · rw [dif_pos none, none, Nat.cast_zero, zero_div]
    exact ⟨0, .of_isGrid isGrid_zero, .zero .positive⟩
  have pos : 0 < digits := Nat.pos_of_ne_zero none
  have notAbove : ¬ Int.negOfNat places > 2 ^ Format.binary64.exponentBits := by
    change ¬ (2 : Int) ^ 11 < Int.negOfNat places
    omega
  rw [dif_neg none, if_neg notAbove]
  have limit : (2 : Int) ^ Format.binary64.exponentBits = 2048 := rfl
  rw [limit]
  by_cases tiny : Int.negOfNat places < -(2048 + (digits.log2 : Int))
  · rw [if_pos tiny]
    exact ⟨0, isNearest_zero (by positivity) (decimal_tiny (by omega)), .zero .positive⟩
  rw [if_neg tiny]
  rcases Nat.eq_zero_or_pos places with rfl | fraction
  · have whole : Int.negOfNat 0 = 0 := rfl
    have shifted : digits <<< Format.binary64.mantissaBits * 10 ^ (0 : Int).toNat = digits * 2 ^ 53 := by
      rw [Nat.shiftLeft_eq]
      exact Nat.mul_one _
    rw [whole, if_pos (Int.le_refl 0), pow_zero, div_one]
    simp only [UnpackedFloat.mul, shifted]
    exact shifted_nearest pos
  · have steps : (-Int.negOfNat places).toNat = places := by omega
    rw [if_neg (by omega)]
    simp only [steps]
    rcases div_nearest .positive .positive pos (Nat.pow_pos (n := places) (Nat.succ_pos 9)) 0 0 with
      ⟨rounded, nearest, keeps⟩
    have same : value digits 0 / value (10 ^ places) 0 = digits / 10 ^ places := by
      rw [value, value, zpow_zero, mul_one, mul_one]
      push_cast
      rfl
    exact ⟨rounded, same ▸ nearest, keeps⟩

/-- The double of a decimal is the nearest one. -/
theorem rounds_toFloat (decimal : Decimal) :
    Rounds (decimal.digits / 10 ^ decimal.places) decimal.toFloat := by
  rcases decimal with ⟨digits, places⟩
  rw [Decimal.toFloat, Float.ofScientific]
  by_cases fast : digits < 2 ^ 53 ∧ places ≤ 22
  · have inside : places < Float.exactlyRepresentablePowersOfTen.size := Nat.lt_succ_of_le fast.2
    rcases unpack_powerOfTen inside with ⟨b, eb, bpos, shownPower, power⟩
    rw [dif_pos fast]
    rcases Nat.eq_zero_or_pos digits with rfl | filled
    · have none : (0 : Nat).toUInt64.toFloat.toModel.unpack = .zero .positive := rfl
      refine rounds_of_keeps ?_ (Keeps.zero .positive) ?_
      · rw [Nat.cast_zero, zero_div]
        exact .of_isGrid isGrid_zero
      · change Float.Model.pack (UnpackedFloat.div .binary64 _
          Float.exactlyRepresentablePowersOfTen[places].toModel.unpack) = _
        rw [none, shownPower]
        rfl
    · rcases unpack_whole filled fast.1 with ⟨a, ea, apos, shown, whole⟩
      rcases div_nearest .positive .positive apos bpos ea eb with ⟨rounded, nearest, keeps⟩
      rw [whole, power] at nearest
      refine rounds_of_keeps nearest keeps ?_
      rw [← shown, ← shownPower]
      rfl
  · rcases ofScientific_nearest digits places with ⟨rounded, nearest, keeps⟩
    rw [dif_neg fast]
    exact rounds_of_keeps nearest keeps rfl

end NodeQuery.Numeral
