import NodeQuery.Proofs.Numeral.Shortest

/-!
# What doubles amount to

A double amounts to a rational number, or it is infinite or undefined.  Doubles are compared as their
amounts are, and a double that is put into a word and taken out again amounts to the same, unless it is
too large for that.
-/

namespace NodeQuery.Numeral

open Float.Model
open Float.Model.UnpackedFloat

/-- What a double amounts to. -/
inductive Amount where
  | undefined
  | infinite (negative : Bool)
  | exact (value : ℚ)
deriving DecidableEq

namespace Amount

/-- How two amounts compare; what is undefined does not compare with anything. -/
def compare? : Amount → Amount → Option Ordering
  | undefined, _ | _, undefined => none
  | infinite first, infinite second => some (compare second first)
  | infinite first, exact _ => some (if first then .lt else .gt)
  | exact _, infinite second => some (if second then .gt else .lt)
  | exact first, exact second => some (compare first second)

instance : LE Amount := ⟨fun first second => (first.compare? second).any (·.isLE) = true⟩

instance : LT Amount := ⟨fun first second => first.compare? second = some .lt⟩

instance (first second : Amount) : Decidable (first ≤ second) :=
  inferInstanceAs (Decidable ((first.compare? second).any (·.isLE) = true))

instance (first second : Amount) : Decidable (first < second) :=
  inferInstanceAs (Decidable (first.compare? second = some .lt))

theorem exact_lt_exact {first second : ℚ} : exact first < exact second ↔ first < second := by
  change some (compare first second) = some .lt ↔ _
  rw [Option.some_inj, compare_lt_iff_lt]

theorem compare?_exact_eq_some_eq {number : ℚ} {other : Amount} :
    (exact number).compare? other = some .eq ↔ other = exact number := by
  cases other with
  | undefined => simp [compare?]
  | infinite negative => cases negative <;> simp [compare?]
  | exact value => rw [compare?, Option.some_inj, compare_eq_iff_eq, exact.injEq, eq_comm]

theorem compare?_eq_some_eq_exact {number : ℚ} {other : Amount} :
    other.compare? (exact number) = some .eq ↔ other = exact number := by
  cases other with
  | undefined => simp [compare?]
  | infinite negative => cases negative <;> simp [compare?]
  | exact value => rw [compare?, Option.some_inj, compare_eq_iff_eq, exact.injEq]

theorem exact_le_exact {first second : ℚ} : exact first ≤ exact second ↔ first ≤ second := by
  change (compare first second).isLE = true ↔ _
  rw [Ordering.isLE_iff_ne_gt, compare_gt_iff_gt, not_lt]

end Amount

def signed (negative : Bool) (number : ℚ) : ℚ := if negative then -number else number

namespace Parts

def amount : Parts → Amount
  | undefined => .undefined
  | infinite negative => .infinite negative
  | finite negative mantissa exponent => .exact (signed negative (value mantissa exponent))

end Parts

def amount (x : Float) : Amount := (Parts.ofFloat x).amount

def unpackedAmount : UnpackedFloat → Amount
  | .infinity sign => .infinite (sign == .negative)
  | .notANumber => .undefined
  | .zero _ => .exact 0
  | .finite sign mantissa exponent _ => .exact (signed (sign == .negative) (value mantissa exponent))

theorem signed_zero (negative : Bool) : signed negative 0 = 0 := by
  cases negative
  · rfl
  · exact neg_zero

theorem value_zero (e : Int) : value 0 e = 0 := by rw [value, Nat.cast_zero, zero_mul]

theorem value_pos {m : Nat} (pos : 0 < m) (e : Int) : 0 < value m e := by
  rw [value]
  positivity

theorem amount_eq (x : Float) : amount x = unpackedAmount x.toModel.unpack := by
  rw [amount, parts_ofFloat]
  cases x.toModel.unpack with
  | infinity sign => rfl
  | notANumber => rfl
  | zero sign =>
      change Amount.exact (signed _ (value 0 _)) = .exact 0
      rw [value_zero, signed_zero]
  | finite sign m e pos => rfl

/-- An unpacked double whose mantissa and exponent are as doubles keep them, but for an exponent that may
be too large. -/
inductive IsNormal : UnpackedFloat → Prop
  | infinity (sign : Sign) : IsNormal (.infinity sign)
  | notANumber : IsNormal .notANumber
  | zero (sign : Sign) : IsNormal (.zero sign)
  | finite (sign : Sign) {m : Nat} {e : Int} (canonical : IsCanonical m e) :
      IsNormal (.finite sign m e canonical.pos)

theorem isCanonical_of_signed_parts {x : Float} {negative : Bool} {m : Nat} {e : Int}
    (parts : Parts.ofFloat x = .finite negative m e) (filled : 0 < m) :
    IsCanonical m e ∧ e ≤ 971 := by
  generalize bits : x.toBits.toNat = b
  rw [Parts.ofFloat, bits] at parts
  simp only [Nat.pow_eq] at parts
  split at parts
  · split at parts <;> cases parts
  · rename_i notTop
    rw [beq_iff_eq] at notTop
    split at parts
    · injection parts with _ mantissa exponent
      have low : e = -1074 := exponent.symm
      have few : m.log2 < 52 := (Nat.log2_lt (Nat.ne_of_gt filled)).mpr (by omega)
      exact ⟨⟨filled, Nat.le_of_lt few, by omega, .inr low⟩, by omega⟩
    · rename_i notBottom
      rw [beq_iff_eq] at notBottom
      injection parts with _ mantissa exponent
      have full : m.log2 = 52 := (Nat.log2_eq_iff (by omega)).mpr ⟨by omega, by omega⟩
      exact ⟨isCanonical_of_full full filled (by omega), by omega⟩

theorem isCanonical_unpack {x : Float} {sign : Sign} {m : Nat} {e : Int} {pos : 0 < m}
    (shown : x.toModel.unpack = .finite sign m e pos) : IsCanonical m e ∧ e ≤ 971 := by
  have parts := parts_ofFloat x
  rw [shown] at parts
  exact isCanonical_of_signed_parts parts pos

theorem isNormal_unpack (x : Float) : IsNormal x.toModel.unpack := by
  cases shown : x.toModel.unpack with
  | infinity sign => exact .infinity sign
  | notANumber => exact .notANumber
  | zero sign => exact .zero sign
  | finite sign m e pos => exact .finite sign (isCanonical_unpack shown).1

theorem value_lt_of_exponent {m : Nat} {e : Int} (canonical : IsCanonical m e) :
    value m e < 2 ^ (53 + e : Int) := by
  refine (value_lt_two_pow_log2 m e).trans_le (zpow_le_zpow_right₀ one_le_two ?_)
  have bound := canonical.bound
  omega

/-- An exponent above the least one means a mantissa that has all its bits. -/
theorem le_value_of_exponent {m : Nat} {e : Int} (canonical : IsCanonical m e) (above : -1074 < e) :
    (2 : ℚ) ^ (52 + e : Int) ≤ value m e := by
  have full : m.log2 = 52 := canonical.full.resolve_right (by omega)
  have least := two_pow_log2_le_value canonical.pos e
  rwa [full] at least

/-- Whether the exponent is in range can be told from the amount. -/
theorem exponent_le_iff {m : Nat} {e : Int} (canonical : IsCanonical m e) :
    e ≤ 971 ↔ value m e < 2 ^ (1024 : Int) := by
  constructor
  · intro high
    exact (value_lt_of_exponent canonical).trans_le (zpow_le_zpow_right₀ one_le_two (by omega))
  · intro small
    by_contra above
    have large := le_value_of_exponent canonical (by omega)
    have apart := (zpow_lt_zpow_iff_right₀ one_lt_two).mp (large.trans_lt small)
    omega

theorem abs_signed (negative : Bool) (number : ℚ) : |signed negative number| = |number| := by
  cases negative
  · rfl
  · exact abs_neg number

/-- What a double amounts to that is to hold a number: the number is too large from `2 ^ 1024` on. -/
def Amount.held (number : ℚ) : Amount :=
  if |number| < 2 ^ (1024 : Int) then .exact number else .infinite (decide (number < 0))

theorem unpackedAmount_pack_finite (sign : Sign) {m : Nat} {e : Int} (canonical : IsCanonical m e) :
    unpackedAmount (Float.Model.pack (.finite sign m e canonical.pos)).unpack =
      .held (signed (sign == .negative) (value m e)) := by
  have filled := value_pos canonical.pos e
  rw [Amount.held, abs_signed, abs_of_pos filled]
  by_cases high : e ≤ 971
  · have kept : (Float.Model.pack (.finite sign m e canonical.pos)).unpack =
        .finite sign m e canonical.pos := unpack_pack_finite sign canonical high
    rw [kept, if_pos ((exponent_le_iff canonical).mp high)]
    rfl
  · have overflows : (Float.Model.pack (.finite sign m e canonical.pos)).unpack = .infinity sign :=
      unpack_pack_high sign canonical.pos (by omega)
    rw [overflows, if_neg (mt (exponent_le_iff canonical).mpr high), unpackedAmount]
    cases sign with
    | negative =>
        have below : signed true (value m e) < 0 := neg_neg_of_pos filled
        exact congrArg Amount.infinite (decide_eq_true below).symm
    | positive =>
        have above : ¬ signed false (value m e) < 0 := not_lt_of_gt filled
        exact congrArg Amount.infinite (decide_eq_false above).symm

theorem value_lt_value_of_exponent {m m' : Nat} {e e' : Int} (canonical : IsCanonical m e)
    (canonical' : IsCanonical m' e') (lower : e < e') : value m e < value m' e' := by
  have low := canonical.low
  have large := le_value_of_exponent canonical' (by omega)
  exact (value_lt_of_exponent canonical).trans_le
    ((zpow_le_zpow_right₀ one_le_two (by omega)).trans large)

/-- Mantissas and exponents as doubles keep them are in the order of the numbers. -/
theorem compare_value {m m' : Nat} {e e' : Int} (canonical : IsCanonical m e)
    (canonical' : IsCanonical m' e') :
    (compare e e').then (compare m m') = compare (value m e) (value m' e') := by
  rcases lt_trichotomy e e' with lower | rfl | higher
  · rw [compare_lt_iff_lt.mpr lower,
      compare_lt_iff_lt.mpr (value_lt_value_of_exponent canonical canonical' lower)]
    rfl
  · have unit : (0 : ℚ) < 2 ^ e := by positivity
    have less {a b : Nat} (below : a < b) : value a e < value b e :=
      mul_lt_mul_of_pos_right (by exact_mod_cast below) unit
    rw [compare_eq_iff_eq.mpr (rfl : e = e), Ordering.eq_then]
    rcases lt_trichotomy m m' with below | rfl | above
    · rw [compare_lt_iff_lt.mpr below, compare_lt_iff_lt.mpr (less below)]
    · rw [compare_eq_iff_eq.mpr rfl, compare_eq_iff_eq.mpr rfl]
    · rw [compare_gt_iff_gt.mpr above, compare_gt_iff_gt.mpr (less above)]
  · rw [compare_gt_iff_gt.mpr higher,
      compare_gt_iff_gt.mpr (value_lt_value_of_exponent canonical' canonical higher)]
    rfl

theorem compare_neg_neg (number other : ℚ) : compare (-number) (-other) = (compare number other).swap := by
  rcases lt_trichotomy number other with less | rfl | greater
  · rw [compare_lt_iff_lt.mpr less, compare_gt_iff_gt.mpr (neg_lt_neg less)]
    rfl
  · rw [compare_eq_iff_eq.mpr rfl, compare_eq_iff_eq.mpr rfl]
    rfl
  · rw [compare_gt_iff_gt.mpr greater, compare_lt_iff_lt.mpr (neg_lt_neg greater)]
    rfl

theorem compare_unpacked {u v : UnpackedFloat} (left : IsNormal u) (right : IsNormal v) :
    u.compare v = (unpackedAmount u).compare? (unpackedAmount v) := by
  have below {number other : ℚ} (less : number < other) : some (compare number other) = some .lt :=
    congrArg some (compare_lt_iff_lt.mpr less)
  have above {number other : ℚ} (greater : other < number) : some (compare number other) = some .gt :=
    congrArg some (compare_gt_iff_gt.mpr greater)
  cases left with
  | infinity sign =>
      cases right with
      | infinity other => cases sign <;> cases other <;> rfl
      | notANumber => rfl
      | zero other => cases sign <;> rfl
      | finite other canonical' => cases sign <;> rfl
  | notANumber => rfl
  | zero sign =>
      cases right with
      | infinity other => cases other <;> rfl
      | notANumber => rfl
      | zero other => exact congrArg some (compare_eq_iff_eq.mpr rfl).symm
      | @finite other m' e' canonical' =>
          have filled := value_pos canonical'.pos e'
          cases other
          · exact (above (neg_neg_of_pos filled)).symm
          · exact (below filled).symm
  | @finite sign m e canonical =>
      have filled := value_pos canonical.pos e
      cases right with
      | infinity other => cases sign <;> cases other <;> rfl
      | notANumber => cases sign <;> rfl
      | zero other =>
          cases sign
          · exact (below (neg_neg_of_pos filled)).symm
          · exact (above filled).symm
      | @finite other m' e' canonical' =>
          have filled' := value_pos canonical'.pos e'
          have order := compare_value canonical canonical'
          cases sign <;> cases other
          · change some ((compare e e').then (compare m m')).swap =
              some (compare (-value m e) (-value m' e'))
            rw [order, compare_neg_neg]
          · exact (below ((neg_neg_of_pos filled).trans filled')).symm
          · exact (above ((neg_neg_of_pos filled').trans filled)).symm
          · exact congrArg some order

theorem le_iff_amount (x y : Float) : x ≤ y ↔ amount x ≤ amount y := by
  change decide (x.toModel.unpack.le y.toModel.unpack = true) = true ↔ _
  rw [decide_eq_true_iff, UnpackedFloat.le, compare_unpacked (isNormal_unpack x) (isNormal_unpack y),
    amount_eq, amount_eq]
  rfl

theorem lt_iff_amount (x y : Float) : x < y ↔ amount x < amount y := by
  change decide (x.toModel.unpack.lt y.toModel.unpack = true) = true ↔ _
  rw [decide_eq_true_iff, UnpackedFloat.lt, compare_unpacked (isNormal_unpack x) (isNormal_unpack y),
    amount_eq, amount_eq, beq_iff_eq]
  rfl

theorem beq_iff_amount (x y : Float) :
    (x == y) = true ↔ (amount x).compare? (amount y) = some .eq := by
  change x.toModel.unpack.beq y.toModel.unpack = true ↔ _
  rw [UnpackedFloat.beq, compare_unpacked (isNormal_unpack x) (isNormal_unpack y), amount_eq,
    amount_eq, beq_iff_eq]

end NodeQuery.Numeral
