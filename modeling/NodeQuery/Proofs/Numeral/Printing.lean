import NodeQuery.Proofs.Expr.Rules
import NodeQuery.Proofs.Numeral.Reading

/-!
# Numbers that are printed

A finite number is printed as a decimal, with a minus sign in front of it if the number is below zero,
and with nothing around it.  Reading that text gives the number back.  The two zeros have one text
between them, and it is read as the one without a sign.
-/

namespace NodeQuery.Numeral

open Float.Model
open Float.Model.UnpackedFloat

section
variable {x : Float} {sign : Sign} {m : Nat} {e : Int} {pos : 0 < m}

theorem lt_zero_iff (x : Float) : x < 0 ↔ unpackedAmount x.toModel.unpack < .exact 0 := by
  have zero : amount 0 = .exact 0 := by
    rw [amount_eq]
    rfl
  rw [lt_iff_amount, zero, amount_eq]

theorem not_lt_zero_of_unpack_zero (shown : x.toModel.unpack = .zero sign) : ¬ x < 0 := by
  rw [lt_zero_iff, shown]
  exact fun less => lt_irrefl _ (Amount.exact_lt_exact.mp less)

theorem not_lt_zero_of_unpack_positive (shown : x.toModel.unpack = .finite .positive m e pos) :
    ¬ x < 0 := by
  rw [lt_zero_iff, shown]
  exact fun less => lt_asymm (value_pos pos e) (Amount.exact_lt_exact.mp less)

theorem lt_zero_of_unpack_negative (shown : x.toModel.unpack = .finite .negative m e pos) :
    x < 0 := by
  rw [lt_zero_iff, shown]
  exact Amount.exact_lt_exact.mpr (neg_neg_of_pos (value_pos pos e))

/-- Zeros are equal to zero. -/
theorem beq_zero_of_unpack_zero (shown : x.toModel.unpack = .zero sign) : (x == 0) = true := by
  change x.toModel.unpack.beq _ = true
  rw [shown]
  rfl

theorem beq_zero_of_unpack_finite (shown : x.toModel.unpack = .finite sign m e pos) :
    (x == 0) = false := by
  change x.toModel.unpack.beq _ = false
  rw [shown]
  cases sign <;> rfl

/-- Taking the opposite twice gives a finite number back. -/
theorem neg_neg_of_isFinite (finite : x.isFinite = true) : - -x = x := by
  apply eq_of_unpack_eq finite
  rw [unpack_neg, unpack_neg]
  cases x.toModel.unpack with
  | notANumber => rfl
  | infinity sign | zero sign | finite sign => cases sign <;> rfl

end

section
variable {x : Float}

/-- A number below zero is printed as its opposite is, behind a minus sign. -/
theorem chars_of_unpack_negative {m : Nat} {e : Int} {pos : 0 < m}
    (shown : x.toModel.unpack = .finite .negative m e pos) : chars x = '-' :: chars (-x) := by
  have filled : ¬ (m == 0) = true := by
    rw [beq_iff_eq]
    omega
  have parts : Parts.ofFloat x = .finite true m e := by
    rw [parts_ofFloat, shown]
    rfl
  have opposite : Parts.ofFloat (-x) = .finite false m e := by
    rw [parts_ofFloat, unpack_neg, shown]
    rfl
  rw [chars, chars, parts, opposite]
  dsimp only
  rw [if_neg filled, if_neg filled]
  rfl

/-- A finite number is printed as a signed decimal that stands for the number, or for zero without a
sign if it is a zero. -/
theorem exists_printed_signed (finite : x.isFinite = true) :
    ∃ printed : Decimal, chars x = signChars (decide (x < 0)) ++ printed.toChars ∧
      (if decide (x < 0) then -printed.toFloat else printed.toFloat) = if x == 0 then 0 else x := by
  have isFinite : x.toModel.unpack.isFinite = true := finite
  cases shown : x.toModel.unpack with
  | infinity | notANumber =>
      rw [shown] at isFinite
      cases isFinite
  | zero sign =>
      have parts : Parts.ofFloat x = .finite (sign == .negative) 0 Parts.leastExponent := by
        rw [parts_ofFloat, shown]
      rw [decide_eq_false (not_lt_zero_of_unpack_zero shown), beq_zero_of_unpack_zero shown]
      refine ⟨⟨0, 0⟩, ?_, ?_⟩
      · rw [chars, parts]
        cases sign <;> decide
      · rfl
  | finite sign m e pos =>
      rw [beq_zero_of_unpack_finite shown]
      cases sign with
      | positive =>
          have unsigned : Unsigned x.toModel.unpack := by rw [shown, Unsigned]
          rw [decide_eq_false (not_lt_zero_of_unpack_positive shown)]
          exact exists_printed unsigned finite
      | negative =>
          have opposite : (-x).toModel.unpack = .finite .positive m e pos := by
            rw [unpack_neg, shown]
            rfl
          have unsigned : Unsigned (-x).toModel.unpack := by rw [opposite, Unsigned]
          have oppositeFinite : (-x).isFinite = true := by
            change (-x).toModel.unpack.isFinite = true
            rw [opposite]
            rfl
          rcases exists_printed unsigned oppositeFinite with ⟨printed, written, same⟩
          rw [decide_eq_true (lt_zero_of_unpack_negative shown)]
          refine ⟨printed, ?_, ?_⟩
          · rw [chars_of_unpack_negative shown, written]
            rfl
          · rw [same]
            exact neg_neg_of_isFinite finite

/-- A finite number is printed as a decimal with nothing around it, behind a minus sign if and only if
it is below zero, and is read back from its text; a zero is read back without its sign. -/
theorem toNumber_toText (forest : Forest) (finite : x.isFinite = true) :
    (∃ number, Writes (fun _ => false) ((Value.number x).toText forest).toList (decide (x < 0))
      number) ∧
    (Value.string ((Value.number x).toText forest)).toNumber forest = if x == 0 then 0 else x := by
  rcases exists_printed_signed finite with ⟨printed, written, same⟩
  have read := (Expr.isNumeral_toChars printed).ofChars?_eq
  have text : ((Value.number x).toText forest).toList =
      [] ++ (signChars (decide (x < 0)) ++ printed.toChars) ++ [] := by
    rw [List.nil_append, List.append_nil, ← written]
    exact String.toList_ofList
  constructor
  · exact ⟨printed.number, [], printed.toChars, [], text, by simp, isDecimal_of_ofChars? read⟩
  · rw [← same, Value.toNumber, ofText, text]
    exact ofChars_between read (by simp) _

end

/-- The theorem at the number below zero that is nearest to it. -/
theorem toNumber_toText_least :
    (-Float.ofBits 1).isFinite = true ∧
      (Value.string ((Value.number (-Float.ofBits 1)).toText {})).toNumber {} = -Float.ofBits 1 := by
  have finite : (-Float.ofBits 1).isFinite = true := by decide +kernel
  have notZero : (-Float.ofBits 1 == 0) = false := by decide +kernel
  have read := (toNumber_toText {} finite).2
  rw [notZero] at read
  exact ⟨finite, read⟩

end NodeQuery.Numeral
