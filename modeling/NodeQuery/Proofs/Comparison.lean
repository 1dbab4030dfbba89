import NodeQuery.Value

/-!
# Comparisons read from either side

Exchanging the values that are compared and turning the sign of the operator around changes nothing.
Numbers decide it, since everything that is not compared for equality is compared as a number, and a
node-set only asks the same question of each of its nodes.
-/

namespace NodeQuery

open Float.Model

/-- Doubles are ordered the same from either side, with the undefined number beside any other
unordered. -/
theorem compare_swap (left right : UnpackedFloat) :
    right.compare left = (left.compare right).map Ordering.swap := by
  cases left with
  | notANumber => cases right <;> rfl
  | infinity sign =>
      cases right with
      | infinity other => cases sign <;> cases other <;> rfl
      | notANumber => cases sign <;> rfl
      | zero other => cases sign <;> rfl
      | finite other m e pos => cases sign <;> rfl
  | zero sign =>
      cases right with
      | infinity other => cases other <;> rfl
      | notANumber => rfl
      | zero other => rfl
      | finite other m e pos => cases other <;> rfl
  | finite sign m e pos =>
      have lexicographic (m' : Nat) (e' : Int) : ((compare e e').then (compare m m')).swap =
          (compare e' e).then (compare m' m) := by
        rw [Ordering.swap_then, Int.compare_swap, Nat.compare_swap]
      cases right with
      | infinity other => cases other <;> rfl
      | notANumber => cases sign <;> rfl
      | zero other => cases sign <;> rfl
      | finite other m' e' pos' =>
          -- Exponents decide before mantissas, and a minus sign on both sides swaps the outcome.
          have exchanged := (lexicographic m' e').symm
          cases sign with
          | positive =>
              cases other with
              | positive => exact congrArg some exchanged
              | negative => rfl
          | negative =>
              cases other with
              | positive => rfl
              | negative => exact congrArg (some ∘ Ordering.swap) exchanged

theorem beq_comm_of_numbers (left right : Float) : (left == right) = (right == left) := by
  change (left.toModel.unpack.compare right.toModel.unpack == some .eq) =
    (right.toModel.unpack.compare left.toModel.unpack == some .eq)
  rw [compare_swap left.toModel.unpack]
  cases left.toModel.unpack.compare right.toModel.unpack with
  | none => rfl
  | some ordering => cases ordering <;> rfl

namespace Comparison

/-- The operator that says the same with its sides exchanged. -/
def mirror : Comparison → Comparison
  | .eq => .eq
  | .ne => .ne
  | .lt => .gt
  | .le => .ge
  | .gt => .lt
  | .ge => .le

theorem ofTexts_mirror (comparison : Comparison) (left right : String) :
    comparison.mirror.ofTexts right left = comparison.ofTexts left right := by
  cases comparison with
  | eq => exact Bool.beq_comm
  | ne => exact congrArg not Bool.beq_comm
  | lt | le | gt | ge => rfl

variable (forest : Forest)

/-- Which conversion decides an equality does not depend on the side a kind of values stands on. -/
theorem equalScalars_comm (left right : Value) :
    equalScalars forest left right = equalScalars forest right left := by
  rw [equalScalars, equalScalars, Bool.or_comm (left.kind == .boolean),
    Bool.or_comm (left.kind == .number), Bool.beq_comm (a := left.toBoolean),
    beq_comm_of_numbers (left.toNumber forest), Bool.beq_comm (a := left.toText forest)]

theorem ofScalars_mirror (comparison : Comparison) (left right : Value) :
    comparison.mirror.ofScalars forest right left = comparison.ofScalars forest left right := by
  cases comparison with
  | eq => exact equalScalars_comm forest right left
  | ne => exact congrArg not (equalScalars_comm forest right left)
  | lt | le | gt | ge => rfl

/-- Two nodes that compare, one of each set, are found from either set. -/
theorem any_texts_mirror (comparison : Comparison) (first second : List NodeId) :
    (second.any fun id => (first.map forest.stringValue).any fun text =>
      comparison.mirror.ofTexts (forest.stringValue id) text) =
    first.any fun id => (second.map forest.stringValue).any fun text =>
      comparison.ofTexts (forest.stringValue id) text := by
  rw [Bool.eq_iff_iff]
  simp only [List.any_map, List.any_eq_true, Function.comp_apply, ofTexts_mirror]
  constructor
  · rintro ⟨other, otherIn, id, idIn, holds⟩
    exact ⟨id, idIn, other, otherIn, holds⟩
  · rintro ⟨id, idIn, other, otherIn, holds⟩
    exact ⟨other, otherIn, id, idIn, holds⟩

/-- Any two values compare the same with their sides exchanged and the operator turned around, and
values that are not node-sets differ exactly if they are not equal. -/
theorem holds_mirror (left right : Value) :
    (∀ comparison : Comparison,
      comparison.holds forest left right = comparison.mirror.holds forest right left) ∧
    (left.kind ≠ .nodeSet → right.kind ≠ .nodeSet →
      ne.holds forest left right = !eq.holds forest left right) := by
  constructor
  · intro comparison
    cases left with
    | nodeSet first =>
        cases right with
        | nodeSet second => exact (any_texts_mirror forest comparison first.nodes second.nodes).symm
        | boolean truth => exact (ofScalars_mirror forest comparison _ _).symm
        | number _ | string _ => simp only [holds, ofScalars_mirror]
    | boolean truth =>
        cases right with
        | nodeSet _ | boolean _ | number _ | string _ =>
            exact (ofScalars_mirror forest comparison _ _).symm
    | number _ | string _ =>
        cases right with
        | nodeSet second => simp only [holds, ofScalars_mirror]
        | boolean _ | number _ | string _ => exact (ofScalars_mirror forest comparison _ _).symm
  · intro leftPlain rightPlain
    cases left with
    | nodeSet first => exact absurd rfl leftPlain
    | boolean _ | number _ | string _ =>
        cases right with
        | nodeSet second => exact absurd rfl rightPlain
        | boolean _ | number _ | string _ => rfl

/-- The undefined number beside a text that is no number. -/
theorem holds_mirror_undefined :
    (Value.number Numeral.undefined).kind ≠ .nodeSet ∧ (Value.string "one").kind ≠ .nodeSet ∧
    lt.holds {} (.number Numeral.undefined) (.string "one") =
      gt.holds {} (.string "one") (.number Numeral.undefined) ∧
    ne.holds {} (.number Numeral.undefined) (.string "one") =
      !eq.holds {} (.number Numeral.undefined) (.string "one") := by
  have number : (Value.number Numeral.undefined).kind ≠ .nodeSet := by decide
  have text : (Value.string "one").kind ≠ .nodeSet := by decide
  have both := holds_mirror {} (.number Numeral.undefined) (.string "one")
  exact ⟨number, text, both.1 .lt, both.2 number text⟩

end Comparison

end NodeQuery
