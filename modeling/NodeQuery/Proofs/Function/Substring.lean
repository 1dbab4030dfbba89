import NodeQuery.Function.Core
import NodeQuery.Proofs.Numeral.Halves
import NodeQuery.Proofs.Text.Parts

/-!
# Parts of a text by place

The places of a part are told by what its start and its length are rounded to.  The place behind the
part is a sum that is rounded to a double once more, but no place of a text lies between a sum of
integers and the double nearest to it.
-/

namespace NodeQuery.Function

open Numeral

/-- What a start or a length is rounded to. -/
def settledAmount (x : Float) : Amount := (amount x).map fun number => settled number

/-- The places of a part of a text, from a start on. -/
def IsFrom (start : Float) (place : ℕ) : Prop := settledAmount start ≤ .exact place

/-- The places of a part of a text, before the place that a length ends at. -/
def IsBefore (start length : Float) (place : ℕ) : Prop :=
  Amount.exact place < (settledAmount start).add (settledAmount length)

instance (start : Float) : DecidablePred (IsFrom start) := fun place =>
  inferInstanceAs (Decidable (settledAmount start ≤ .exact place))

instance (start length : Float) : DecidablePred (IsBefore start length) := fun place =>
  inferInstanceAs (Decidable (Amount.exact place < (settledAmount start).add (settledAmount length)))

/-- The characters of a text at some of its places, which count from one. -/
def charactersAt (places : ℕ → Prop) [DecidablePred places] (text : List Char) : List Char :=
  ((text.zipIdx 1).filter fun entry => decide (places entry.2)).map (·.1)

/-- The place that a length ends at is behind a place of a text exactly if the sum of what the start and
the length are rounded to is. -/
theorem lt_add_iff (start length : Float) {place : ℕ} (small : place < 2 ^ 53) :
    Float.ofNat place < round start + round length ↔ IsBefore start length place := by
  have first : amount (round start) = settledAmount start := amount_round start
  have second : amount (round length) = settledAmount length := amount_round length
  rw [lt_iff_amount, amount_ofNat small, IsBefore]
  by_cases numbers : ∃ a b, amount start = .exact a ∧ amount length = .exact b
  · rcases numbers with ⟨a, b, known, knownLength⟩
    have left : settledAmount start = .exact (settled a) := by rw [settledAmount, known]; rfl
    have right : settledAmount length = .exact (settled b) := by rw [settledAmount, knownLength]; rfl
    have rounds := rounds_add (first.trans left) (second.trans right)
    rw [← Int.cast_add] at rounds
    have few : |(place : ℤ)| < 2 ^ 53 := by rw [Nat.abs_cast]; omega
    rw [← Int.cast_natCast, lt_amount_iff_of_rounds rounds few, left, right]
    refine Iff.trans ?_ Amount.exact_lt_exact.symm
    rw [← Int.cast_add]
    exact_mod_cast Iff.rfl
  · rw [amount_add_special, first, second]
    rintro a b ⟨known, knownLength⟩
    rw [first, settledAmount] at known
    rw [second, settledAmount] at knownLength
    apply numbers
    cases shown : amount start <;> rw [shown] at known <;> cases known
    cases shownLength : amount length <;> rw [shownLength] at knownLength <;> cases knownLength
    exact ⟨_, _, rfl, rfl⟩

theorem le_place_iff (start : Float) {place : ℕ} (small : place < 2 ^ 53) :
    round start ≤ Float.ofNat place ↔ IsFrom start place := by
  rw [le_iff_amount, amount_ofNat small, amount_round]
  rfl

/-- Places that are the same for a text pick the same characters of it. -/
theorem charactersAt_congr {places : ℕ → Prop} [DecidablePred places] {text : List Char}
    {inside : Char × ℕ → Bool}
    (same : ∀ entry : Char × ℕ, entry.2 ≤ text.length → (inside entry = true ↔ places entry.2)) :
    ((text.zipIdx 1).filter inside).map (·.1) = charactersAt places text := by
  rw [charactersAt]
  refine congrArg (List.map _) (List.filter_congr fun entry member => ?_)
  have bound : entry.2 < 1 + text.length := List.snd_lt_add_of_mem_zipIdx member
  rw [Bool.eq_iff_iff, decide_eq_true_iff]
  exact same entry (by omega)

theorem substring_eq {text : List Char} (few : text.length < 2 ^ 53) (start : Float) :
    substring text start none = charactersAt (IsFrom start) text := by
  refine charactersAt_congr fun entry inText => ?_
  dsimp only
  rw [Bool.and_true, decide_eq_true_iff]
  exact le_place_iff start (by omega)

theorem substring_length_eq {text : List Char} (few : text.length < 2 ^ 53) (start length : Float) :
    substring text start (some length) =
      charactersAt (fun place => IsFrom start place ∧ IsBefore start length place) text := by
  refine charactersAt_congr fun entry inText => ?_
  dsimp only
  rw [Bool.and_eq_true, decide_eq_true_iff, decide_eq_true_iff]
  exact and_congr (le_place_iff start (by omega)) (lt_add_iff start length (by omega))

/-- Integers up to `2 ^ 52` leave a bit for the half and are rounded to themselves. -/
theorem settled_intCast {n : ℤ} (small : |n| ≤ 2 ^ 52) : settled n = n := by
  have exactly : ¬ Overshoots n := by
    rw [overshoots_intCast]
    rintro ⟨_, large, _⟩
    exact absurd small (not_le.mpr large)
  rw [settled, if_neg exactly, rounded_intCast]

theorem isFrom_iff {start : Float} {first : ℕ} (known : amount start = .exact first)
    (small : first ≤ 2 ^ 52) (place : ℕ) : IsFrom start place ↔ first ≤ place := by
  have whole : settledAmount start = .exact first := by
    rw [settledAmount, known, Amount.map, ← Int.cast_natCast first,
      settled_intCast (by rw [Nat.abs_cast]; omega)]
  rw [IsFrom, whole, Amount.exact_le_exact, Nat.cast_le]

/-- From a whole number on, a part of a text is the text without the places before. -/
theorem substring_eq_drop {text : List Char} (few : text.length < 2 ^ 53) {start : Float} {first : ℕ}
    (known : amount start = .exact first) (small : first ≤ 2 ^ 52) :
    substring text start none = text.drop (first - 1) := by
  rw [substring_eq few, charactersAt]
  refine Text.filter_places (fun place => decide (IsFrom start place)) first text 1 fun place _ => ?_
  rw [decide_eq_true_iff, isFrom_iff known small]

/-- The place from which as many characters are left as a part has. -/
theorem amount_start {whole part : ℕ} (less : part ≤ whole) (few : whole < 2 ^ 53 - 1) :
    amount (Float.ofNat whole - Float.ofNat part + Decimal.toFloat ⟨1, 0⟩) =
      .exact (whole - part + 1 : ℕ) := by
  have difference := rounds_sub (amount_ofNat (n := whole) (by omega)) (amount_ofNat (n := part) (by omega))
  have one : amount (Decimal.toFloat ⟨1, 0⟩) = .exact (1 : ℤ) :=
    amount_of_rounds (rounds_toFloat_whole 1) (by decide)
  have places : (whole : ℚ) - part = ((whole - part : ℕ) : ℤ) := by rw [Int.cast_natCast, Nat.cast_sub less]
  rw [places] at difference
  have rest := amount_of_rounds difference (by rw [Nat.abs_cast]; omega)
  have start := rounds_add rest one
  rw [← Int.cast_add] at start
  rw [amount_of_rounds start (by rw [abs_of_nonneg] <;> omega)]
  norm_cast

theorem length_substring_le (text : List Char) (start : Float) :
    (substring text start none).length ≤ text.length := by
  rw [substring, List.length_map]
  exact (List.length_filter_le _ _).trans (Nat.le_of_eq (List.length_zipIdx ..))

/-- From as many characters before the end as a part is long, a text goes on with the part exactly if
it ends in it.  Of a longer text the place may be rounded to the next one, so that a character is
missing. -/
theorem substring_eq_iff_suffix {text part : List Char} (filled : part ≠ [])
    (fits : text.length ≤ 2 ^ 52) :
    substring text (Float.ofNat text.length - Float.ofNat part.length + Decimal.toFloat ⟨1, 0⟩) none =
      part ↔ part <:+ text := by
  by_cases longer : text.length < part.length
  · have short := length_substring_le text
      (Float.ofNat text.length - Float.ofNat part.length + Decimal.toFloat ⟨1, 0⟩)
    constructor
    · intro same
      rw [same] at short
      omega
    · intro suffix
      have bound := suffix.length_le
      omega
  · have letters := List.length_pos_iff.mpr filled
    have start := amount_start (Nat.not_lt.mp longer) (by omega)
    rw [substring_eq_drop (by omega) start (by omega), Nat.add_sub_cancel, List.suffix_iff_eq_drop,
      eq_comm]

/-- Which characters a call of `substring` gives: those at places from the rounded start on, and with a
length also before the sum of the rounded start and the rounded length.  A number is rounded to the
nearest integer and from a half upwards, but for the largest double below one half and for the odd
integers between `2 ^ 52` and `2 ^ 53`, which are rounded to one more. -/
theorem substringOf_eq (forest : Forest) (site : CallSite) (text start length : Value)
    (few : (text.toText forest).toList.length < 2 ^ 53) :
    substringOf forest site [text, start] = .ok (.string (String.ofList
      (charactersAt (IsFrom (start.toNumber forest)) (text.toText forest).toList))) ∧
    substringOf forest site [text, start, length] = .ok (.string (String.ofList
      (charactersAt (fun place => IsFrom (start.toNumber forest) place ∧
        IsBefore (start.toNumber forest) (length.toNumber forest) place)
        (text.toText forest).toList))) := by
  constructor
  · rw [substringOf, List.head?_nil, Option.map_none, substring_eq few]
  · rw [substringOf, List.head?_cons, Option.map_some, substring_length_eq few]

/-- The theorem at a part in the middle of a text. -/
theorem substringOf_eq_middle : "12345".toList.length < 2 ^ 53 ∧
    substringOf {} {focus := {}} [.string "12345", .number 1.5, .number 2.6] =
      .ok (.string (String.ofList (charactersAt
        (fun place => IsFrom 1.5 place ∧ IsBefore 1.5 2.6 place) "12345".toList))) :=
  ⟨by decide, (substringOf_eq {} {focus := {}} (.string "12345") (.number 1.5) (.number 2.6)
    (by decide)).2⟩

/-- What a start or a length is to be rounded to. -/
def roundedAmount (x : Float) : Amount := (amount x).map fun number => rounded number

/-- With exact rounding there is no place from the largest double below one half on over a length of
one, and yet a call gives a character. -/
theorem substringOf_below_half :
    substringOf {} {focus := {}} [.string "12345", .number 0.49999999999999994, .number 1] =
      .ok (.string "1") ∧
    charactersAt (fun place => roundedAmount 0.49999999999999994 ≤ .exact place ∧
      Amount.exact place < (roundedAmount 0.49999999999999994).add (roundedAmount 1))
      "12345".toList = [] := by
  have part : substring "12345".toList 0.49999999999999994 (some 1) = ['1'] := by decide +kernel
  constructor
  · exact congrArg (fun characters => Except.ok (Value.string (String.ofList characters))) part
  · decide +kernel

end NodeQuery.Function
