import Mathlib.Data.Nat.Digits.Defs
import NodeQuery.Expr.Reader
import NodeQuery.Value
import NodeQuery.Proofs.Numeral.Arithmetic
import NodeQuery.Proofs.Text.Reader

/-!
# Strings that are numbers

A string is a number if a decimal, with a minus sign or without, is left of it when the blanks at both
ends are gone; it is the double nearest to that decimal then.  The blanks that are dropped are all the
characters with the White_Space property, and not only those that separate the parts of an expression.
-/

namespace NodeQuery.Numeral

open Float.Model
open Text (isBlank trim)
open Text.Reader (Leaves leaves_nil leaves_cons leaves_dropWhile takeWhile_append_of_leaves)

def written (digits : List Char) : Nat := Nat.ofDigits 10 (digits.map Decimal.digitValue).reverse

/-- A decimal and the number that it writes: digits, digits with a point behind them or among them, or a
point with digits behind it. -/
inductive IsDecimal : List Char → ℚ → Prop
  | whole {digits : List Char} (filled : digits ≠ []) (all : ∀ c ∈ digits, c.isDigit = true) :
      IsDecimal digits (written digits)
  | pointed {whole fraction : List Char} (filled : whole ≠ [] ∨ fraction ≠ [])
      (all : ∀ c ∈ whole, c.isDigit = true) (allBehind : ∀ c ∈ fraction, c.isDigit = true) :
      IsDecimal (whole ++ '.' :: fraction) (written whole + written fraction / 10 ^ fraction.length)

theorem written_cons (c : Char) (digits : List Char) :
    written (c :: digits) = Decimal.digitValue c * 10 ^ digits.length + written digits := by
  rw [written, List.map_cons, List.reverse_cons, Nat.ofDigits_append, Nat.ofDigits_singleton,
    List.length_reverse, List.length_map, written, Nat.add_comm, Nat.mul_comm]

theorem accumulate_eq (start : Nat) (digits : List Char) :
    Decimal.accumulate start digits = start * 10 ^ digits.length + written digits := by
  induction digits generalizing start with
  | nil => exact (Nat.mul_one start).symm
  | cons c digits ih =>
      change Decimal.accumulate (10 * start + Decimal.digitValue c) digits = _
      rw [ih, written_cons, List.length_cons, Nat.pow_succ]
      ring

theorem accumulate_zero (digits : List Char) : Decimal.accumulate 0 digits = written digits := by
  rw [accumulate_eq, Nat.zero_mul, Nat.zero_add]

def Decimal.number (decimal : Decimal) : ℚ := decimal.digits / 10 ^ decimal.places

theorem number_pointed (whole fraction : List Char) :
    Decimal.number ⟨Decimal.accumulate (Decimal.accumulate 0 whole) fraction, fraction.length⟩ =
      written whole + written fraction / 10 ^ fraction.length := by
  rw [Decimal.number, accumulate_eq, accumulate_zero]
  push_cast
  rw [add_div, mul_div_assoc, div_self (by positivity), mul_one]

theorem IsDecimal.ofChars?_eq {body : List Char} {number : ℚ} (isDecimal : IsDecimal body number) :
    ∃ decimal, Decimal.ofChars? body = some decimal ∧ decimal.number = number := by
  cases isDecimal with
  | whole filled all =>
      have split := takeWhile_append_of_leaves all (leaves_nil Char.isDigit)
      have inside : body.isEmpty = false := List.isEmpty_eq_false_iff.mpr filled
      rw [List.append_nil] at split
      refine ⟨⟨Decimal.accumulate 0 body, 0⟩, ?_, ?_⟩
      · simp only [Decimal.ofChars?, split.1, split.2, inside, Bool.false_eq_true, if_false]
      · rw [Decimal.number, accumulate_zero, pow_zero, div_one]
  | @pointed whole fraction filled all allBehind =>
      have point : Leaves Char.isDigit ('.' :: fraction) := leaves_cons rfl
      have split := takeWhile_append_of_leaves all point
      have behind : fraction.all Char.isDigit = true := List.all_eq_true.mpr allBehind
      have inside : (whole.isEmpty && fraction.isEmpty) = false := by
        rw [Bool.and_eq_false_iff, List.isEmpty_eq_false_iff, List.isEmpty_eq_false_iff]
        exact filled
      refine ⟨_, ?_, number_pointed whole fraction⟩
      simp only [Decimal.ofChars?, split.1, split.2, behind, inside, Bool.not_false, Bool.and_self,
        if_true]

theorem isDecimal_of_ofChars? {body : List Char} {decimal : Decimal}
    (read : Decimal.ofChars? body = some decimal) : IsDecimal body decimal.number := by
  have all : ∀ c ∈ body.takeWhile Char.isDigit, c.isDigit = true := fun _ => List.mem_takeWhile_imp
  have parted := @List.takeWhile_append_dropWhile _ Char.isDigit body
  rw [Decimal.ofChars?] at read
  generalize body.takeWhile Char.isDigit = whole at all parted read
  generalize body.dropWhile Char.isDigit = rest at parted read
  split at read
  · rw [List.append_nil] at parted
    subst parted
    split at read
    · cases read
    · rename_i filled
      cases read
      have same : (Decimal.number ⟨Decimal.accumulate 0 whole, 0⟩) = written whole := by
        rw [Decimal.number, accumulate_zero, pow_zero, div_one]
      rw [same]
      exact .whole (fun none => filled (List.isEmpty_iff.mpr none)) all
  · rename_i fraction
    subst parted
    split at read
    · rename_i holds
      cases read
      rw [Bool.and_eq_true, List.all_eq_true, Bool.not_eq_true', Bool.and_eq_false_iff,
        List.isEmpty_eq_false_iff, List.isEmpty_eq_false_iff] at holds
      rw [number_pointed]
      exact .pointed holds.2 all holds.1
    · cases read
  · cases read

theorem IsDecimal.ne_nil {body : List Char} {number : ℚ} (isDecimal : IsDecimal body number) :
    body ≠ [] := by
  cases isDecimal with
  | whole filled _ => exact filled
  | pointed => simp

theorem IsDecimal.mem {body : List Char} {number : ℚ} (isDecimal : IsDecimal body number) :
    ∀ c ∈ body, c.isDigit = true ∨ c = '.' := by
  intro c member
  cases isDecimal with
  | whole _ all => exact .inl (all c member)
  | pointed _ all allBehind =>
      rcases List.mem_append.mp member with before | later
      · exact .inl (all c before)
      · rcases List.mem_cons.mp later with point | behind
        · exact .inr point
        · exact .inl (allBehind c behind)

/-- A text that is a decimal between blanks, with a minus sign or without. -/
def Writes (isBlank : Char → Bool) (source : List Char) (negative : Bool) (number : ℚ) : Prop :=
  ∃ before body after, source = before ++ (signChars negative ++ body) ++ after ∧
    (∀ c ∈ before ++ after, isBlank c = true) ∧ IsDecimal body number

theorem isBlank_digit {c : Char} (digit : c.isDigit = true) : isBlank c = false := by
  rw [Char.isDigit, Bool.and_eq_true, decide_eq_true_iff, decide_eq_true_iff] at digit
  have least : 48 ≤ c.toNat := digit.1
  have most : c.toNat ≤ 57 := digit.2
  simp only [isBlank, Bool.or_eq_false_iff, Bool.and_eq_false_iff, decide_eq_false_iff_not,
    beq_eq_false_iff_ne]
  omega

/-- The signed decimal has no blanks. -/
theorem isBlank_signed {negative : Bool} {body : List Char} {number : ℚ}
    (isDecimal : IsDecimal body number) : ∀ c ∈ signChars negative ++ body, isBlank c = false := by
  intro c member
  rcases List.mem_append.mp member with sign | inside
  · cases negative with
    | false => cases sign
    | true =>
        rw [List.mem_singleton.mp sign]
        rfl
  · rcases isDecimal.mem c inside with digit | rfl
    · exact isBlank_digit digit
    · rfl

theorem signed_ne_nil {negative : Bool} {body : List Char} {number : ℚ}
    (isDecimal : IsDecimal body number) : signChars negative ++ body ≠ [] :=
  fun none => isDecimal.ne_nil (List.append_eq_nil_iff.mp none).2

def blanksAround (text : List Char) : List Char :=
  text.takeWhile isBlank ++ text.reverse.takeWhile isBlank

section
variable {core : List Char} (solid : ∀ c ∈ core, isBlank c = false) (filled : core ≠ [])
include solid filled

theorem split_between {before : List Char} (blank : ∀ c ∈ before, isBlank c = true)
    (after : List Char) :
    (before ++ core ++ after).takeWhile isBlank = before ∧
      (before ++ core ++ after).dropWhile isBlank = core ++ after := by
  have front : Leaves isBlank (core ++ after) := by
    cases core with
    | nil => exact absurd rfl filled
    | cons c core => exact leaves_cons (solid c List.mem_cons_self)
  rw [List.append_assoc]
  exact takeWhile_append_of_leaves blank front

theorem split_reverse_between {after : List Char} (blank : ∀ c ∈ after, isBlank c = true)
    (before : List Char) :
    (before ++ core ++ after).reverse.takeWhile isBlank = after.reverse ∧
      (before ++ core ++ after).reverse.dropWhile isBlank = (before ++ core).reverse := by
  have solidTurned : ∀ c ∈ core.reverse, isBlank c = false :=
    fun c member => solid c (List.mem_reverse.mp member)
  have blankTurned : ∀ c ∈ after.reverse, isBlank c = true :=
    fun c member => blank c (List.mem_reverse.mp member)
  have turned := split_between solidTurned (fun none => filled (List.reverse_eq_nil_iff.mp none))
    blankTurned before.reverse
  rwa [List.append_assoc, ← List.reverse_append, ← List.reverse_append] at turned

variable {before after : List Char} (blank : ∀ c ∈ before ++ after, isBlank c = true)
include blank

/-- Blanks at both ends are dropped. -/
theorem trim_between : trim (before ++ core ++ after) = core := by
  have first := split_between solid filled
    (fun c member => blank c (List.mem_append_left _ member)) after
  have second := split_reverse_between solid filled
    (fun c member => blank c (List.mem_append_right _ member)) []
  rw [trim, first.2]
  exact (congrArg List.reverse second.2).trans (List.reverse_reverse core)

theorem mem_blanksAround {c : Char} :
    c ∈ blanksAround (before ++ core ++ after) ↔ c ∈ before ++ after := by
  have first := split_between solid filled
    (fun c member => blank c (List.mem_append_left _ member)) after
  have second := split_reverse_between solid filled
    (fun c member => blank c (List.mem_append_right _ member)) before
  rw [blanksAround, first.1, second.1, List.mem_append, List.mem_append, List.mem_reverse]

end

/-- What is dropped from both ends are blanks. -/
theorem exists_trim (text : List Char) :
    ∃ before after, text = before ++ trim text ++ after ∧ ∀ c ∈ before ++ after, isBlank c = true := by
  let middle := text.dropWhile isBlank
  refine ⟨text.takeWhile isBlank, (middle.reverse.takeWhile isBlank).reverse, ?_, ?_⟩
  · have parted : middle.reverse.takeWhile isBlank ++ middle.reverse.dropWhile isBlank =
        middle.reverse := List.takeWhile_append_dropWhile
    have restored : trim text ++ (middle.reverse.takeWhile isBlank).reverse = middle := by
      rw [trim, ← List.reverse_append, parted, List.reverse_reverse]
    rw [List.append_assoc, restored]
    exact List.takeWhile_append_dropWhile.symm
  · intro c member
    rcases List.mem_append.mp member with before | after
    · exact List.mem_takeWhile_imp before
    · exact List.mem_takeWhile_imp (List.mem_reverse.mp after)

/-- Whether there is a minus sign, also in front of zero. -/
def Parts.isNegative : Parts → Bool
  | undefined => false
  | infinite negative | finite negative _ _ => negative

/-- A decimal between blanks, with a minus sign or without, is read. -/
theorem ofChars_between {body before after : List Char} {decimal : Decimal}
    (read : Decimal.ofChars? body = some decimal)
    (blank : ∀ c ∈ before ++ after, isBlank c = true) (negative : Bool) :
    ofChars (before ++ (signChars negative ++ body) ++ after) =
      if negative then -decimal.toFloat else decimal.toFloat := by
  have isDecimal := isDecimal_of_ofChars? read
  have trimmed : trim (before ++ (signChars negative ++ body) ++ after) = signChars negative ++ body :=
    trim_between (isBlank_signed isDecimal) (signed_ne_nil isDecimal) blank
  cases negative with
  | true =>
      change trim _ = '-' :: body at trimmed
      simp only [ofChars, trimmed, read, Option.map_some, Option.getD_some, if_true]
  | false =>
      change trim _ = body at trimmed
      rw [ofChars, trimmed]
      split
      · -- A decimal does not begin with a minus sign.
        rcases isDecimal.mem '-' List.mem_cons_self with digit | point
        · cases digit
        · cases point
      · simp only [read, Option.map_some, Option.getD_some, Bool.false_eq_true, if_false]

section
variable {source : List Char} {negative : Bool} {number : ℚ}

/-- A number that is written is read. -/
theorem Writes.ofChars_eq (writes : Writes isBlank source negative number) :
    ∃ decimal : Decimal, decimal.number = number ∧
      ofChars source = if negative then -decimal.toFloat else decimal.toFloat := by
  rcases writes with ⟨before, body, after, rfl, blank, isDecimal⟩
  rcases isDecimal.ofChars?_eq with ⟨decimal, read, same⟩
  exact ⟨decimal, same, ofChars_between read blank negative⟩

/-- Only what is written as a number is read as one. -/
theorem exists_writes (read : (ofChars source).isNaN = false) :
    ∃ negative number, Writes isBlank source negative number := by
  rcases exists_trim source with ⟨before, after, parted, blank⟩
  have undefined_ : undefined.isNaN = true := rfl
  have decimal {body : List Char} {toFloat : Decimal → Float}
      (read : (((Decimal.ofChars? body).map toFloat).getD undefined).isNaN = false) :
      ∃ number, IsDecimal body number := by
    cases found : Decimal.ofChars? body with
    | none =>
        rw [found, Option.map_none, Option.getD_none, undefined_] at read
        cases read
    | some decimal => exact ⟨decimal.number, isDecimal_of_ofChars? found⟩
  rw [ofChars] at read
  split at read
  · rename_i rest trimmed
    rcases decimal read with ⟨number, isDecimal⟩
    rw [trimmed] at parted
    exact ⟨true, number, before, rest, after, parted, blank, isDecimal⟩
  · rcases decimal read with ⟨number, isDecimal⟩
    exact ⟨false, number, before, _, after, parted, blank, isDecimal⟩

theorem isNegative_of_unsigned {x : Float} (unsigned : Unsigned x.toModel.unpack) :
    (Parts.ofFloat x).isNegative = false := by
  rw [parts_ofFloat]
  cases shown : x.toModel.unpack with
  | notANumber => rfl
  | infinity | zero | finite =>
      rw [shown] at unsigned
      cases unsigned
      rfl

theorem isNegative_neg_of_unsigned {x : Float} (unsigned : Unsigned x.toModel.unpack)
    (defined : x.isNaN = false) : (Parts.ofFloat (-x)).isNegative = true := by
  change x.toModel.unpack.isNaN = false at defined
  rw [parts_ofFloat, unpack_neg]
  cases shown : x.toModel.unpack with
  | notANumber =>
      rw [shown] at defined
      cases defined
  | infinity | zero | finite =>
      rw [shown] at unsigned
      cases unsigned
      rfl

/-- The number that is read is the nearest double, with the sign that is written. -/
theorem Writes.rounds (writes : Writes isBlank source negative number) :
    Rounds (signed negative number) (ofChars source) ∧
      (Parts.ofFloat (ofChars source)).isNegative = negative := by
  rcases writes.ofChars_eq with ⟨decimal, rfl, read⟩
  have rounds := rounds_toFloat decimal
  have unsigned := unsigned_toFloat decimal
  rw [read]
  cases negative with
  | true => exact ⟨rounds.neg, isNegative_neg_of_unsigned unsigned rounds.isNaN⟩
  | false => exact ⟨rounds, isNegative_of_unsigned unsigned⟩

theorem Writes.mono {class_ other : Char → Bool} (weaker : ∀ c, class_ c = true → other c = true)
    (writes : Writes class_ source negative number) : Writes other source negative number := by
  rcases writes with ⟨before, body, after, same, blank, isDecimal⟩
  exact ⟨before, body, after, same, fun c member => weaker c (blank c member), isDecimal⟩

theorem isBlank_of_expr {c : Char} (blank : Expr.isBlank c = true) : isBlank c = true := by
  simp only [Expr.isBlank, Bool.or_eq_true, beq_iff_eq] at blank
  rcases blank with ((rfl | rfl) | rfl) | rfl <;> rfl

/-- With the blanks of expressions alone, the same texts are numbers as long as no other blanks are
dropped from their ends. -/
theorem exists_writes_expr :
    (∃ negative number, Writes Expr.isBlank source negative number) ↔
      (∃ negative number, Writes isBlank source negative number) ∧
        ∀ c ∈ blanksAround source, Expr.isBlank c = true := by
  constructor
  · rintro ⟨negative, number, writes⟩
    refine ⟨⟨negative, number, writes.mono fun c => isBlank_of_expr⟩, fun c around => ?_⟩
    rcases writes with ⟨before, body, after, rfl, blank, isDecimal⟩
    exact blank c ((mem_blanksAround (isBlank_signed isDecimal) (signed_ne_nil isDecimal)
      fun c member => isBlank_of_expr (blank c member)).mp around)
  · rintro ⟨⟨negative, number, before, body, after, rfl, blank, isDecimal⟩, plain⟩
    exact ⟨negative, number, before, body, after, rfl, fun c member => plain c
      ((mem_blanksAround (isBlank_signed isDecimal) (signed_ne_nil isDecimal) blank).mpr member),
      isDecimal⟩

end

/-- Which strings are numbers, and which: those that write a decimal between blanks, with a minus sign or
without, and they are the nearest double to it.  Blanks are all characters with the White_Space
property; with the blanks of expressions alone, a string writes a number if it is one and no other
blanks stand at its ends. -/
theorem toNumber_string (forest : Forest) (text : String) :
    (((Value.string text).toNumber forest).isNaN = false ↔
      ∃ negative number, Writes isBlank text.toList negative number) ∧
    (∀ negative number, Writes isBlank text.toList negative number →
      Rounds (signed negative number) ((Value.string text).toNumber forest) ∧
        (Parts.ofFloat ((Value.string text).toNumber forest)).isNegative = negative) ∧
    ((∃ negative number, Writes Expr.isBlank text.toList negative number) ↔
      ((Value.string text).toNumber forest).isNaN = false ∧
        ∀ c ∈ blanksAround text.toList, Expr.isBlank c = true) := by
  have read : ((Value.string text).toNumber forest).isNaN = false ↔
      ∃ negative number, Writes isBlank text.toList negative number :=
    ⟨exists_writes, fun ⟨_, _, writes⟩ => writes.rounds.1.isNaN⟩
  refine ⟨read, fun negative number writes => writes.rounds, ?_⟩
  rw [read]
  exact exists_writes_expr

/-- The theorem at a number with blanks of both kinds around it. -/
theorem toNumber_string_padded : Writes isBlank "\u00a0-42\t".toList true 42 ∧
    Rounds (signed true 42) ((Value.string "\u00a0-42\t").toNumber {}) := by
  have digits : IsDecimal ['4', '2'] (written ['4', '2']) := .whole (by decide) (List.all_eq_true.mp rfl)
  have number : written ['4', '2'] = 42 := rfl
  rw [number] at digits
  have writes : Writes isBlank "\u00a0-42\t".toList true 42 :=
    ⟨['\u00a0'], ['4', '2'], ['\t'], by decide, List.all_eq_true.mp rfl, digits⟩
  exact ⟨writes, ((toNumber_string {} "\u00a0-42\t").2.1 true 42 writes).1⟩

/-- A blank that separates no parts of an expression is dropped in front of a number. -/
theorem toNumber_no_break_space :
    ((Value.string "\u00a042").toNumber {}).isNaN = false ∧
      ¬ ∃ negative number, Writes Expr.isBlank "\u00a042".toList negative number := by
  refine ⟨by decide +kernel, fun writes => ?_⟩
  have plain := (exists_writes_expr.mp writes).2 '\u00a0' (by decide)
  revert plain
  decide

end NodeQuery.Numeral
