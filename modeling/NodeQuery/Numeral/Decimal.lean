import NodeQuery.Numeral.Binary64

/-!
# Plain decimals

A plain decimal is a natural number with a point set some places from its right end.  It is what
number texts are read into, and what a double is printed as: the search below takes the decimal
with the fewest digits that reads back as the double it stands for.
-/

namespace NodeQuery.Numeral

/-- The value `digits / 10 ^ places`. -/
structure Decimal where
  digits : Nat
  places : Nat
deriving DecidableEq, Repr

namespace Decimal

/-- The double nearest to a decimal. -/
def toFloat (d : Decimal) : Float := Float.ofScientific d.digits true d.places

def digitValue (c : Char) : Nat := c.toNat - '0'.toNat

/-- Read digits from the left, on top of what was read before them. -/
def accumulate (start : Nat) (digits : List Char) : Nat :=
  digits.foldl (fun total c => 10 * total + digitValue c) start

/-- Read digits with at most one point among, before or after them; at least one digit is needed
and nothing else may stand in the text. -/
def ofChars? (text : List Char) : Option Decimal :=
  let whole := text.takeWhile Char.isDigit
  match text.dropWhile Char.isDigit with
  | [] => if whole.isEmpty then none else some ⟨accumulate 0 whole, 0⟩
  | '.' :: fraction =>
    if fraction.all Char.isDigit && !(whole.isEmpty && fraction.isEmpty) then
      some ⟨accumulate (accumulate 0 whole) fraction, fraction.length⟩
    else none
  | _ => none

def digitChars (n : Nat) : List Char := Nat.toDigits 10 n

/-- Write all digits in place, with a point only where a fraction follows it. -/
def toChars (d : Decimal) : List Char :=
  let written := digitChars d.digits
  if d.places == 0 then written
  else
    let padded := List.replicate (d.places + 1 - written.length) '0' ++ written
    let wholeLength := padded.length - d.places
    padded.take wholeLength ++ '.' :: padded.drop wholeLength

def trimZeros : Nat → Nat → Decimal
  | digits, 0 => ⟨digits, 0⟩
  | digits, places + 1 =>
    if digits % 10 == 0 then trimZeros (digits / 10) places else ⟨digits, places + 1⟩

/-- The decimal `digits * 10 ^ exponent`, without zeros at the end of its fraction. -/
def scaled (digits : Nat) (exponent : Int) : Decimal :=
  trimZeros (digits * Nat.pow 10 exponent.toNat) (-exponent).toNat

/-- A positive ratio of natural numbers, the exact value of a positive double. -/
structure Ratio where
  numerator : Nat
  denominator : Nat

/-- The exact value of `mantissa * 2 ^ exponent`. -/
def Ratio.ofBinary (mantissa : Nat) (exponent : Int) : Ratio :=
  ⟨mantissa * Nat.pow 2 exponent.toNat, Nat.pow 2 (-exponent).toNat⟩

/-- The least exponent of ten whose power is above a positive ratio. -/
def Ratio.scale (r : Ratio) : Int :=
  if r.denominator ≤ r.numerator then
    ((digitChars (r.numerator / r.denominator)).length : Int)
  else
    1 - ((digitChars ((r.denominator + r.numerator - 1) / r.numerator - 1)).length : Int)

/-- The two multiples of `10 ^ exponent` around a ratio, the nearer one first; a ratio half way
between them counts as nearer to the upper one. -/
def Ratio.neighbours (r : Ratio) (exponent : Int) : List Decimal :=
  let numerator := r.numerator * Nat.pow 10 (-exponent).toNat
  let denominator := r.denominator * Nat.pow 10 exponent.toNat
  let below := numerator / denominator
  if (2 * below + 1) * denominator ≤ 2 * numerator then
    [scaled (below + 1) exponent, scaled below exponent]
  else
    [scaled below exponent, scaled (below + 1) exponent]

/-- Every finite double is a decimal, if a long one. -/
def exact (mantissa : Nat) (exponent : Int) : Decimal :=
  trimZeros (mantissa * Nat.pow 2 exponent.toNat * Nat.pow 5 (-exponent).toNat) (-exponent).toNat

/-- Seventeen significant digits tell all doubles apart, so the search ends there. -/
def mostDigits : Nat := 17

/-- The decimals tried for a positive double: one significant digit first, then two, and so on. -/
def candidates (mantissa : Nat) (exponent : Int) : List Decimal :=
  let ratio := Ratio.ofBinary mantissa exponent
  let scale := ratio.scale
  (List.range mostDigits).flatMap fun n => ratio.neighbours (scale - ((n + 1 : Nat) : Int))

/-- The decimal with the fewest significant digits that reads back as `mantissa * 2 ^ exponent`,
and of two such the nearer. -/
def shortest (mantissa : Nat) (exponent : Int) : Decimal :=
  let value := Parts.finiteToFloat false mantissa exponent
  ((candidates mantissa exponent).find? fun d => d.toFloat == value).getD
    (exact mantissa exponent)

end Decimal

end NodeQuery.Numeral
