/-!
# Exact parts of a double

A finite double is a natural mantissa times a power of two.  Reading the parts off the bits lets
rounding down and the remainder be computed with natural numbers and put together again without a
second rounding, so their results are exact by construction and can be evaluated inside proofs.
-/

namespace NodeQuery.Numeral

/-- A double taken apart: a finite one is `mantissa * 2 ^ exponent` with its sign beside it. -/
inductive Parts where
  | undefined
  | infinite (negative : Bool)
  | finite (negative : Bool) (mantissa : Nat) (exponent : Int)
deriving DecidableEq, Repr

namespace Parts

/-- The least exponent a double can have; subnormal values share it. -/
def leastExponent : Int := -1074

/-- Read the parts off the sign, exponent and fraction fields. -/
def ofFloat (x : Float) : Parts :=
  let bits := x.toBits.toNat
  let negative := bits / Nat.pow 2 63 == 1
  let exponentField : Nat := bits / Nat.pow 2 52 % Nat.pow 2 11
  let fraction := bits % Nat.pow 2 52
  if exponentField == 2047 then
    if fraction == 0 then .infinite negative else .undefined
  else if exponentField == 0 then
    .finite negative fraction leastExponent
  else
    .finite negative (Nat.pow 2 52 + fraction) (exponentField - 1075)

def signBit (negative : Bool) : Nat := if negative then Nat.pow 2 63 else 0

/-- The double that is `mantissa * 2 ^ exponent`, for a mantissa below `2 ^ 53` and an exponent that
is not below the least one.  The mantissa is shifted up as far as both limits allow, which gives
the one stored form of the value. -/
def finiteToFloat (negative : Bool) (mantissa : Nat) (exponent : Int) : Float :=
  let shift := min (52 - mantissa.log2) (exponent - leastExponent).toNat
  let stored := mantissa * Nat.pow 2 shift
  let exponentField := (exponent - shift - leastExponent).toNat
  if mantissa == 0 then
    Float.ofBits (signBit negative).toUInt64
  else if stored < Nat.pow 2 52 then
    Float.ofBits (signBit negative + stored).toUInt64
  else
    Float.ofBits
      (signBit negative + (exponentField + 1) * Nat.pow 2 52 + (stored - Nat.pow 2 52)).toUInt64

end Parts

def undefined : Float := 0.0 / 0.0

/-- The greatest integer that is not above `x`; values without a fraction stay as they are. -/
def floor (x : Float) : Float :=
  match Parts.ofFloat x with
  | .finite negative mantissa exponent =>
    if 0 ≤ exponent ∨ mantissa = 0 then x
    else
      let signed : Int := if negative then -(mantissa : Int) else mantissa
      Float.ofInt (signed.fdiv (Nat.pow 2 (-exponent).toNat))
  | _ => x

/-- Round to the nearest integer by adding a half and rounding down; undefined and infinite values
stay as they are. -/
def round (x : Float) : Float :=
  if x.isNaN || x.isInf then x else floor (x + 0.5)

/-- What is left of `x` after taking `y` away as often as it goes in, with the sign of `x`. -/
def remainder (x y : Float) : Float :=
  match Parts.ofFloat x, Parts.ofFloat y with
  | .finite negative dividend dividendExponent, .finite _ divisor divisorExponent =>
    if divisor == 0 then undefined
    else
      let exponent := min dividendExponent divisorExponent
      let rest := (dividend * Nat.pow 2 (dividendExponent - exponent).toNat) %
        (divisor * Nat.pow 2 (divisorExponent - exponent).toNat)
      Parts.finiteToFloat negative rest exponent
  | .finite .., .infinite _ => x
  | _, _ => undefined

end NodeQuery.Numeral
