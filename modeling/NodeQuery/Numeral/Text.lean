import NodeQuery.Numeral.Decimal
import NodeQuery.Text.Blank

/-!
# Number texts

Numbers are written with the fewest digits that read back, all of them in place, and read from an
optional minus sign before a plain decimal.  A second layout serves inspection: it tells a number
from an integer by a fraction and shortens very large and very small values with an exponent.
-/

namespace NodeQuery.Numeral

def signChars (negative : Bool) : List Char := if negative then ['-'] else []

/-- The text of a number: both zeros are `0`, and every other finite value has its digits in
place. -/
def chars (x : Float) : List Char :=
  match Parts.ofFloat x with
  | .undefined => "NaN".toList
  | .infinite negative => signChars negative ++ "Infinity".toList
  | .finite negative mantissa exponent =>
    if mantissa == 0 then ['0']
    else signChars negative ++ (Decimal.shortest mantissa exponent).toChars

def text (x : Float) : String := String.ofList (chars x)

/-- The number a text stands for once the blanks around it are gone: an optional minus sign and a
plain decimal.  Any other text is undefined as a number. -/
def ofChars (source : List Char) : Float :=
  match Text.trim source with
  | '-' :: rest => ((Decimal.ofChars? rest).map fun d => -d.toFloat).getD undefined
  | rest => ((Decimal.ofChars? rest).map Decimal.toFloat).getD undefined

def ofText (source : String) : Float := ofChars source.toList

def Decimal.leadingExponent (d : Decimal) : Int :=
  ((digitChars d.digits).length : Int) - 1 - d.places

def Decimal.significant (d : Decimal) : List Char :=
  ((digitChars d.digits).reverse.dropWhile (· == '0')).reverse

/-- One digit, the others behind a point, and the exponent of ten. -/
def Decimal.exponentChars (d : Decimal) : List Char :=
  let exponent := "e".toList ++ (toString d.leadingExponent).toList
  match d.significant with
  | [] => '0' :: exponent
  | [digit] => digit :: exponent
  | digit :: others => digit :: '.' :: others ++ exponent

def Decimal.fractionChars (d : Decimal) : List Char :=
  if d.places == 0 then d.toChars ++ ".0".toList else d.toChars

/-- Exponents of the first digit that are written with all digits in place. -/
def isPositional (exponent : Int) : Bool := -4 ≤ exponent && exponent < 16

/-- The text of a number under inspection: zeros keep their sign, whole numbers show a fraction,
and values with many digits before the point or zeros behind it show an exponent. -/
def inspect (x : Float) : String :=
  match Parts.ofFloat x with
  | .undefined => "NaN"
  | .infinite negative => String.ofList (signChars negative ++ "inf".toList)
  | .finite negative mantissa exponent =>
    if mantissa == 0 then String.ofList (signChars negative ++ "0.0".toList)
    else
      let decimal := Decimal.shortest mantissa exponent
      let body := if isPositional decimal.leadingExponent then decimal.fractionChars
        else decimal.exponentChars
      String.ofList (signChars negative ++ body)

end NodeQuery.Numeral
