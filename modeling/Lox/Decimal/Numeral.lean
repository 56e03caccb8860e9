/-!
# Decimal numerals

A numeral is a row of decimal digits, with or without a second row behind a
point.  Its value is the double nearest to the number it writes, a tie going
to the even significand; a numeral beyond the largest double is infinite.
-/

namespace Lox.Decimal

/-- The digits `0` to `9` and no others. -/
def isDigit (c : Char) : Bool :=
  '0' ≤ c && c ≤ '9'

def digitValue (digit : Char) : Nat :=
  digit.toNat - '0'.toNat

/-- The natural number that a row of digits writes. -/
def natOfDigits (digits : List Char) : Nat :=
  digits.foldl (fun value digit => 10 * value + digitValue digit) 0

/-- The double nearest to `whole.fraction · 10 ^ exponent`. -/
def nearest (whole fraction : List Char) (exponent : Int) : Float :=
  let digits := natOfDigits (whole ++ fraction)
  let scale := exponent - fraction.length
  Float.ofScientific digits (scale < 0) scale.natAbs

/-- The value of a numeral: digits, with or without a point and more digits. -/
def ofNumeral (numeral : List Char) : Float :=
  nearest (numeral.takeWhile isDigit) ((numeral.dropWhile isDigit).drop 1) 0

end Lox.Decimal
