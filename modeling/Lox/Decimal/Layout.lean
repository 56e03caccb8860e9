import Lox.Decimal.Shortest

/-!
# Layouts of numbers

A layout says how the shortest decimal of a double is written: which numbers
are written without an exponent, whether an integer keeps a point, and how
infinities and NaN are spelt.
-/

namespace Lox.Decimal

structure Layout where
  /-- The exponents of the first digit, from the first up to but not including
  the second, that are written positionally; all of them if there is none. -/
  positional : Option (Int × Int)
  /-- Whether an integer written positionally ends in `.0`. -/
  pointed : Bool
  /-- Whether an exponent that is not negative has a plus sign. -/
  signed : Bool
  tie : Tie
  nan : String
  /-- The spelling of infinity, by whether it is negative. -/
  infinite : Bool → String

namespace Layout

def zeros (count : Nat) : String :=
  String.ofList (List.replicate count '0')

/-- Writes `0.digits · 10 ^ point` without an exponent. -/
def place (pointed : Bool) (digits : String) (point : Int) : String :=
  if point ≤ 0 then "0." ++ zeros (-point).toNat ++ digits
  else if point < digits.length then
    String.ofList (digits.toList.take point.toNat) ++ "." ++
      String.ofList (digits.toList.drop point.toNat)
  else
    digits ++ zeros (point - digits.length).toNat ++ if pointed then ".0" else ""

/-- Writes `0.digits · 10 ^ (exponent + 1)` with one digit before the point. -/
def scientific (signed : Bool) (digits : String) (exponent : Int) : String :=
  let first := String.ofList (digits.toList.take 1)
  let further := String.ofList (digits.toList.drop 1)
  let sign := if signed && 0 ≤ exponent then "+" else ""
  first ++ (if further.isEmpty then "" else "." ++ further) ++ "e" ++ sign ++ toString exponent

/-- Digits without the zeros at their end. -/
def trim (digits : String) : String :=
  String.ofList (digits.toList.reverse.dropWhile (· == '0')).reverse

/-- Writes the magnitude of a finite double. -/
def magnitude (layout : Layout) (significand : Nat) (exponent : Int) : String :=
  if significand == 0 then place layout.pointed "0" 1
  else
    let decimal := shortest layout.tie significand exponent
    let written := toString decimal.digits
    let point := decimal.exponent + written.length
    let digits := trim written
    let isPositional :=
      match layout.positional with
      | none => true
      | some (low, high) => low ≤ point - 1 && point - 1 < high
    if isPositional then place layout.pointed digits point
    else scientific layout.signed digits (point - 1)

def render (layout : Layout) (x : Float) : String :=
  match Double.ofFloat x with
  | .nan => layout.nan
  | .infinite negative => layout.infinite negative
  | .finite negative significand exponent =>
    (if negative then "-" else "") ++ layout.magnitude significand exponent

/-- The plainest layout: never an exponent, and no point in an integer. -/
def plain : Layout where
  positional := none
  pointed := false
  signed := false
  tie := .up
  nan := "NaN"
  infinite negative := if negative then "-inf" else "inf"

end Layout

end Lox.Decimal
