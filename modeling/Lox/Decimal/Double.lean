/-!
# Doubles taken apart

A finite double is a sign, a significand `m` and a binary exponent `q`, and its
magnitude is exactly `m · 2 ^ q`.  All text of numbers is made from these two
integers.
-/

namespace Lox.Decimal

/-- The power `base ^ exponent`, or 1 if the exponent is negative.  A quotient
of two such powers is any integer power. -/
def power (base : Nat) (exponent : Int) : Nat :=
  Nat.pow base exponent.toNat

inductive Double where
  | nan
  | infinite (negative : Bool)
  | finite (negative : Bool) (significand : Nat) (exponent : Int)
  deriving DecidableEq, Repr

namespace Double

/-- The leading bit of a significand of 53 bits, which normal doubles imply. -/
def impliedBit : Nat :=
  power 2 52

/-- Reads the sign bit, the eleven bits of the exponent and the 52 bits of the
fraction.  The exponent field 0 marks subnormal doubles, which have no implied
leading bit; its largest value marks infinities and NaN. -/
def ofFloat (x : Float) : Double :=
  let bits := x.toBits.toNat
  let negative := bits / power 2 63 == 1
  let exponent : Nat := bits / impliedBit % 2048
  let fraction : Nat := bits % impliedBit
  if exponent == 2047 then
    if fraction == 0 then infinite negative else nan
  else if exponent == 0 then finite negative fraction (-1074)
  else finite negative (impliedBit + fraction) (exponent - 1075)

/-- The magnitude `m · 2 ^ q` if it is a natural number. -/
def magnitude? (significand : Nat) (exponent : Int) : Option Nat :=
  let numerator := significand * power 2 exponent
  let denominator := power 2 (-exponent)
  if numerator % denominator == 0 then some (numerator / denominator) else none

end Double

/-- The value of a double that is an integer; both zeros give 0. -/
def integer? (x : Float) : Option Int :=
  match Double.ofFloat x with
  | .finite negative significand exponent =>
    (Double.magnitude? significand exponent).map fun magnitude =>
      if negative then -(magnitude : Int) else magnitude
  | _ => none

/-- The value of a double that is an integer of magnitude below `2 ^ 63`. -/
def smallInteger? (x : Float) : Option Int :=
  (integer? x).filter fun n => n.natAbs < power 2 63

def isNegativeZero (x : Float) : Bool :=
  match Double.ofFloat x with
  | .finite true 0 _ => true
  | _ => false

end Lox.Decimal
