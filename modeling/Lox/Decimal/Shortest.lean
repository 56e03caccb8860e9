import Lox.Decimal.Double

/-!
# Shortest decimals

The shortest decimal of a positive double is the one with the fewest digits
among those that read back as that double, and of these the nearest to it.
The decimals that read back fill an interval around the value, its ends
included exactly when the significand is even.  For one, two, … seventeen
digits the two neighbours of the value on that decimal grid are tried; the
first grid with a neighbour in the interval decides.  Seventeen digits always
suffice.
-/

namespace Lox.Decimal

/-- The number `digits · 10 ^ exponent`. -/
structure Scientific where
  digits : Nat
  exponent : Int
  deriving DecidableEq, Repr

/-- Which neighbour is taken when both are equally near. -/
inductive Tie where
  | up
  | even
  deriving DecidableEq, Repr

/-- The reals that round to a double, together with the double itself, all in
units of `2 ^ scale`. -/
structure Rounding where
  low : Nat
  value : Nat
  high : Nat
  scale : Int
  closed : Bool
  deriving DecidableEq, Repr

namespace Rounding

/-- The interval reaches half way to both neighbouring doubles.  Below a power
of two the neighbour is twice as near, except at the smallest exponent. -/
def ofDouble (significand : Nat) (exponent : Int) : Rounding where
  low := 4 * significand - (if significand == Double.impliedBit && exponent > -1074 then 1 else 2)
  value := 4 * significand
  high := 4 * significand + 2
  scale := exponent - 2
  closed := significand % 2 == 0

/-- Rescales so that the three numbers and the power `10 ^ exponent`, which is
returned beside them, are integers in one unit. -/
def onGrid (rounding : Rounding) (exponent : Int) : Rounding × Nat :=
  let factor := power 2 rounding.scale * power 10 (-exponent)
  let unit := power 2 (-rounding.scale) * power 10 exponent
  ({ rounding with
      low := rounding.low * factor
      value := rounding.value * factor
      high := rounding.high * factor },
    unit)

def contains (rounding : Rounding) (point : Nat) : Bool :=
  if rounding.closed then rounding.low ≤ point && point ≤ rounding.high
  else rounding.low < point && point < rounding.high

/-- The multiple of `10 ^ exponent` next to the value that lies in the interval;
of two the nearer. -/
def pick? (tie : Tie) (rounding : Rounding) (exponent : Int) : Option Scientific :=
  let (scaled, unit) := rounding.onGrid exponent
  let below := scaled.value / unit
  let above := below + 1
  match scaled.contains (below * unit), scaled.contains (above * unit) with
  | false, false => none
  | true, false => some ⟨below, exponent⟩
  | false, true => some ⟨above, exponent⟩
  | true, true =>
    match compare (scaled.value - below * unit) (above * unit - scaled.value) with
    | .lt => some ⟨below, exponent⟩
    | .gt => some ⟨above, exponent⟩
    | .eq => some ⟨if tie == .even && below % 2 == 0 then below else above, exponent⟩

/-- The exponent of the first decimal digit of the value. -/
def leading (rounding : Rounding) : Int :=
  let numerator := rounding.value * power 2 rounding.scale
  let denominator := power 2 (-rounding.scale)
  if denominator ≤ numerator then
    (Nat.toDigits 10 (numerator / denominator)).length - 1
  else
    -(Nat.toDigits 10 ((denominator - 1) / numerator)).length

/-- Tries ever finer grids, `steps` more after the one of `10 ^ exponent`. -/
def search (tie : Tie) (rounding : Rounding) : Nat → Int → Scientific
  | 0, exponent => (rounding.pick? tie exponent).getD ⟨0, 0⟩
  | steps + 1, exponent =>
    (rounding.pick? tie exponent).getD (search tie rounding steps (exponent - 1))

end Rounding

/-- The shortest decimal of the double `significand · 2 ^ exponent`. -/
def shortest (tie : Tie) (significand : Nat) (exponent : Int) : Scientific :=
  let rounding := Rounding.ofDouble significand exponent
  rounding.search tie 16 rounding.leading

end Lox.Decimal
