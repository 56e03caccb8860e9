import Lox.Failure
import Lox.Value

/-!
# Operators

The results of the prefix and binary operators on values.  Arithmetic is that
of doubles, so a division by zero has a result.
-/

namespace Lox.Value

/-- The result of a prefix operator. -/
def applyUnary (operator : Kind) (operand : Value) : Except RuntimeError Value :=
  match operator with
  | .symbol .minus =>
    match operand with
    | number a => .ok (number (-a))
    | _ => .error .operandNotNumber
  | .symbol .bang => .ok (truth !operand.isTruthy)
  | _ => .error .invalidUnaryOperator

/-- Applies an operation to two numbers. -/
def onNumbers (operation : Float → Float → Value) :
    Value → Value → Except RuntimeError Value
  | number a, number b => .ok (operation a b)
  | _, _ => .error .operandsNotNumbers

/-- Numbers are added and strings joined. -/
def add : Value → Value → Except RuntimeError Value
  | number a, number b => .ok (number (a + b))
  | text a, text b => .ok (text (a ++ b))
  | _, _ => .error .operandsNotAddable

/-- The result of a binary operator. -/
def applyBinary (operator : Kind) (left right : Value) : Except RuntimeError Value :=
  match operator with
  | .symbol .plus => add left right
  | .symbol .minus => onNumbers (fun a b => number (a - b)) left right
  | .symbol .star => onNumbers (fun a b => number (a * b)) left right
  | .symbol .slash => onNumbers (fun a b => number (a / b)) left right
  | .symbol .greater => onNumbers (fun a b => truth (b < a)) left right
  | .symbol .greaterEqual => onNumbers (fun a b => truth (b ≤ a)) left right
  | .symbol .less => onNumbers (fun a b => truth (a < b)) left right
  | .symbol .lessEqual => onNumbers (fun a b => truth (a ≤ b)) left right
  | .symbol .equalEqual => .ok (truth (left.equals right))
  | .symbol .bangEqual => .ok (truth !left.equals right)
  | _ => .error .invalidBinaryOperator

end Lox.Value
