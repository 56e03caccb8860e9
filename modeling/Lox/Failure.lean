/-!
# Failures of a running program

What can go wrong while a program runs: the causes and the one wording of
each.
-/

namespace Lox

/-- What a built-in function objects to. -/
inductive BuiltinError where
  | notAList (typeName : String)
  | indexNotInteger
  | indexOutOfBounds
  /-- There are fewer arguments than parameters, which no call allows. -/
  | missingArgument
  deriving DecidableEq, Repr

def BuiltinError.message : BuiltinError → String
  | notAList typeName => s!"Expected a list receiver, got {typeName}."
  | indexNotInteger => "Index must be an integer."
  | indexOutOfBounds => "Index out of bounds."
  | missingArgument => "Missing argument."

inductive RuntimeError where
  | undefinedVariable (name : String)
  | undefinedProperty (name : String)
  | operandNotNumber
  | operandsNotNumbers
  | operandsNotAddable
  | notCallable
  | wrongArity (expected : Nat) (got : Nat)
  | noProperties
  | noFields
  | builtin (error : BuiltinError)
  /-- The remaining errors cannot come from a program that was read from text
  and accepted by scope analysis. -/
  | invalidUnaryOperator
  | invalidBinaryOperator
  | breakOutsideLoop
  | returnOutsideFunction
  deriving DecidableEq, Repr

def RuntimeError.message : RuntimeError → String
  | undefinedVariable name => s!"Undefined variable '{name}'."
  | undefinedProperty name => s!"Undefined property '{name}'."
  | operandNotNumber => "Operand must be a number."
  | operandsNotNumbers => "Operands must be numbers."
  | operandsNotAddable => "Operands must be two numbers or two strings."
  | notCallable => "Can only call functions and classes."
  | wrongArity expected got => s!"Expected {expected} arguments but got {got}."
  | noProperties => "Only instances have properties."
  | noFields => "Only instances have fields."
  | builtin error => error.message
  | invalidUnaryOperator => "Invalid unary operator."
  | invalidBinaryOperator => "Invalid binary operator."
  | breakOutsideLoop => "Break outside of loop."
  | returnOutsideFunction => "Return outside of function."

/-- Why a run ends early. -/
inductive Failure where
  | error (line : Nat) (cause : RuntimeError)
  /-- The output accepts no more. -/
  | outputClosed
  deriving DecidableEq, Repr

namespace Failure

/-- The report of an error met on the given line while the program runs. -/
def report (line : Nat) (message : String) : String :=
  s!"{message}\n[line {line}]"

def display : Failure → String
  | error line cause => report line cause.message
  | outputClosed => "closed"

end Failure

end Lox
