import Lox.Token

/-!
# Diagnostics

What can be wrong with a program before it runs: the causes, grouped by the
stage that finds them, and the one wording of each.  A lexical error is placed
by its line; all others are placed at a token.
-/

namespace Lox

inductive LexicalError where
  | unexpected (character : Char)
  | unterminatedString
  deriving DecidableEq, Repr

def LexicalError.message : LexicalError → String
  | unexpected c => s!"Unexpected character: {c}"
  | unterminatedString => "Unterminated string."

/-- The two forms of callable that a program declares by name. -/
inductive CallableForm where
  | function
  | method
  deriving DecidableEq, Repr

def CallableForm.name : CallableForm → String
  | function => "function"
  | method => "method"

/-- What the grammar asks for at a token that cannot stand there. -/
inductive Expectation where
  | expression
  | className
  | classOpening
  | classClosing
  | callableName (form : CallableForm)
  | parametersOpening (form : CallableForm)
  | parameterName
  | parametersClosing
  | bodyOpening (form : CallableForm)
  | variableName
  | endOfVariable
  | forOpening
  | endOfForCondition
  | forClosing
  | endOfPrint
  | endOfExpression
  | ifOpening
  | ifClosing
  | whileOpening
  | whileClosing
  | endOfBreak
  | endOfReturn
  | blockClosing
  | propertyName
  | argumentsClosing
  | groupClosing
  | listClosing
  deriving DecidableEq, Repr

def Expectation.phrase : Expectation → String
  | expression => "expression"
  | className => "class name"
  | classOpening => "'\x7b' before class body"
  | classClosing => "'\x7d' after class body"
  | callableName form => form.name ++ " name"
  | parametersOpening form => "'(' after " ++ form.name ++ " name"
  | parameterName => "parameter name"
  | parametersClosing => "')' after parameters"
  | bodyOpening form => "'\x7b' before " ++ form.name ++ " body"
  | variableName => "variable name"
  | endOfVariable => "';' after variable declaration"
  | forOpening => "'(' after 'for'"
  | endOfForCondition => "';' after loop condition"
  | forClosing => "')' after for clauses"
  | endOfPrint => "';' after value"
  | endOfExpression => "';' after expression"
  | ifOpening => "'(' after 'if'"
  | ifClosing => "')' after if condition"
  | whileOpening => "'(' after 'while'"
  | whileClosing => "')' after condition"
  | endOfBreak => "';' after 'break'"
  | endOfReturn => "';' after return value"
  | blockClosing => "'\x7d' after block"
  | propertyName => "property name after '.'"
  | argumentsClosing => "')' after arguments"
  | groupClosing => "')' after expression"
  | listClosing => "']' after list elements"

/-- The largest number of parameters, arguments or list elements. -/
def maxArity : Nat := 255

/-- Only `expected` interrupts the statement it is found in; the other errors
leave no doubt about how the program goes on. -/
inductive SyntaxError where
  | expected (what : Expectation)
  | invalidAssignmentTarget
  | tooManyParameters
  | tooManyArguments
  deriving DecidableEq, Repr

def SyntaxError.message : SyntaxError → String
  | expected what => "Expect " ++ what.phrase ++ "."
  | invalidAssignmentTarget => "Invalid assignment target."
  | tooManyParameters => s!"Can't have more than {maxArity} parameters."
  | tooManyArguments => s!"Can't have more than {maxArity} arguments."

inductive ScopeError where
  | breakOutsideLoop
  | returnAtTopLevel
  | returnFromInitializer
  | thisOutsideClass
  | alreadyDeclared
  | ownInitializer
  deriving DecidableEq, Repr

def ScopeError.message : ScopeError → String
  | breakOutsideLoop => "Can only break out of loops."
  | returnAtTopLevel => "Can't return from top-level code."
  | returnFromInitializer => "Can't return a value from an initializer."
  | thisOutsideClass => "Can't use 'this' outside of a class."
  | alreadyDeclared => "Already a variable with this name in this scope."
  | ownInitializer => "Can't read local variable in its own initializer."

/-- An error in the program text. -/
inductive Diagnostic where
  | lexical (line : Nat) (error : LexicalError)
  | syntactic (token : Token) (error : SyntaxError)
  | scoping (token : Token) (error : ScopeError)
  deriving Repr

/-- How an error at a token names the place. -/
def Token.place (token : Token) : String :=
  if token.is .endOfFile then " at end" else s!" at '{token.lexeme}'"

namespace Diagnostic

def message : Diagnostic → String
  | lexical _ error => error.message
  | syntactic _ error => error.message
  | scoping _ error => error.message

def line : Diagnostic → Nat
  | lexical line _ => line
  | syntactic token _ => token.line
  | scoping token _ => token.line

/-- The place within the line, where it is known. -/
def place? : Diagnostic → Option String
  | lexical _ _ => none
  | syntactic token _ => some token.place
  | scoping token _ => some token.place

/-- The report of an error in the program text. -/
def report (line : Nat) (place message : String) : String :=
  s!"[line {line}] Error{place}: {message}"

def display (diagnostic : Diagnostic) : String :=
  report diagnostic.line (diagnostic.place?.getD "") diagnostic.message

end Diagnostic

end Lox
