import Lox.Token

/-!
# Syntax trees

The expressions and statements of a program.  Trees keep the tokens that name
things and those that errors are reported at.  Every occurrence of a variable,
of an assignment to one and of `this` has a number of its own, by which scope
analysis records where the name is bound.
-/

namespace Lox

inductive Literal where
  | nil
  | truth (value : Bool)
  | number (value : Float)
  | text (value : String)
  deriving Repr, Inhabited

inductive Expr where
  | literal (value : Literal)
  | grouping (inner : Expr)
  | unary (operator : Token) (operand : Expr)
  | binary (left : Expr) (operator : Token) (right : Expr)
  | logical (left : Expr) (operator : Token) (right : Expr)
  | reference (id : Nat) (name : Token)
  | assign (id : Nat) (name : Token) (value : Expr)
  | receiver (id : Nat) (keyword : Token)
  | get (object : Expr) (name : Token)
  | set (object : Expr) (name : Token) (value : Expr)
  /-- A call ends in the parenthesis `closing`. -/
  | call (callee : Expr) (closing : Token) (arguments : List Expr)
  /-- A list ends in the bracket `closing`. -/
  | list (closing : Token) (elements : List Expr)
  deriving Repr, Inhabited

mutual

inductive Stmt where
  | expression (value : Expr)
  | print (value : Expr)
  | declare (name : Token) (initializer : Option Expr)
  | block (body : List Stmt)
  | branch (condition : Expr) (thenBranch : Stmt) (elseBranch : Option Stmt)
  | loop (condition : Expr) (body : Stmt)
  | leave (keyword : Token)
  | function (declaration : FunctionDecl)
  | giveBack (keyword : Token) (value : Option Expr)
  | classDecl (name : Token) (methods : List FunctionDecl)

/-- The declaration of a function or method. -/
inductive FunctionDecl where
  | mk (name : Token) (parameters : List Token) (body : List Stmt)

end

instance : Inhabited Stmt := ⟨.block []⟩

instance : Inhabited FunctionDecl := ⟨.mk default [] []⟩

/-- A loop with an initializer, a condition and an increment, any of which may
be missing.  The increment ends each round, the initializer and the loop share
a block, and a missing condition holds. -/
def Stmt.forLoop (initializer : Option Stmt) (condition : Option Expr)
    (increment : Option Expr) (body : Stmt) : Stmt :=
  let round := match increment with
    | some e => .block [body, .expression e]
    | none => body
  let loop := .loop (condition.getD (.literal (.truth true))) round
  match initializer with
  | some s => .block [s, loop]
  | none => loop

namespace FunctionDecl

def name : FunctionDecl → Token
  | mk name _ _ => name

def parameters : FunctionDecl → List Token
  | mk _ parameters _ => parameters

def body : FunctionDecl → List Stmt
  | mk _ _ body => body

def arity (declaration : FunctionDecl) : Nat :=
  declaration.parameters.length

/-- The name of the method that sets up a new instance. -/
def initializerName : String := "init"

/-- Whether a method of this declaration sets up new instances. -/
def isInitializer (declaration : FunctionDecl) : Bool :=
  declaration.name.lexeme == initializerName

end FunctionDecl

end Lox
