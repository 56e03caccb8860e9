import Lox.Proofs.Syntax.Occurrence
import Lox.Scope

/-!
# Renaming a local name

A variable or a parameter is given another name: its declaration and the
occurrences that are bound by the scope it is declared in.  By which scope an
occurrence is bound is read off the distances that have been recorded.
-/

namespace Lox

/-- A local name and the one it is to have.  The distances are those of the
occurrences in the program. -/
structure Renaming where
  before : String
  after : String
  distances : Distances

namespace Renaming

/-- The token with the new name, if it has the old one. -/
def token (names : Renaming) (token : Token) : Token :=
  if token.lexeme = names.before then { token with lexeme := names.after } else token

/-- An occurrence that is `depth` scopes inside the scope has the new name if that
scope binds it. -/
def occurrence (names : Renaming) (depth id : Nat) (name : Token) : Token :=
  if names.distances[id]? = some depth then names.token name else name

/-- A variable that is declared `depth` scopes inside the scope has the new name if
it is one of that scope. -/
def declared (names : Renaming) (depth : Nat) (name : Token) : Token :=
  if depth = 0 then names.token name else name

end Renaming

variable (names : Renaming)

mutual

/-- The expression is `depth` scopes inside the scope. -/
def Expr.rename (depth : Nat) : Expr → Expr
  | .literal value => .literal value
  | .grouping inner => .grouping (inner.rename depth)
  | .unary operator operand => .unary operator (operand.rename depth)
  | .binary left operator right => .binary (left.rename depth) operator (right.rename depth)
  | .logical left operator right => .logical (left.rename depth) operator (right.rename depth)
  | .reference id name => .reference id (names.occurrence depth id name)
  | .assign id name value => .assign id (names.occurrence depth id name) (value.rename depth)
  | .receiver id keyword => .receiver id keyword
  | .get object name => .get (object.rename depth) name
  | .set object name value => .set (object.rename depth) name (value.rename depth)
  | .call callee closing arguments =>
    .call (callee.rename depth) closing (Expr.renameAll depth arguments)
  | .list closing elements => .list closing (Expr.renameAll depth elements)
termination_by structural e => e

def Expr.renameAll (depth : Nat) : List Expr → List Expr
  | [] => []
  | e :: es => e.rename depth :: Expr.renameAll depth es
termination_by structural es => es

end

mutual

/-- Blocks, functions and class bodies are scopes, so what is inside them is one
scope further inside. -/
def Stmt.rename (depth : Nat) : Stmt → Stmt
  | .expression value => .expression (value.rename names depth)
  | .print value => .print (value.rename names depth)
  | .declare name none => .declare (names.declared depth name) none
  | .declare name (some initializer) =>
    .declare (names.declared depth name) (some (initializer.rename names depth))
  | .block body => .block (Stmt.renameAll (depth + 1) body)
  | .branch condition thenBranch none =>
    .branch (condition.rename names depth) (thenBranch.rename depth) none
  | .branch condition thenBranch (some elseBranch) =>
    .branch (condition.rename names depth) (thenBranch.rename depth)
      (some (elseBranch.rename depth))
  | .loop condition body => .loop (condition.rename names depth) (body.rename depth)
  | .leave keyword => .leave keyword
  | .function declaration => .function (declaration.rename depth)
  | .giveBack keyword none => .giveBack keyword none
  | .giveBack keyword (some value) => .giveBack keyword (some (value.rename names depth))
  | .classDecl name methods => .classDecl name (FunctionDecl.renameAll (depth + 1) methods)
termination_by structural s => s

def Stmt.renameAll (depth : Nat) : List Stmt → List Stmt
  | [] => []
  | s :: ss => s.rename depth :: Stmt.renameAll depth ss
termination_by structural ss => ss

/-- The function stands `depth` scopes inside the scope. -/
def FunctionDecl.rename (depth : Nat) : FunctionDecl → FunctionDecl
  | .mk name parameters body => .mk name parameters (Stmt.renameAll (depth + 1) body)
termination_by structural declaration => declaration

def FunctionDecl.renameAll (depth : Nat) : List FunctionDecl → List FunctionDecl
  | [] => []
  | d :: ds => d.rename depth :: FunctionDecl.renameAll depth ds
termination_by structural ds => ds

end

/-! ## The scope itself -/

/-- One of the statements of a scope declares a variable of the name. -/
def Stmt.DeclaresVariable (name : String) (ss : List Stmt) : Prop :=
  ∃ token initializer, .declare token initializer ∈ ss ∧ token.lexeme = name

/-- A block that declares the variable, before and after. -/
inductive Stmt.Renamed : Stmt → Stmt → Prop where
  | block {body : List Stmt} (hvariable : Stmt.DeclaresVariable names.before body) :
    Renamed (.block body) (.block (Stmt.renameAll names 0 body))

/-- A function whose parameter it is or that declares it in its body.  The two
share one scope. -/
inductive FunctionDecl.Renamed : FunctionDecl → FunctionDecl → Prop where
  | mk (name : Token) {parameters : List Token} {body : List Stmt}
    (hvariable : names.before ∈ parameters.map Token.lexeme ∨
      Stmt.DeclaresVariable names.before body) :
    Renamed (.mk name parameters body)
      (.mk name (parameters.map names.token) (Stmt.renameAll names 0 body))

end Lox
