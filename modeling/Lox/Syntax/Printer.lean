import Lox.Syntax
import Lox.Decimal.Layout

/-!
# The parenthesised form of programs

Every expression and statement as a word followed by its parts, in parentheses.
Numbers always show a point: an integer is written out in full and ends in
`.0`.
-/

namespace Lox

def Literal.outline : Literal → String
  | nil => "nil"
  | truth value => if value then "true" else "false"
  | text value => value
  | number value =>
    match Decimal.integer? value with
    | some n =>
      (if n < 0 || Decimal.isNegativeZero value then "-" else "") ++ s!"{n.natAbs}.0"
    | none => Decimal.Layout.plain.render value

/-- A head and its parts, separated by spaces. -/
def parenthesize (head : String) (parts : List String) : String :=
  "(" ++ " ".intercalate (head :: parts) ++ ")"

mutual

def Expr.outline : Expr → String
  | .literal value => value.outline
  | .grouping inner => parenthesize "group" [inner.outline]
  | .unary operator operand => parenthesize operator.lexeme [operand.outline]
  | .binary left operator right =>
    parenthesize operator.lexeme [left.outline, right.outline]
  | .logical left operator right =>
    parenthesize operator.lexeme [left.outline, right.outline]
  | .reference _ name => name.lexeme
  | .assign _ name value => parenthesize "=" [name.lexeme, value.outline]
  | .receiver _ _ => "this"
  | .get object name => parenthesize "." [object.outline, name.lexeme]
  | .set object name value =>
    parenthesize "=" [parenthesize "." [object.outline, name.lexeme], value.outline]
  | .call callee _ arguments =>
    parenthesize "call" (callee.outline :: Expr.outlines arguments)
  | .list _ elements => parenthesize "list" (Expr.outlines elements)
termination_by structural e => e

def Expr.outlines : List Expr → List String
  | [] => []
  | e :: es => e.outline :: Expr.outlines es
termination_by structural es => es

end

/-- A keyword, the name and the parameters of a declaration. -/
def FunctionDecl.heading (keyword : String) (name : Token) (parameters : List Token) :
    String :=
  s!"{keyword} {name.lexeme}(" ++ " ".intercalate (parameters.map Token.lexeme) ++ ")"

mutual

def Stmt.outline : Stmt → String
  | .expression value => parenthesize ";" [value.outline]
  | .print value => parenthesize "print" [value.outline]
  | .declare name none => parenthesize "var" [name.lexeme]
  | .declare name (some initializer) =>
    parenthesize "var" [name.lexeme, initializer.outline]
  | .block body => parenthesize "block" (Stmt.outlines body)
  | .branch condition thenBranch none =>
    parenthesize "if" [condition.outline, thenBranch.outline]
  | .branch condition thenBranch (some elseBranch) =>
    parenthesize "if" [condition.outline, thenBranch.outline, elseBranch.outline]
  | .loop condition body => parenthesize "while" [condition.outline, body.outline]
  | .leave _ => parenthesize "break" []
  | .function declaration => declaration.outline "fun"
  | .giveBack _ none => parenthesize "return" []
  | .giveBack _ (some value) => parenthesize "return" [value.outline]
  | .classDecl name methods =>
    parenthesize "class" (name.lexeme :: FunctionDecl.outlines "method" methods)
termination_by structural s => s

def Stmt.outlines : List Stmt → List String
  | [] => []
  | s :: ss => s.outline :: Stmt.outlines ss
termination_by structural ss => ss

def FunctionDecl.outline (keyword : String) : FunctionDecl → String
  | .mk name parameters body =>
    parenthesize (FunctionDecl.heading keyword name parameters) (Stmt.outlines body)
termination_by structural declaration => declaration

def FunctionDecl.outlines (keyword : String) : List FunctionDecl → List String
  | [] => []
  | d :: ds => d.outline keyword :: FunctionDecl.outlines keyword ds
termination_by structural ds => ds

end

end Lox
