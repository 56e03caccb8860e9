import Lox.Diagnostic
import Lox.Syntax
import Mathlib.Data.List.Forall2

/-!
# Matching trees

Two trees match if they differ in nothing but the numbers of name occurrences
and the lines of tokens, and these correspond to each other.
-/

namespace Lox

/-- Which numbers of name occurrences, and which lines, of one text correspond to
those of another. -/
structure Correspondence where
  ids : Nat → Nat → Prop
  lines : Nat → Nat → Prop

variable (c : Correspondence)

structure Token.Matches (token token' : Token) : Prop where
  kind : token.kind = token'.kind
  lexeme : token.lexeme = token'.lexeme
  line : c.lines token.line token'.line

inductive Expr.Matches : Expr → Expr → Prop where
  | literal (value : Literal) : Matches (.literal value) (.literal value)
  | grouping {inner inner' : Expr} (hinner : Matches inner inner') :
    Matches (.grouping inner) (.grouping inner')
  | unary {operator operator' : Token} {operand operand' : Expr}
    (hoperator : operator.Matches c operator') (hoperand : Matches operand operand') :
    Matches (.unary operator operand) (.unary operator' operand')
  | binary {left left' right right' : Expr} {operator operator' : Token}
    (hleft : Matches left left') (hoperator : operator.Matches c operator')
    (hright : Matches right right') :
    Matches (.binary left operator right) (.binary left' operator' right')
  | logical {left left' right right' : Expr} {operator operator' : Token}
    (hleft : Matches left left') (hoperator : operator.Matches c operator')
    (hright : Matches right right') :
    Matches (.logical left operator right) (.logical left' operator' right')
  | reference {id id' : Nat} {name name' : Token} (hid : c.ids id id')
    (hname : name.Matches c name') : Matches (.reference id name) (.reference id' name')
  | assign {id id' : Nat} {name name' : Token} {value value' : Expr} (hid : c.ids id id')
    (hname : name.Matches c name') (hvalue : Matches value value') :
    Matches (.assign id name value) (.assign id' name' value')
  | receiver {id id' : Nat} {keyword keyword' : Token} (hid : c.ids id id')
    (hkeyword : keyword.Matches c keyword') :
    Matches (.receiver id keyword) (.receiver id' keyword')
  | get {object object' : Expr} {name name' : Token} (hobject : Matches object object')
    (hname : name.Matches c name') : Matches (.get object name) (.get object' name')
  | set {object object' value value' : Expr} {name name' : Token}
    (hobject : Matches object object') (hname : name.Matches c name')
    (hvalue : Matches value value') : Matches (.set object name value) (.set object' name' value')
  | call {callee callee' : Expr} {closing closing' : Token} {arguments arguments' : List Expr}
    (hcallee : Matches callee callee') (hclosing : closing.Matches c closing')
    (harguments : List.Forall₂ Matches arguments arguments') :
    Matches (.call callee closing arguments) (.call callee' closing' arguments')
  | list {closing closing' : Token} {elements elements' : List Expr}
    (hclosing : closing.Matches c closing')
    (helements : List.Forall₂ Matches elements elements') :
    Matches (.list closing elements) (.list closing' elements')

mutual

inductive Stmt.Matches : Stmt → Stmt → Prop where
  | expression {value value' : Expr} (hvalue : value.Matches c value') :
    Stmt.Matches (.expression value) (.expression value')
  | print {value value' : Expr} (hvalue : value.Matches c value') :
    Stmt.Matches (.print value) (.print value')
  | declare {name name' : Token} {initializer initializer' : Option Expr}
    (hname : name.Matches c name')
    (hinitializer : Option.Rel (Expr.Matches c) initializer initializer') :
    Stmt.Matches (.declare name initializer) (.declare name' initializer')
  | block {body body' : List Stmt} (hbody : List.Forall₂ Stmt.Matches body body') :
    Stmt.Matches (.block body) (.block body')
  | branch {condition condition' : Expr} {thenBranch thenBranch' : Stmt}
    {elseBranch elseBranch' : Option Stmt} (hcondition : condition.Matches c condition')
    (hthen : Stmt.Matches thenBranch thenBranch')
    (helse : Option.Rel Stmt.Matches elseBranch elseBranch') :
    Stmt.Matches (.branch condition thenBranch elseBranch)
      (.branch condition' thenBranch' elseBranch')
  | loop {condition condition' : Expr} {body body' : Stmt}
    (hcondition : condition.Matches c condition') (hbody : Stmt.Matches body body') :
    Stmt.Matches (.loop condition body) (.loop condition' body')
  | leave {keyword keyword' : Token} (hkeyword : keyword.Matches c keyword') :
    Stmt.Matches (.leave keyword) (.leave keyword')
  | function {declaration declaration' : FunctionDecl}
    (hdeclaration : FunctionDecl.Matches declaration declaration') :
    Stmt.Matches (.function declaration) (.function declaration')
  | giveBack {keyword keyword' : Token} {value value' : Option Expr}
    (hkeyword : keyword.Matches c keyword')
    (hvalue : Option.Rel (Expr.Matches c) value value') :
    Stmt.Matches (.giveBack keyword value) (.giveBack keyword' value')
  | classDecl {name name' : Token} {methods methods' : List FunctionDecl}
    (hname : name.Matches c name')
    (hmethods : List.Forall₂ FunctionDecl.Matches methods methods') :
    Stmt.Matches (.classDecl name methods) (.classDecl name' methods')

inductive FunctionDecl.Matches : FunctionDecl → FunctionDecl → Prop where
  | mk {name name' : Token} {parameters parameters' : List Token} {body body' : List Stmt}
    (hname : name.Matches c name')
    (hparameters : List.Forall₂ (Token.Matches c) parameters parameters')
    (hbody : List.Forall₂ Stmt.Matches body body') :
    FunctionDecl.Matches (.mk name parameters body) (.mk name' parameters' body')

end

namespace FunctionDecl.Matches

variable {c : Correspondence} {declaration declaration' : FunctionDecl}

theorem name (h : declaration.Matches c declaration') :
    declaration.name.Matches c declaration'.name := by
  cases h with
  | mk hname _ _ => exact hname

theorem parameters (h : declaration.Matches c declaration') :
    List.Forall₂ (Token.Matches c) declaration.parameters declaration'.parameters := by
  cases h with
  | mk _ hparameters _ => exact hparameters

theorem body (h : declaration.Matches c declaration') :
    List.Forall₂ (Stmt.Matches c) declaration.body declaration'.body := by
  cases h with
  | mk _ _ hbody => exact hbody

theorem arity (h : declaration.Matches c declaration') :
    declaration.arity = declaration'.arity :=
  h.parameters.length_eq

theorem isInitializer (h : declaration.Matches c declaration') :
    declaration.isInitializer = declaration'.isInitializer := by
  rw [FunctionDecl.isInitializer, h.name.lexeme, FunctionDecl.isInitializer]

end FunctionDecl.Matches

end Lox
