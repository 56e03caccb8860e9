import Lox.Proofs.Syntax.Occurrence

/-!
# Replacing a part of a program

A program in which one statement or one function, at any depth, has been replaced
by another.
-/

namespace Lox

section Replacement

variable (statements : Stmt → Stmt → Prop) (functions : FunctionDecl → FunctionDecl → Prop)

mutual

/-- The second statement is the first with one statement in it, or itself, replaced
as `statements` says, or one function as `functions` says. -/
inductive Stmt.Replaced : Stmt → Stmt → Prop where
  | here {s s' : Stmt} (h : statements s s') : Stmt.Replaced s s'
  | block {body body' : List Stmt} (h : Stmt.ReplacedIn body body') :
    Stmt.Replaced (.block body) (.block body')
  | branchThen (condition : Expr) {thenBranch thenBranch' : Stmt} (elseBranch : Option Stmt)
    (h : Stmt.Replaced thenBranch thenBranch') :
    Stmt.Replaced (.branch condition thenBranch elseBranch)
      (.branch condition thenBranch' elseBranch)
  | branchElse (condition : Expr) (thenBranch : Stmt) {elseBranch elseBranch' : Stmt}
    (h : Stmt.Replaced elseBranch elseBranch') :
    Stmt.Replaced (.branch condition thenBranch (some elseBranch))
      (.branch condition thenBranch (some elseBranch'))
  | loop (condition : Expr) {body body' : Stmt} (h : Stmt.Replaced body body') :
    Stmt.Replaced (.loop condition body) (.loop condition body')
  | function {declaration declaration' : FunctionDecl}
    (h : FunctionDecl.Replaced declaration declaration') :
    Stmt.Replaced (.function declaration) (.function declaration')
  | classDecl (name : Token) {methods methods' : List FunctionDecl}
    (h : FunctionDecl.ReplacedIn methods methods') :
    Stmt.Replaced (.classDecl name methods) (.classDecl name methods')

/-- The replacement is in one of the statements. -/
inductive Stmt.ReplacedIn : List Stmt → List Stmt → Prop where
  | head {s s' : Stmt} (h : Stmt.Replaced s s') (ss : List Stmt) :
    Stmt.ReplacedIn (s :: ss) (s' :: ss)
  | tail (s : Stmt) {ss ss' : List Stmt} (h : Stmt.ReplacedIn ss ss') :
    Stmt.ReplacedIn (s :: ss) (s :: ss')

inductive FunctionDecl.Replaced : FunctionDecl → FunctionDecl → Prop where
  | here {d d' : FunctionDecl} (h : functions d d') : FunctionDecl.Replaced d d'
  | body (name : Token) (parameters : List Token) {body body' : List Stmt}
    (h : Stmt.ReplacedIn body body') :
    FunctionDecl.Replaced (.mk name parameters body) (.mk name parameters body')

inductive FunctionDecl.ReplacedIn : List FunctionDecl → List FunctionDecl → Prop where
  | head {d d' : FunctionDecl} (h : FunctionDecl.Replaced d d') (ds : List FunctionDecl) :
    FunctionDecl.ReplacedIn (d :: ds) (d' :: ds)
  | tail (d : FunctionDecl) {ds ds' : List FunctionDecl} (h : FunctionDecl.ReplacedIn ds ds') :
    FunctionDecl.ReplacedIn (d :: ds) (d :: ds')

end

variable {statements functions}

theorem Stmt.Replaced.forLoop {body body' : Stmt} (h : body.Replaced statements functions body')
    (initializer : Option Stmt) (condition increment : Option Expr) :
    (Stmt.forLoop initializer condition increment body).Replaced statements functions
      (.forLoop initializer condition increment body') := by
  cases increment with
  | none =>
      cases initializer with
      | none => exact .loop _ h
      | some _ => exact .block (.tail _ (.head (.loop _ h) _))
  | some _ =>
      cases initializer with
      | none => exact .loop _ (.block (.head h _))
      | some _ => exact .block (.tail _ (.head (.loop _ (.block (.head h _))) _))

end Replacement

section Part

variable {statements : Stmt → Stmt → Prop} {functions : FunctionDecl → FunctionDecl → Prop}
variable {good : Token → Prop} {goal : Prop}

/-- Something follows from every part that can be replaced, if it is formed. -/
structure Stmt.PartsYield (statements : Stmt → Stmt → Prop)
    (functions : FunctionDecl → FunctionDecl → Prop) (good : Token → Prop) (goal : Prop) :
    Prop where
  statement {s s' : Stmt} (h : statements s s') (hformed : s.Formed good) : goal
  function {d d' : FunctionDecl} (h : functions d d') (hformed : d.Formed good) : goal

mutual

/-- In a formed program the part that is replaced is formed. -/
theorem Stmt.Replaced.part (hparts : Stmt.PartsYield statements functions good goal)
    {s s' : Stmt} : s.Replaced statements functions s' → s.Formed good → goal
  | .here h, hformed => hparts.statement h hformed
  | .block h, hformed => h.part hparts hformed
  | .branchThen _ none h, hformed => h.part hparts hformed.2.1
  | .branchThen _ (some _) h, hformed => h.part hparts hformed.2.1.1
  | .branchElse _ _ h, hformed => h.part hparts hformed.2.2.1
  | .loop _ h, hformed => h.part hparts hformed.2.1
  | .function h, hformed => h.part hparts hformed
  | .classDecl _ h, hformed => h.part hparts hformed.2

theorem Stmt.ReplacedIn.part (hparts : Stmt.PartsYield statements functions good goal)
    {ss ss' : List Stmt} :
    Stmt.ReplacedIn statements functions ss ss' → Stmt.FormedAll good ss → goal
  | .head h _, hformed => h.part hparts hformed.1
  | .tail _ h, hformed => h.part hparts hformed.2

theorem FunctionDecl.Replaced.part (hparts : Stmt.PartsYield statements functions good goal)
    {d d' : FunctionDecl} : d.Replaced statements functions d' → d.Formed good → goal
  | .here h, hformed => hparts.function h hformed
  | .body _ _ h, hformed => h.part hparts hformed.2.2

theorem FunctionDecl.ReplacedIn.part (hparts : Stmt.PartsYield statements functions good goal)
    {ds ds' : List FunctionDecl} :
    FunctionDecl.ReplacedIn statements functions ds ds' → FunctionDecl.FormedAll good ds → goal
  | .head h _, hformed => h.part hparts hformed.1
  | .tail _ h, hformed => h.part hparts hformed.2

end

end Part

end Lox
