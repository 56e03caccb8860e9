import Lox.Proofs.Syntax.Grammar
import Mathlib.Data.List.Forall2

/-!
# Canonical trees and how they are written

A tree is written out as a row of leaves, each of which stands for one token.
The tokens that a tree records stand for themselves; of the others only the kind
is known.  A tree is canonical if the grammar can give it back when it is written
without further parentheses: operators bind as tight as where they stand, and no
`else` could be taken for that of another condition.
-/

namespace Lox

/-- How tight a binary operator binds, from 1 for the loosest on. -/
def Symbol.tightness? : Symbol → Option Nat
  | .orWord => some 1
  | .andWord => some 2
  | .bangEqual | .equalEqual => some 3
  | .greater | .greaterEqual | .less | .lessEqual => some 4
  | .minus | .plus => some 5
  | .slash | .star => some 6
  | _ => none

def Token.tightness? (token : Token) : Option Nat :=
  match token.kind with
  | .symbol s => s.tightness?
  | _ => none

/-! ## Leaves -/

/-- What stands for one token of a tree. -/
inductive Leaf where
  /-- A token that the tree records. -/
  | token (token : Token)
  /-- A token of which the tree only gives the kind. -/
  | kind (kind : Kind)

namespace Leaf

abbrev symbol (symbol : Symbol) : Leaf :=
  .kind (.symbol symbol)

def Fits : Leaf → Token → Prop
  | .token recorded, found => found = recorded
  | .kind expected, found => found.kind = expected

/-- The tokens are those of the leaves, one by one. -/
abbrev FitAll (leaves : List Leaf) (tokens : List Token) : Prop :=
  List.Forall₂ Leaf.Fits leaves tokens

end Leaf

mutual

/-- The leaves of an expression, from left to right. -/
def Expr.leaves : Expr → List Leaf
  | .literal value => [.kind value.kind]
  | .grouping inner => .symbol .leftParen :: (inner.leaves ++ [.symbol .rightParen])
  | .unary operator operand => .token operator :: operand.leaves
  | .binary left operator right => left.leaves ++ .token operator :: right.leaves
  | .logical left operator right => left.leaves ++ .token operator :: right.leaves
  | .reference _ name => [.token name]
  | .assign _ name value => .token name :: .symbol .equal :: value.leaves
  | .receiver _ keyword => [.token keyword]
  | .get object name => object.leaves ++ [.symbol .dot, .token name]
  | .set object name value =>
    object.leaves ++ .symbol .dot :: .token name :: .symbol .equal :: value.leaves
  | .call callee closing arguments =>
    callee.leaves ++ .symbol .leftParen :: (Expr.leavesAll arguments ++ [.token closing])
  | .list closing elements =>
    .symbol .leftBracket :: (Expr.leavesAll elements ++ [.token closing])
termination_by structural e => e

/-- Expressions separated by commas. -/
def Expr.leavesAll : List Expr → List Leaf
  | [] => []
  | [e] => e.leaves
  | e :: e' :: es => e.leaves ++ .symbol .comma :: Expr.leavesAll (e' :: es)
termination_by structural es => es

end

/-- Names separated by commas. -/
def Token.leavesAll : List Token → List Leaf
  | [] => []
  | [name] => [.token name]
  | name :: name' :: names => .token name :: .symbol .comma :: Token.leavesAll (name' :: names)

mutual

def Stmt.leaves : Stmt → List Leaf
  | .expression value => value.leaves ++ [.symbol .semicolon]
  | .print value => .symbol .printWord :: (value.leaves ++ [.symbol .semicolon])
  | .declare name none => [.symbol .varWord, .token name, .symbol .semicolon]
  | .declare name (some initializer) =>
    .symbol .varWord :: .token name :: .symbol .equal ::
      (initializer.leaves ++ [.symbol .semicolon])
  | .block body => .symbol .leftBrace :: (Stmt.leavesAll body ++ [.symbol .rightBrace])
  | .branch condition thenBranch none =>
    .symbol .ifWord :: .symbol .leftParen ::
      (condition.leaves ++ .symbol .rightParen :: thenBranch.leaves)
  | .branch condition thenBranch (some elseBranch) =>
    .symbol .ifWord :: .symbol .leftParen :: (condition.leaves ++ .symbol .rightParen ::
      (thenBranch.leaves ++ .symbol .elseWord :: elseBranch.leaves))
  | .loop condition body =>
    .symbol .whileWord :: .symbol .leftParen ::
      (condition.leaves ++ .symbol .rightParen :: body.leaves)
  | .leave keyword => [.token keyword, .symbol .semicolon]
  | .function declaration => .symbol .funWord :: declaration.leaves
  | .giveBack keyword none => [.token keyword, .symbol .semicolon]
  | .giveBack keyword (some value) => .token keyword :: (value.leaves ++ [.symbol .semicolon])
  | .classDecl name methods =>
    .symbol .classWord :: .token name :: .symbol .leftBrace ::
      (FunctionDecl.leavesAll methods ++ [.symbol .rightBrace])
termination_by structural s => s

def Stmt.leavesAll : List Stmt → List Leaf
  | [] => []
  | s :: ss => s.leaves ++ Stmt.leavesAll ss
termination_by structural ss => ss

def FunctionDecl.leaves : FunctionDecl → List Leaf
  | .mk name parameters body =>
    .token name :: .symbol .leftParen :: (Token.leavesAll parameters ++ .symbol .rightParen ::
      .symbol .leftBrace :: (Stmt.leavesAll body ++ [.symbol .rightBrace]))
termination_by structural declaration => declaration

def FunctionDecl.leavesAll : List FunctionDecl → List Leaf
  | [] => []
  | d :: ds => d.leaves ++ FunctionDecl.leavesAll ds
termination_by structural ds => ds

end

/-! ## Canonical form -/

/-- How tight an expression holds together: assignments are the loosest, then
come the binary operators, then those in front of an operand, then calls. -/
def Expr.tightness : Expr → Nat
  | .assign _ _ _ | .set _ _ _ => 0
  | .binary _ operator _ | .logical _ operator _ => operator.tightness?.getD 0
  | .unary _ _ => 7
  | .literal _ | .grouping _ | .reference _ _ | .receiver _ _ | .get _ _ | .call _ _ _
  | .list _ _ => 8

/-- The operator is one of `level`, its left operand holds together at least as
tight and its right operand tighter. -/
structure Expr.Balanced (level : Nat) (left : Expr) (operator : Token) (right : Expr) : Prop where
  operator : operator.tightness? = some level
  left : level ≤ left.tightness
  right : level < right.tightness

mutual

def Expr.Canonical : Expr → Prop
  | .literal _ => True
  | .grouping inner => inner.Canonical
  | .unary operator operand =>
    operator.isAny Parser.negations ∧ 7 ≤ operand.tightness ∧ operand.Canonical
  | .binary left operator right =>
    (∃ level, 2 < level ∧ Expr.Balanced level left operator right) ∧
      left.Canonical ∧ right.Canonical
  | .logical left operator right =>
    (∃ level, level ≤ 2 ∧ Expr.Balanced level left operator right) ∧
      left.Canonical ∧ right.Canonical
  | .reference _ name => name.is .identifier
  | .assign _ name value => name.is .identifier ∧ value.Canonical
  | .receiver _ keyword => keyword.is .thisWord
  | .get object name => 8 ≤ object.tightness ∧ object.Canonical ∧ name.is .identifier
  | .set object name value =>
    8 ≤ object.tightness ∧ object.Canonical ∧ name.is .identifier ∧ value.Canonical
  | .call callee closing arguments =>
    8 ≤ callee.tightness ∧ callee.Canonical ∧ closing.is .rightParen ∧
      arguments.length ≤ maxArity ∧ Expr.CanonicalAll arguments
  | .list closing elements =>
    closing.is .rightBracket ∧ elements.length ≤ maxArity ∧ Expr.CanonicalAll elements
termination_by structural e => e

def Expr.CanonicalAll : List Expr → Prop
  | [] => True
  | e :: es => e.Canonical ∧ Expr.CanonicalAll es
termination_by structural es => es

end

/-- The statement ends in a condition without an `else`, which an `else` after it
would belong to. -/
def Stmt.isOpen : Stmt → Bool
  | .branch _ _ none => true
  | .branch _ _ (some elseBranch) => elseBranch.isOpen
  | .loop _ body => body.isOpen
  | .expression _ | .print _ | .declare _ _ | .block _ | .leave _ | .function _ | .giveBack _ _
  | .classDecl _ _ => false
termination_by structural s => s

mutual

def Stmt.Canonical : Stmt → Prop
  | .expression value => value.Canonical
  | .print value => value.Canonical
  | .declare name none => name.is .identifier
  | .declare name (some initializer) => name.is .identifier ∧ initializer.Canonical
  | .block body => Stmt.CanonicalAll body
  | .branch condition thenBranch none =>
    condition.Canonical ∧ thenBranch.Canonical ∧ thenBranch.declared? = none
  | .branch condition thenBranch (some elseBranch) =>
    condition.Canonical ∧
      (thenBranch.Canonical ∧ thenBranch.declared? = none ∧ thenBranch.isOpen = false) ∧
      elseBranch.Canonical ∧ elseBranch.declared? = none
  | .loop condition body => condition.Canonical ∧ body.Canonical ∧ body.declared? = none
  | .leave keyword => keyword.is .breakWord
  | .function declaration => declaration.Canonical
  | .giveBack keyword none => keyword.is .returnWord
  | .giveBack keyword (some value) => keyword.is .returnWord ∧ value.Canonical
  | .classDecl name methods => name.is .identifier ∧ FunctionDecl.CanonicalAll methods
termination_by structural s => s

def Stmt.CanonicalAll : List Stmt → Prop
  | [] => True
  | s :: ss => s.Canonical ∧ Stmt.CanonicalAll ss
termination_by structural ss => ss

def FunctionDecl.Canonical : FunctionDecl → Prop
  | .mk name parameters body =>
    name.is .identifier ∧ parameters.length ≤ maxArity ∧
      (∀ parameter ∈ parameters, parameter.is .identifier) ∧ Stmt.CanonicalAll body
termination_by structural declaration => declaration

def FunctionDecl.CanonicalAll : List FunctionDecl → Prop
  | [] => True
  | d :: ds => d.Canonical ∧ FunctionDecl.CanonicalAll ds
termination_by structural ds => ds

end

/-! ## Levels and tightness -/

/-- The tightness of the first of the levels that end the table. -/
def Level.rank (levels : List Level) : Nat :=
  7 - levels.length

/-- The operators of a level are those of its rank, and the levels that do not
evaluate both operands are the two loosest. -/
theorem Level.tightness_of_isAny {level : Level} {tighter : List Level} {operator : Token}
    (h : level :: tighter <:+ Level.all) (hoperator : operator.isAny level.operators) :
    operator.tightness? = some (Level.rank (level :: tighter)) ∧
      (level.isLogical ↔ Level.rank (level :: tighter) ≤ 2) := by
  have hall : ∀ step ∈ Level.steps,
      (∀ symbol ∈ step.1.operators,
        symbol.tightness? = some (Level.rank (step.1 :: step.2))) ∧
        (step.1.isLogical ↔ Level.rank (step.1 :: step.2) ≤ 2) := by
    decide
  obtain ⟨hsymbols, hlogical⟩ := hall _ (Level.mem_steps h)
  obtain ⟨symbol, hsymbol, his⟩ := List.any_eq_true.1 hoperator
  refine ⟨?_, hlogical⟩
  rw [Token.tightness?, Grammar.kind_of_is his]
  exact hsymbols symbol hsymbol

/-- Every binary operator stands in the table, on the level of its rank. -/
theorem Level.exists_of_tightness {operator : Token} {rank : Nat}
    (h : operator.tightness? = some rank) :
    ∃ level tighter, level :: tighter <:+ Level.all ∧ operator.isAny level.operators ∧
      Level.rank (level :: tighter) = rank := by
  have hall : ∀ symbol : Symbol, symbol.tightness? = none ∨ ∃ step ∈ Level.steps,
      symbol ∈ step.1.operators ∧
        symbol.tightness? = some (Level.rank (step.1 :: step.2)) := by
    intro symbol
    cases symbol <;> decide
  unfold Token.tightness? at h
  split at h
  · rename_i symbol hkind
    rcases hall symbol with hnone | ⟨⟨level, tighter⟩, hstep, hsymbol, hrank⟩
    · rw [hnone] at h
      cases h
    · refine ⟨level, tighter, Level.suffix_of_mem_steps hstep, ?_, ?_⟩
      · exact List.any_eq_true.2 ⟨symbol, hsymbol, Grammar.is_of_kind hkind⟩
      · exact Option.some.inj (hrank.symm.trans h)
  · cases h

end Lox
