import Lox.Proofs.Syntax.Occurrence
import Mathlib.Data.List.Infix

/-!
# The grammar as a relation

Which tokens derive which tree.  A derivation also threads the number of the
next name occurrence: `Expression lower tokens upper e` says that `tokens`
derive `e` when `lower` is the next number before them and `upper` the next one
after them.  Binary operators are derived level by level, the loosest first.  A
statement that is `dangling` ends in a condition without an `else`, which an
`else` after it would belong to.
-/

namespace Lox

/-- The kind of token that a literal is written as. -/
def Literal.kind : Literal → Kind
  | .nil => .symbol .nilWord
  | .truth true => .symbol .trueWord
  | .truth false => .symbol .falseWord
  | .number value => .number value
  | .text value => .text value

/-- Each level of operators with those that bind tighter. -/
def Level.steps : List (Level × List Level) :=
  Level.all.tails.filterMap fun levels => levels.head?.map (·, levels.tail)

theorem Level.mem_steps {level : Level} {tighter : List Level}
    (h : level :: tighter <:+ Level.all) : (level, tighter) ∈ Level.steps :=
  List.mem_filterMap.2 ⟨level :: tighter, (List.mem_tails _ _).2 h, rfl⟩

theorem Level.suffix_of_mem_steps {level : Level} {tighter : List Level}
    (h : (level, tighter) ∈ Level.steps) : level :: tighter <:+ Level.all := by
  obtain ⟨levels, hlevels, hsome⟩ := List.mem_filterMap.1 h
  cases levels with
  | nil => cases hsome
  | cons other others =>
      cases hsome
      exact (List.mem_tails _ _).1 hlevels

namespace Grammar

/-! ## Expressions -/

mutual

inductive Expression : Nat → List Token → Nat → Expr → Prop
  | operand {lower upper tokens e} :
      Operand Level.all lower tokens upper e → Expression lower tokens upper e
  /-- The target has taken a number as a variable; the assignment takes one of
  its own after its value. -/
  | assign {lower upper name equals tokens value} :
      name.is .identifier → equals.is .equal → Expression (lower + 1) tokens upper value →
      Expression lower (name :: equals :: tokens) (upper + 1) (.assign upper name value)
  | set {lower middle upper before object dot name equals tokens value} :
      Call lower before middle object → dot.is .dot → name.is .identifier → equals.is .equal →
      Expression middle tokens upper value →
      Expression lower (before ++ dot :: name :: equals :: tokens) upper (.set object name value)

/-- An operand of the operators looser than the given levels. -/
inductive Operand : List Level → Nat → List Token → Nat → Expr → Prop
  | tighter {level tighter lower upper tokens e} :
      Operand tighter lower tokens upper e → Operand (level :: tighter) lower tokens upper e
  | joined {level tighter lower middle upper before operator after left right} :
      Operand (level :: tighter) lower before middle left → operator.isAny level.operators →
      Operand tighter middle after upper right →
      Operand (level :: tighter) lower (before ++ operator :: after) upper
        (level.build left operator right)
  | unary {lower upper operator tokens operand} :
      operator.isAny Parser.negations → Operand [] lower tokens upper operand →
      Operand [] lower (operator :: tokens) upper (.unary operator operand)
  | call {lower upper tokens e} : Call lower tokens upper e → Operand [] lower tokens upper e

/-- A primary expression with the calls and properties that follow it. -/
inductive Call : Nat → List Token → Nat → Expr → Prop
  | literal {next token} {value : Literal} :
      token.kind = value.kind → Call next [token] next (.literal value)
  | reference {next name} :
      name.is .identifier → Call next [name] (next + 1) (.reference next name)
  | receiver {next keyword} :
      keyword.is .thisWord → Call next [keyword] (next + 1) (.receiver next keyword)
  | grouping {lower upper opening tokens closing inner} :
      opening.is .leftParen → Expression lower tokens upper inner → closing.is .rightParen →
      Call lower (opening :: (tokens ++ [closing])) upper (.grouping inner)
  | list {lower upper opening tokens closing elements} :
      opening.is .leftBracket → Arguments lower tokens upper elements →
      closing.is .rightBracket →
      Call lower (opening :: (tokens ++ [closing])) upper (.list closing elements)
  | call {lower middle upper before opening tokens closing callee arguments} :
      Call lower before middle callee → opening.is .leftParen →
      Arguments middle tokens upper arguments → closing.is .rightParen →
      Call lower (before ++ opening :: (tokens ++ [closing])) upper
        (.call callee closing arguments)
  | get {lower upper tokens dot name object} :
      Call lower tokens upper object → dot.is .dot → name.is .identifier →
      Call lower (tokens ++ [dot, name]) upper (.get object name)

inductive Arguments : Nat → List Token → Nat → List Expr → Prop
  | none {next} : Arguments next [] next []
  | some {lower upper tokens es} :
      Sequence lower tokens upper es → es.length ≤ maxArity → Arguments lower tokens upper es

/-- One or more expressions separated by commas. -/
inductive Sequence : Nat → List Token → Nat → List Expr → Prop
  | last {lower upper tokens e} :
      Expression lower tokens upper e → Sequence lower tokens upper [e]
  | cons {lower middle upper tokens comma further e es} :
      Expression lower tokens middle e → comma.is .comma → Sequence middle further upper es →
      Sequence lower (tokens ++ comma :: further) upper (e :: es)

end

/-- Whether an expression is what the grammar derives as a call. -/
def isCall : Expr → Bool
  | .literal _ | .grouping _ | .reference _ _ | .receiver _ _ | .get _ _ | .call _ _ _
  | .list _ _ => true
  | .unary _ _ | .binary _ _ _ | .logical _ _ _ | .assign _ _ _ | .set _ _ _ => false

theorem isCall_build (level : Level) (left right : Expr) (operator : Token) :
    isCall (level.build left operator right) = false := by
  rw [Level.build]
  split <;> rfl

/-- An operand that is no operation is a call. -/
theorem Operand.toCall {levels : List Level} {lower upper : Nat} {tokens : List Token} {e : Expr} :
    Operand levels lower tokens upper e → isCall e → Call lower tokens upper e
  | .tighter h, hcall => h.toCall hcall
  | .joined _ _ _, hcall => by simp [isCall_build] at hcall
  | .unary _ _, hcall => by cases hcall
  | .call h, _ => h

/-- An operand of tighter operators is one of looser operators. -/
theorem Operand.loosen {levels levels' : List Level} {lower upper : Nat}
    {tokens : List Token} {e : Expr} (hsuffix : levels' <:+ levels)
    (h : Operand levels' lower tokens upper e) : Operand levels lower tokens upper e := by
  obtain ⟨looser, rfl⟩ := hsuffix
  induction looser with
  | nil => exact h
  | cons level looser ih => exact .tighter ih

/-- A call is an expression by itself. -/
theorem Call.expression {lower upper : Nat} {tokens : List Token} {e : Expr}
    (h : Call lower tokens upper e) : Expression lower tokens upper e :=
  .operand (.loosen List.nil_suffix (.call h))

/-! ## Statements and declarations -/

/-- An expression that may be missing. -/
inductive Clause : Nat → List Token → Nat → Option Expr → Prop
  | none {next} : Clause next [] next none
  | some {lower upper tokens e} :
      Expression lower tokens upper e → Clause lower tokens upper (some e)

/-- One or more names separated by commas. -/
inductive Names : List Token → List Token → Prop
  | last {name} : name.is .identifier → Names [name] [name]
  | cons {name comma further names} :
      name.is .identifier → comma.is .comma → Names further names →
      Names (name :: comma :: further) (name :: names)

inductive Parameters : List Token → List Token → Prop
  | none : Parameters [] []
  | some {tokens names} :
      Names tokens names → names.length ≤ maxArity → Parameters tokens names

/-- What follows the word `var`. -/
inductive Variable : Nat → List Token → Nat → Stmt → Prop
  | plain {next name closing} :
      name.is .identifier → closing.is .semicolon →
      Variable next [name, closing] next (.declare name none)
  | initialized {lower upper name equals tokens closing value} :
      name.is .identifier → equals.is .equal → Expression lower tokens upper value →
      closing.is .semicolon →
      Variable lower (name :: equals :: (tokens ++ [closing])) upper (.declare name (some value))

/-- The first clause of a `for` statement, with its semicolon. -/
inductive ForInitializer : Nat → List Token → Nat → Option Stmt → Prop
  | none {next closing} : closing.is .semicolon → ForInitializer next [closing] next none
  | variableDecl {lower upper word tokens s} :
      word.is .varWord → Variable lower tokens upper s →
      ForInitializer lower (word :: tokens) upper (some s)
  | expression {lower upper tokens closing value} :
      Expression lower tokens upper value → closing.is .semicolon →
      ForInitializer lower (tokens ++ [closing]) upper (some (.expression value))

mutual

inductive Statement : Bool → Nat → List Token → Nat → Stmt → Prop
  | expression {lower upper tokens closing value} :
      Expression lower tokens upper value → closing.is .semicolon →
      Statement false lower (tokens ++ [closing]) upper (.expression value)
  | print {lower upper word tokens closing value} :
      word.is .printWord → Expression lower tokens upper value → closing.is .semicolon →
      Statement false lower (word :: (tokens ++ [closing])) upper (.print value)
  | giveBack {lower upper keyword tokens closing value} :
      keyword.is .returnWord → Clause lower tokens upper value → closing.is .semicolon →
      Statement false lower (keyword :: (tokens ++ [closing])) upper (.giveBack keyword value)
  | leave {next keyword closing} :
      keyword.is .breakWord → closing.is .semicolon →
      Statement false next [keyword, closing] next (.leave keyword)
  | block {lower upper opening tokens closing body} :
      opening.is .leftBrace → Declarations lower tokens upper body → closing.is .rightBrace →
      Statement false lower (opening :: (tokens ++ [closing])) upper (.block body)
  | loop {dangling lower middle upper word opening tokens closing further condition body} :
      word.is .whileWord → opening.is .leftParen → Expression lower tokens middle condition →
      closing.is .rightParen → Statement dangling middle further upper body →
      Statement dangling lower (word :: opening :: (tokens ++ closing :: further)) upper
        (.loop condition body)
  | forLoop {dangling first second third fourth last word opening start test semicolon step
      closing further initializer condition increment body} :
      word.is .forWord → opening.is .leftParen →
      ForInitializer first start second initializer → Clause second test third condition →
      semicolon.is .semicolon → Clause third step fourth increment → closing.is .rightParen →
      Statement dangling fourth further last body →
      Statement dangling first
        (word :: opening :: (start ++ (test ++ semicolon :: (step ++ closing :: further)))) last
        (.forLoop initializer condition increment body)
  | branch {dangling lower middle upper word opening tokens closing further condition
      thenBranch} :
      word.is .ifWord → opening.is .leftParen → Expression lower tokens middle condition →
      closing.is .rightParen → Statement dangling middle further upper thenBranch →
      Statement true lower (word :: opening :: (tokens ++ closing :: further)) upper
        (.branch condition thenBranch none)
  | branchElse {dangling lower middle next upper word opening tokens closing further otherwise
      final condition thenBranch elseBranch} :
      word.is .ifWord → opening.is .leftParen → Expression lower tokens middle condition →
      closing.is .rightParen → Statement false middle further next thenBranch →
      otherwise.is .elseWord → Statement dangling next final upper elseBranch →
      Statement dangling lower
        (word :: opening :: (tokens ++ closing :: (further ++ otherwise :: final))) upper
        (.branch condition thenBranch (some elseBranch))

inductive Declaration : Bool → Nat → List Token → Nat → Stmt → Prop
  | statement {dangling lower upper tokens s} :
      Statement dangling lower tokens upper s → Declaration dangling lower tokens upper s
  | variableDecl {lower upper word tokens s} :
      word.is .varWord → Variable lower tokens upper s →
      Declaration false lower (word :: tokens) upper s
  | function {lower upper word tokens declaration} :
      word.is .funWord → Callable lower tokens upper declaration →
      Declaration false lower (word :: tokens) upper (.function declaration)
  | classDecl {lower upper word name opening tokens closing methods} :
      word.is .classWord → name.is .identifier → opening.is .leftBrace →
      Methods lower tokens upper methods → closing.is .rightBrace →
      Declaration false lower (word :: name :: opening :: (tokens ++ [closing])) upper
        (.classDecl name methods)

inductive Declarations : Nat → List Token → Nat → List Stmt → Prop
  | nil {next} : Declarations next [] next []
  | cons {dangling lower middle upper tokens further s ss} :
      Declaration dangling lower tokens middle s → Declarations middle further upper ss →
      Declarations lower (tokens ++ further) upper (s :: ss)

/-- A name, parameters and a body. -/
inductive Callable : Nat → List Token → Nat → FunctionDecl → Prop
  | mk {lower upper name opening tokens closing brace inner last parameters body} :
      name.is .identifier → opening.is .leftParen → Parameters tokens parameters →
      closing.is .rightParen → brace.is .leftBrace → Declarations lower inner upper body →
      last.is .rightBrace →
      Callable lower (name :: opening :: (tokens ++ closing :: brace :: (inner ++ [last]))) upper
        (.mk name parameters body)

inductive Methods : Nat → List Token → Nat → List FunctionDecl → Prop
  | nil {next} : Methods next [] next []
  | cons {lower middle upper tokens further d ds} :
      Callable lower tokens middle d → Methods middle further upper ds →
      Methods lower (tokens ++ further) upper (d :: ds)

end

/-! ## Single tokens -/

theorem kind_of_is {token : Token} {symbol : Symbol} (h : token.is symbol) :
    token.kind = .symbol symbol := by
  unfold Token.is at h
  split at h
  · rename_i other hkind
    rw [hkind, eq_of_beq h]
  · cases h

theorem is_of_kind {token : Token} {symbol : Symbol} (h : token.kind = .symbol symbol) :
    token.is symbol := by
  simp [Token.is, h]

/-- A token is one symbol only. -/
theorem not_isAny_of_is {token : Token} {symbol : Symbol} {symbols : List Symbol}
    (h : token.is symbol) (hne : symbol ∉ symbols) : ¬ token.isAny symbols := by
  intro hany
  obtain ⟨other, hother, his⟩ := List.any_eq_true.1 hany
  rw [Token.is, kind_of_is h] at his
  exact hne (eq_of_beq his ▸ hother)

end Grammar

end Lox
