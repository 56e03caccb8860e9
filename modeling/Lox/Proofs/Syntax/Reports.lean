import Lox.Proofs.Parallel
import Lox.Proofs.Syntax.Walk

/-!
# Reports are added and never looked at

No rule of the parser looks at the errors that are known already.  Reading with
some of them known goes as it goes with none, and ends with the same errors
behind those known before.
-/

namespace Lox.Parser

/-- The state with some errors known before all others. -/
def State.behind (earlier : Array Diagnostic) (state : State) : State :=
  { state with diagnostics := earlier ++ state.diagnostics }

/-- The part does the same whether or not some errors are known before. -/
abbrev Apart {α : Type} (earlier : Array Diagnostic) (part : Parser α) : Prop :=
  Parallel (fun state state' => state' = state.behind earlier) Eq Eq part part

variable {earlier : Array Diagnostic} {α β : Type}

theorem Apart.bind {part : Parser α} {rest : α → Parser β} (hpart : Apart earlier part)
    (hrest : ∀ result, Apart earlier (rest result)) : Apart earlier (part >>= rest) := by
  apply Parallel.bind hpart
  rintro result _ rfl
  exact hrest result

theorem State.behind_report (state : State) (token : Token) (error : SyntaxError) :
    (state.behind earlier).report token error = (state.report token error).behind earlier := by
  simp [State.behind, State.report]

theorem State.behind_recover (state : State) :
    (state.behind earlier).recover = state.recover.behind earlier := by
  obtain ⟨rest, ending, nextId, diagnostics⟩ := state
  cases rest <;> rfl

/-! ## Looking and passing -/

theorem fail_apart (what : Expectation) : Apart earlier (fail what : Parser α) := by
  rintro state _ rfl
  exact .error rfl (state.behind_report _ _)

theorem peek_apart : Apart earlier peek := by
  rintro state _ rfl
  exact .ok rfl rfl

theorem atEnd_apart : Apart earlier atEnd := by
  rintro state _ rfl
  exact .ok rfl rfl

theorem nextIs_apart (symbol : Symbol) : Apart earlier (nextIs symbol) := by
  rintro state _ rfl
  exact .ok rfl rfl

theorem advance_apart : Apart earlier advance := by
  rintro state _ rfl
  exact .ok rfl rfl

theorem freshId_apart : Apart earlier freshId := by
  rintro state _ rfl
  exact .ok rfl rfl

theorem report_apart (token : Token) (error : SyntaxError) :
    Apart earlier (report token error) := by
  rintro state _ rfl
  exact .ok rfl (state.behind_report _ _)

theorem accept?_apart (symbols : List Symbol) : Apart earlier (accept? symbols) := by
  rintro ⟨rest, ending, nextId, diagnostics⟩ _ rfl
  cases rest with
  | nil => exact .ok rfl rfl
  | cons token rest =>
      simp only [accept?, State.behind]
      split
      · exact .ok rfl rfl
      · exact .ok rfl rfl

theorem expect_apart (symbol : Symbol) (what : Expectation) :
    Apart earlier (expect symbol what) := by
  apply (accept?_apart [symbol]).bind
  intro token?
  cases token? with
  | none => exact fail_apart what
  | some token => exact .pure rfl

theorem checkArity_apart (count : Nat) (error : SyntaxError) :
    Apart earlier (checkArity count error) := by
  rw [checkArity]
  split
  · apply peek_apart.bind
    intro token
    exact report_apart token error
  · exact .pure rfl

theorem attempt_apart {part : Parser α} (h : Apart earlier part) :
    Apart earlier (attempt part) := by
  intro state state' hstates
  have hends := h state state' hstates
  simp only [attempt]
  generalize part state = first at hends ⊢
  generalize part state' = second at hends ⊢
  cases hends with
  | ok hresult hafter => exact .ok (congrArg some hresult) hafter
  | @error halt _ after _ hhalt hafter =>
      subst hhalt hafter
      cases halt with
      | syntaxError => exact .ok rfl after.behind_recover
      | outOfFuel => exact .error rfl rfl

/-! ## Rules -/

/-- With this much fuel every rule reads the same whatever errors are known. -/
def RulesApart (earlier : Array Diagnostic) (fuel : Nat) : Prop :=
  ∀ {α : Type} (rule : Walk.Rule α), Apart earlier (rule.read fuel)

theorem assignment_apart (target : Expr) (equals : Token) (value : Expr) :
    Apart earlier (assignment target equals value) := by
  cases target with
  | reference _ name =>
      apply freshId_apart.bind
      intro id
      exact .pure rfl
  | get object name => exact .pure rfl
  | literal _ | grouping _ | unary _ _ | binary _ _ _ | logical _ _ _ | assign _ _ _
  | receiver _ _ | set _ _ _ | call _ _ _ | list _ _ =>
      apply (report_apart equals .invalidAssignmentTarget).bind
      intro _
      exact .pure rfl

/-- A token that is an expression by itself. -/
theorem single_apart (e : Expr) : Apart earlier (do advance; return e : Parser Expr) := by
  apply advance_apart.bind
  intro _
  exact .pure rfl

theorem occurrence_apart (build : Nat → Expr) :
    Apart earlier (do advance; return build (← freshId) : Parser Expr) := by
  apply advance_apart.bind
  intro _
  apply freshId_apart.bind
  intro id
  exact .pure rfl

section Expression

variable {fuel : Nat} (ih : RulesApart earlier fuel)
include ih

theorem expression_apart : Apart earlier (expression (fuel + 1)) := by
  rw [expression]
  apply (ih (.binary Level.all)).bind
  intro target
  apply (accept?_apart _).bind
  intro equals?
  cases equals? with
  | none => exact .pure rfl
  | some equals =>
      apply (ih .expression).bind
      intro value
      exact assignment_apart target equals value

theorem binary_apart (levels : List Level) : Apart earlier (binary (fuel + 1) levels) := by
  cases levels with
  | nil =>
      rw [binary]
      exact ih .unary
  | cons level tighter =>
      rw [binary]
      apply (ih (.binary tighter)).bind
      intro left
      exact ih (.binaryRest level tighter left)

theorem binaryRest_apart (level : Level) (tighter : List Level) (left : Expr) :
    Apart earlier (binaryRest (fuel + 1) level tighter left) := by
  rw [binaryRest]
  apply (accept?_apart _).bind
  intro operator?
  cases operator? with
  | none => exact .pure rfl
  | some operator =>
      apply (ih (.binary tighter)).bind
      intro right
      exact ih (.binaryRest level tighter (level.build left operator right))

theorem unary_apart : Apart earlier (unary (fuel + 1)) := by
  rw [unary]
  apply (accept?_apart _).bind
  intro operator?
  cases operator? with
  | none =>
      apply (ih .primary).bind
      intro callee
      exact ih (.callRest callee)
  | some operator =>
      apply (ih .unary).bind
      intro operand
      exact .pure rfl

theorem callRest_apart (callee : Expr) : Apart earlier (callRest (fuel + 1) callee) := by
  rw [callRest]
  apply (accept?_apart _).bind
  intro opening?
  split
  · apply (ih (.arguments .rightParen)).bind
    intro arguments
    apply (expect_apart _ _).bind
    intro closing
    exact ih (.callRest (.call callee closing arguments))
  · apply (accept?_apart _).bind
    intro dot?
    split
    · apply (expect_apart _ _).bind
      intro name
      exact ih (.callRest (.get callee name))
    · exact .pure rfl

theorem arguments_apart (closing : Symbol) : Apart earlier (arguments (fuel + 1) closing) := by
  rw [arguments]
  apply (nextIs_apart _).bind
  intro closed
  split
  · exact .pure rfl
  · exact ih (.argumentsRest 0)

theorem argumentsRest_apart (count : Nat) : Apart earlier (argumentsRest (fuel + 1) count) := by
  rw [argumentsRest]
  apply (checkArity_apart _ _).bind
  intro _
  apply (ih .expression).bind
  intro argument
  apply (accept?_apart _).bind
  intro comma?
  split
  · apply (ih (.argumentsRest (count + 1))).bind
    intro rest
    exact .pure rfl
  · exact .pure rfl

theorem primary_apart : Apart earlier (primary (fuel + 1)) := by
  rw [primary]
  apply peek_apart.bind
  intro token
  split
  case h_6 | h_7 => exact occurrence_apart _
  case h_8 =>
    apply advance_apart.bind
    intro _
    apply (ih .expression).bind
    intro inner
    apply (expect_apart _ _).bind
    intro _
    exact .pure rfl
  case h_9 =>
    apply advance_apart.bind
    intro _
    apply (ih (.arguments .rightBracket)).bind
    intro elements
    apply (expect_apart _ _).bind
    intro closing
    exact .pure rfl
  case h_10 => exact fail_apart _
  all_goals exact single_apart _

end Expression

/-! ## Statements -/

section Statement

variable {fuel : Nat} (ih : RulesApart earlier fuel)

section Clause

include ih

/-- An expression that may be missing, and what is read after it. -/
theorem optional_apart (absent : Bool) {rest : Option Expr → Parser α}
    (hrest : ∀ value?, Apart earlier (rest value?)) :
    Apart earlier (if absent then pure none >>= rest else some <$> expression fuel >>= rest) := by
  cases absent with
  | true => exact hrest none
  | false =>
      have hread : Apart earlier (some <$> expression fuel) :=
        (ih .expression).map fun _ _ hvalue => congrArg some hvalue
      apply hread.bind
      intro value?
      exact hrest value?

/-- An expression followed by the token that ends it. -/
theorem expression_expect_apart (symbol : Symbol) (what : Expectation) (build : Expr → α) :
    Apart earlier (do
      let value ← expression fuel
      let _ ← expect symbol what
      return build value) := by
  apply (ih .expression).bind
  intro value
  apply (expect_apart _ _).bind
  intro _
  exact .pure rfl

theorem clause_apart (closing : Symbol) (what : Expectation) :
    Apart earlier (clause fuel closing what) := by
  apply (nextIs_apart _).bind
  intro closed
  apply optional_apart ih closed
  intro value?
  apply (expect_apart _ _).bind
  intro _
  exact .pure rfl

theorem variableDeclaration_apart : Apart earlier (variableDeclaration fuel) := by
  apply (expect_apart _ _).bind
  intro name
  apply (accept?_apart _).bind
  intro equals?
  have hread := optional_apart ih (!equals?.isSome) fun value? =>
    (expect_apart .semicolon .endOfVariable).bind fun _ =>
      (.pure rfl : Apart earlier (pure (Stmt.declare name value?)))
  cases equals? <;> exact hread

theorem returnStatement_apart (keyword : Token) : Apart earlier (returnStatement fuel keyword) := by
  apply (nextIs_apart _).bind
  intro closed
  apply optional_apart ih closed
  intro value?
  apply (expect_apart _ _).bind
  intro _
  exact .pure rfl

theorem forInitializer_apart : Apart earlier (forInitializer fuel) := by
  apply (accept?_apart _).bind
  intro semicolon?
  split
  · exact .pure rfl
  · apply (accept?_apart _).bind
    intro word?
    split
    · apply (variableDeclaration_apart ih).bind
      intro s
      exact .pure rfl
    · apply (expression_expect_apart ih .semicolon .endOfExpression Stmt.expression).bind
      intro s
      exact .pure rfl

end Clause

theorem breakStatement_apart (keyword : Token) : Apart earlier (breakStatement keyword) := by
  apply (expect_apart _ _).bind
  intro _
  exact .pure rfl

theorem parametersRest_apart (fuel count : Nat) : Apart earlier (parametersRest fuel count) := by
  induction fuel generalizing count with
  | zero => exact .throw rfl
  | succ fuel ih =>
      rw [parametersRest]
      apply (checkArity_apart _ _).bind
      intro _
      apply (expect_apart _ _).bind
      intro parameter
      apply (accept?_apart _).bind
      intro comma?
      split
      · apply (ih (count + 1)).bind
        intro rest
        exact .pure rfl
      · exact .pure rfl

theorem parameters_apart (fuel : Nat) : Apart earlier (parameters fuel) := by
  apply (nextIs_apart _).bind
  intro closed
  split
  · exact .pure rfl
  · exact parametersRest_apart fuel 0

include ih

theorem declaration_apart : Apart earlier (declaration (fuel + 1)) := by
  rw [declaration]
  apply peek_apart.bind
  intro token
  split
  · apply advance_apart.bind
    intro _
    apply (expect_apart _ _).bind
    intro name
    apply (expect_apart _ _).bind
    intro _
    apply (ih .methods).bind
    intro methods
    apply (expect_apart _ _).bind
    intro _
    exact .pure rfl
  · apply advance_apart.bind
    intro _
    apply (ih (.callable .function)).bind
    intro d
    exact .pure rfl
  · apply advance_apart.bind
    intro _
    exact variableDeclaration_apart ih
  · exact ih .statement

theorem forStatement_apart :
    Apart earlier (do
      let _ ← expect .leftParen .forOpening
      let initializer ← forInitializer fuel
      let condition ← clause fuel .semicolon .endOfForCondition
      let increment ← clause fuel .rightParen .forClosing
      return Stmt.forLoop initializer condition increment (← statement fuel)) := by
  apply (expect_apart _ _).bind
  intro _
  apply (forInitializer_apart ih).bind
  intro initializer
  apply (clause_apart ih _ _).bind
  intro condition
  apply (clause_apart ih _ _).bind
  intro increment
  apply (ih .statement).bind
  intro body
  exact .pure rfl

theorem ifStatement_apart :
    Apart earlier (do
      let _ ← expect .leftParen .ifOpening
      let condition ← expression fuel
      let _ ← expect .rightParen .ifClosing
      let thenBranch ← statement fuel
      if (← accept? [.elseWord]).isSome then
        return Stmt.branch condition thenBranch (some (← statement fuel))
      else
        return Stmt.branch condition thenBranch none) := by
  apply (expect_apart _ _).bind
  intro _
  apply (ih .expression).bind
  intro condition
  apply (expect_apart _ _).bind
  intro _
  apply (ih .statement).bind
  intro thenBranch
  apply (accept?_apart _).bind
  intro word?
  split
  · apply (ih .statement).bind
    intro elseBranch
    exact .pure rfl
  · exact .pure rfl

theorem whileStatement_apart :
    Apart earlier (do
      let _ ← expect .leftParen .whileOpening
      let condition ← expression fuel
      let _ ← expect .rightParen .whileClosing
      return Stmt.loop condition (← statement fuel)) := by
  apply (expect_apart _ _).bind
  intro _
  apply (ih .expression).bind
  intro condition
  apply (expect_apart _ _).bind
  intro _
  apply (ih .statement).bind
  intro body
  exact .pure rfl

theorem statement_apart : Apart earlier (statement (fuel + 1)) := by
  rw [statement]
  apply peek_apart.bind
  intro token
  split
  case h_8 => exact expression_expect_apart ih _ _ _
  all_goals
    apply advance_apart.bind
    intro _
  case h_1 => exact forStatement_apart ih
  case h_2 => exact ifStatement_apart ih
  case h_3 => exact whileStatement_apart ih
  case h_4 => exact breakStatement_apart token
  case h_5 => exact returnStatement_apart ih token
  case h_6 =>
    apply (ih .block).bind
    intro body
    exact .pure rfl
  case h_7 => exact expression_expect_apart ih _ _ _

theorem block_apart : Apart earlier (block (fuel + 1)) := by
  rw [block]
  apply (ih .declarations).bind
  intro body
  apply (expect_apart _ _).bind
  intro _
  exact .pure rfl

theorem declarations_apart : Apart earlier (declarations (fuel + 1)) := by
  rw [declarations]
  apply (nextIs_apart _).bind
  intro closed
  apply atEnd_apart.bind
  intro ended
  split
  · exact .pure rfl
  · apply (ih .declaration?).bind
    intro first
    apply (ih .declarations).bind
    intro rest
    exact .pure rfl

theorem callable_apart (form : CallableForm) : Apart earlier (callable (fuel + 1) form) := by
  rw [callable]
  apply (expect_apart _ _).bind
  intro name
  apply (expect_apart _ _).bind
  intro _
  apply (parameters_apart fuel).bind
  intro parameters
  apply (expect_apart _ _).bind
  intro _
  apply (expect_apart _ _).bind
  intro _
  apply (ih .block).bind
  intro body
  exact .pure rfl

theorem methods_apart : Apart earlier (methods (fuel + 1)) := by
  rw [methods]
  apply (nextIs_apart _).bind
  intro closed
  apply atEnd_apart.bind
  intro ended
  split
  · exact .pure rfl
  · apply (ih (.callable .method)).bind
    intro first
    apply (ih .methods).bind
    intro rest
    exact .pure rfl

end Statement

theorem rulesApart (fuel : Nat) : RulesApart earlier fuel := by
  induction fuel with
  | zero =>
      intro α rule
      cases rule <;> exact .throw rfl
  | succ fuel ih =>
      intro α rule
      cases rule with
      | expression => exact expression_apart ih
      | binary levels => exact binary_apart ih levels
      | binaryRest level tighter left => exact binaryRest_apart ih level tighter left
      | unary => exact unary_apart ih
      | callRest callee => exact callRest_apart ih callee
      | arguments closing => exact arguments_apart ih closing
      | argumentsRest count => exact argumentsRest_apart ih count
      | primary => exact primary_apart ih
      | parametersRest count => exact parametersRest_apart (fuel + 1) count
      | declaration? => exact attempt_apart (ih .declaration)
      | declaration => exact declaration_apart ih
      | statement => exact statement_apart ih
      | block => exact block_apart ih
      | declarations => exact declarations_apart ih
      | callable form => exact callable_apart ih form
      | methods => exact methods_apart ih

theorem program_apart (fuel : Nat) : Apart earlier (program fuel) := by
  induction fuel with
  | zero => exact .throw rfl
  | succ fuel ih =>
      rw [program]
      apply atEnd_apart.bind
      intro ended
      split
      · exact .pure rfl
      · apply (rulesApart fuel .declaration?).bind
        intro first
        apply ih.bind
        intro rest
        exact .pure rfl

end Lox.Parser
