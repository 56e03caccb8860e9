import Lox.Proofs.Matching.Reading.Expression

/-!
# Reading matching programs

Matching tokens are read into matching statements, and the same errors are found
at matching tokens.
-/

namespace Lox.Parser

variable {c : Correspondence} {lower lower' : Nat}

section Clause

variable (hids : ∀ count, c.ids (lower + count) (lower' + count)) (fuel : Nat)
include hids

/-- An expression that may be missing, and what is read after it. -/
theorem optional_inStep {α : Type} {results : α → α → Prop} (absent : Bool)
    {rest rest' : Option Expr → Parser α}
    (hrest : ∀ value? value?', Option.Rel (Expr.Matches c) value? value?' →
      InStep c lower lower' results (rest value?) (rest' value?')) :
    InStep c lower lower' results
      (if absent then pure none >>= rest else some <$> expression fuel >>= rest)
      (if absent then pure none >>= rest' else some <$> expression fuel >>= rest') := by
  cases absent with
  | true => exact hrest none none .none
  | false =>
      have hread : InStep c lower lower' (Option.Rel (Expr.Matches c))
          (some <$> expression fuel) (some <$> expression fuel) :=
        (expressionsInStep hids fuel).expression.map fun _ _ hvalue => .some hvalue
      exact hread.bind hrest

theorem variableDeclaration_inStep :
    InStep c lower lower' (Stmt.Matches c) (variableDeclaration fuel)
      (variableDeclaration fuel) := by
  apply (expect_inStep _ _).bind
  intro name name' hname
  apply (accept?_inStep _).bind
  intro equals? equals?' hequals
  have hread := optional_inStep hids fuel (!equals?.isSome)
    (fun value? value?' hvalue => (expect_inStep .semicolon .endOfVariable).bind fun _ _ _ =>
      (.pure (.declare hname hvalue) : InStep c lower lower' (Stmt.Matches c) _ _))
  cases hequals <;> exact hread

theorem expressionStatement_inStep :
    InStep c lower lower' (Stmt.Matches c) (expressionStatement fuel)
      (expressionStatement fuel) := by
  apply (expressionsInStep hids fuel).expression.bind
  intro value value' hvalue
  apply (expect_inStep _ _).bind
  intro _ _ _
  exact .pure (.expression hvalue)

theorem printStatement_inStep :
    InStep c lower lower' (Stmt.Matches c) (printStatement fuel) (printStatement fuel) := by
  apply (expressionsInStep hids fuel).expression.bind
  intro value value' hvalue
  apply (expect_inStep _ _).bind
  intro _ _ _
  exact .pure (.print hvalue)

theorem returnStatement_inStep {keyword keyword' : Token}
    (hkeyword : keyword.Matches c keyword') :
    InStep c lower lower' (Stmt.Matches c) (returnStatement fuel keyword)
      (returnStatement fuel keyword') := by
  apply (nextIs_inStep _).bind
  intro closed closed' hclosed
  subst hclosed
  apply optional_inStep hids fuel closed
  intro value? value?' hvalue
  apply (expect_inStep _ _).bind
  intro _ _ _
  exact .pure (.giveBack hkeyword hvalue)

theorem forInitializer_inStep :
    InStep c lower lower' (Option.Rel (Stmt.Matches c)) (forInitializer fuel)
      (forInitializer fuel) := by
  apply (accept?_inStep _).bind
  intro semicolon? semicolon?' hsemicolon
  apply isSome_inStep hsemicolon
  · exact .pure .none
  · apply (accept?_inStep _).bind
    intro varWord? varWord?' hvarWord
    apply isSome_inStep hvarWord
    · apply (variableDeclaration_inStep hids fuel).bind
      intro s s' hs
      exact .pure (.some hs)
    · apply (expressionStatement_inStep hids fuel).bind
      intro s s' hs
      exact .pure (.some hs)

theorem clause_inStep (closing : Symbol) (what : Expectation) :
    InStep c lower lower' (Option.Rel (Expr.Matches c)) (clause fuel closing what)
      (clause fuel closing what) := by
  apply (nextIs_inStep _).bind
  intro closed closed' hclosed
  subst hclosed
  apply optional_inStep hids fuel closed
  intro value? value?' hvalue
  apply (expect_inStep _ _).bind
  intro _ _ _
  exact .pure hvalue

end Clause

theorem breakStatement_inStep {keyword keyword' : Token} (hkeyword : keyword.Matches c keyword') :
    InStep c lower lower' (Stmt.Matches c) (breakStatement keyword) (breakStatement keyword') := by
  apply (expect_inStep _ _).bind
  intro _ _ _
  exact .pure (.leave hkeyword)

theorem parametersRest_inStep (fuel count : Nat) :
    InStep c lower lower' (List.Forall₂ (Token.Matches c)) (parametersRest fuel count)
      (parametersRest fuel count) := by
  induction fuel generalizing count with
  | zero => exact .throw rfl
  | succ fuel ih =>
      rw [parametersRest]
      apply (checkArity_inStep _ _).bind
      intro _ _ _
      apply (expect_inStep _ _).bind
      intro parameter parameter' hparameter
      apply (accept?_inStep _).bind
      intro comma? comma?' hcomma
      apply isSome_inStep hcomma
      · apply (ih (count + 1)).bind
        intro rest rest' hrest
        exact .pure (.cons hparameter hrest)
      · exact .pure (.cons hparameter .nil)

theorem parameters_inStep (fuel : Nat) :
    InStep c lower lower' (List.Forall₂ (Token.Matches c)) (parameters fuel)
      (parameters fuel) := by
  apply (nextIs_inStep _).bind
  intro closed closed' hclosed
  subst hclosed
  split
  · exact .pure .nil
  · exact parametersRest_inStep fuel 0

theorem forLoop_matches {initializer initializer' : Option Stmt}
    {condition condition' increment increment' : Option Expr} {body body' : Stmt}
    (hinitializer : Option.Rel (Stmt.Matches c) initializer initializer')
    (hcondition : Option.Rel (Expr.Matches c) condition condition')
    (hincrement : Option.Rel (Expr.Matches c) increment increment')
    (hbody : body.Matches c body') :
    (Stmt.forLoop initializer condition increment body).Matches c
      (Stmt.forLoop initializer' condition' increment' body') := by
  have htest : (condition.getD (.literal (.truth true))).Matches c
      (condition'.getD (.literal (.truth true))) := by
    cases hcondition with
    | none => exact .literal _
    | some h => exact h
  cases hincrement with
  | none =>
      have hloop := Stmt.Matches.loop htest hbody
      cases hinitializer with
      | none => exact hloop
      | some hs => exact .block (.cons hs (.cons hloop .nil))
  | some he =>
      have hround := Stmt.Matches.block (.cons hbody (.cons (.expression he) .nil))
      have hloop := Stmt.Matches.loop htest hround
      cases hinitializer with
      | none => exact hloop
      | some hs => exact .block (.cons hs (.cons hloop .nil))

/-- Every part of a program is read in step. -/
structure StatementsInStep (c : Correspondence) (lower lower' fuel : Nat) : Prop where
  declaration? :
    InStep c lower lower' (Option.Rel (Stmt.Matches c)) (declaration? fuel) (declaration? fuel)
  declaration : InStep c lower lower' (Stmt.Matches c) (declaration fuel) (declaration fuel)
  statement : InStep c lower lower' (Stmt.Matches c) (statement fuel) (statement fuel)
  block : InStep c lower lower' (List.Forall₂ (Stmt.Matches c)) (block fuel) (block fuel)
  declarations :
    InStep c lower lower' (List.Forall₂ (Stmt.Matches c)) (declarations fuel) (declarations fuel)
  callable (form : CallableForm) :
    InStep c lower lower' (FunctionDecl.Matches c) (callable fuel form) (callable fuel form)
  methods :
    InStep c lower lower' (List.Forall₂ (FunctionDecl.Matches c)) (methods fuel) (methods fuel)

theorem statementsInStep_zero : StatementsInStep c lower lower' 0 where
  declaration? := .throw rfl
  declaration := .throw rfl
  statement := .throw rfl
  block := .throw rfl
  declarations := .throw rfl
  callable _ := .throw rfl
  methods := .throw rfl

section Step

variable {fuel : Nat} (ih : StatementsInStep c lower lower' fuel)
include ih

theorem declaration_inStep (hids : ∀ count, c.ids (lower + count) (lower' + count)) :
    InStep c lower lower' (Stmt.Matches c) (declaration (fuel + 1)) (declaration (fuel + 1)) := by
  rw [declaration]
  apply peek_inStep.bind
  intro ⟨kind, lexeme, line⟩ ⟨kind', lexeme', line'⟩ htoken
  have hkind : kind = kind' := htoken.kind
  subst hkind
  cases kind with
  | number value => exact ih.statement
  | text value => exact ih.statement
  | symbol symbol =>
      cases symbol
      case classWord =>
        apply advance_inStep.bind
        intro _ _ _
        apply (expect_inStep _ _).bind
        intro name name' hname
        apply (expect_inStep _ _).bind
        intro _ _ _
        apply ih.methods.bind
        intro methods methods' hmethods
        apply (expect_inStep _ _).bind
        intro _ _ _
        exact .pure (.classDecl hname hmethods)
      case funWord =>
        apply advance_inStep.bind
        intro _ _ _
        apply (ih.callable _).bind
        intro d d' hd
        exact .pure (.function hd)
      case varWord =>
        apply advance_inStep.bind
        intro _ _ _
        exact variableDeclaration_inStep hids fuel
      all_goals exact ih.statement

theorem statement_inStep (hids : ∀ count, c.ids (lower + count) (lower' + count)) :
    InStep c lower lower' (Stmt.Matches c) (statement (fuel + 1)) (statement (fuel + 1)) := by
  have hexpression := (expressionsInStep hids fuel).expression
  rw [statement]
  apply peek_inStep.bind
  intro ⟨kind, lexeme, line⟩ ⟨kind', lexeme', line'⟩ htoken
  have hkind : kind = kind' := htoken.kind
  subst hkind
  cases kind with
  | number value => exact expressionStatement_inStep hids fuel
  | text value => exact expressionStatement_inStep hids fuel
  | symbol symbol =>
      cases symbol
      case forWord =>
        apply advance_inStep.bind
        intro _ _ _
        apply (expect_inStep _ _).bind
        intro _ _ _
        apply (forInitializer_inStep hids fuel).bind
        intro initializer initializer' hinitializer
        apply (clause_inStep hids fuel _ _).bind
        intro condition condition' hcondition
        apply (clause_inStep hids fuel _ _).bind
        intro increment increment' hincrement
        apply ih.statement.bind
        intro body body' hbody
        exact .pure (forLoop_matches hinitializer hcondition hincrement hbody)
      case ifWord =>
        apply advance_inStep.bind
        intro _ _ _
        apply (expect_inStep _ _).bind
        intro _ _ _
        apply hexpression.bind
        intro condition condition' hcondition
        apply (expect_inStep _ _).bind
        intro _ _ _
        apply ih.statement.bind
        intro thenBranch thenBranch' hthen
        apply (accept?_inStep _).bind
        intro elseWord? elseWord?' helseWord
        apply isSome_inStep helseWord
        · apply ih.statement.bind
          intro elseBranch elseBranch' helse
          exact .pure (.branch hcondition hthen (.some helse))
        · exact .pure (.branch hcondition hthen .none)
      case whileWord =>
        apply advance_inStep.bind
        intro _ _ _
        apply (expect_inStep _ _).bind
        intro _ _ _
        apply hexpression.bind
        intro condition condition' hcondition
        apply (expect_inStep _ _).bind
        intro _ _ _
        apply ih.statement.bind
        intro body body' hbody
        exact .pure (.loop hcondition hbody)
      case breakWord =>
        apply advance_inStep.bind
        intro _ _ _
        exact breakStatement_inStep htoken
      case returnWord =>
        apply advance_inStep.bind
        intro _ _ _
        exact returnStatement_inStep hids fuel htoken
      case leftBrace =>
        apply advance_inStep.bind
        intro _ _ _
        apply ih.block.bind
        intro body body' hbody
        exact .pure (.block hbody)
      case printWord =>
        apply advance_inStep.bind
        intro _ _ _
        exact printStatement_inStep hids fuel
      all_goals exact expressionStatement_inStep hids fuel

theorem block_inStep :
    InStep c lower lower' (List.Forall₂ (Stmt.Matches c)) (block (fuel + 1))
      (block (fuel + 1)) := by
  rw [block]
  apply ih.declarations.bind
  intro body body' hbody
  apply (expect_inStep _ _).bind
  intro _ _ _
  exact .pure hbody

theorem declarations_inStep :
    InStep c lower lower' (List.Forall₂ (Stmt.Matches c)) (declarations (fuel + 1))
      (declarations (fuel + 1)) := by
  rw [declarations]
  apply (nextIs_inStep _).bind
  intro closed closed' hclosed
  subst hclosed
  apply atEnd_inStep.bind
  intro ended ended' hended
  subst hended
  split
  · exact .pure .nil
  · apply ih.declaration?.bind
    intro first first' hfirst
    apply ih.declarations.bind
    intro rest rest' hrest
    exact .pure (List.rel_append (forall₂_toList hfirst) hrest)

theorem callable_inStep (form : CallableForm) :
    InStep c lower lower' (FunctionDecl.Matches c) (callable (fuel + 1) form)
      (callable (fuel + 1) form) := by
  rw [callable]
  apply (expect_inStep _ _).bind
  intro name name' hname
  apply (expect_inStep _ _).bind
  intro _ _ _
  apply (parameters_inStep fuel).bind
  intro parameters parameters' hparameters
  apply (expect_inStep _ _).bind
  intro _ _ _
  apply (expect_inStep _ _).bind
  intro _ _ _
  apply ih.block.bind
  intro body body' hbody
  exact .pure (.mk hname hparameters hbody)

theorem methods_inStep :
    InStep c lower lower' (List.Forall₂ (FunctionDecl.Matches c)) (methods (fuel + 1))
      (methods (fuel + 1)) := by
  rw [methods]
  apply (nextIs_inStep _).bind
  intro closed closed' hclosed
  subst hclosed
  apply atEnd_inStep.bind
  intro ended ended' hended
  subst hended
  split
  · exact .pure .nil
  · apply (ih.callable .method).bind
    intro first first' hfirst
    apply ih.methods.bind
    intro rest rest' hrest
    exact .pure (.cons hfirst hrest)

end Step

theorem statementsInStep (hids : ∀ count, c.ids (lower + count) (lower' + count))
    (fuel : Nat) : StatementsInStep c lower lower' fuel := by
  induction fuel with
  | zero => exact statementsInStep_zero
  | succ fuel ih =>
      exact {
        declaration? := attempt_inStep ih.declaration
        declaration := declaration_inStep ih hids
        statement := statement_inStep ih hids
        block := block_inStep ih
        declarations := declarations_inStep ih
        callable := callable_inStep ih
        methods := methods_inStep ih }

theorem program_inStep (hids : ∀ count, c.ids (lower + count) (lower' + count)) (fuel : Nat) :
    InStep c lower lower' (List.Forall₂ (Stmt.Matches c)) (program fuel) (program fuel) := by
  induction fuel with
  | zero => exact .throw rfl
  | succ fuel ih =>
      rw [program]
      apply atEnd_inStep.bind
      intro ended ended' hended
      subst hended
      split
      · exact .pure .nil
      · apply (statementsInStep hids fuel).declaration?.bind
        intro first first' hfirst
        apply ih.bind
        intro rest rest' hrest
        exact .pure (List.rel_append (forall₂_toList hfirst) hrest)

end Lox.Parser
