import Lox.Proofs.Syntax.Reading.Expression

/-!
# Reading of statements and programs

Every program that is read without a report is derived by its tokens.  A
condition without an `else` is only read where no `else` is to come, so each
`else` is read with the nearest condition that has none.
-/

namespace Lox.Parser

open Grammar

variable {tokens : List Token} {next fuel : Nat}

/-- The tokens that have been passed derive a statement, and no `else` that could
belong to it is to come. -/
def DerivedStatement (derives : Bool → Nat → List Token → Nat → Stmt → Prop)
    (tokens : List Token) (next : Nat) (rest : List Token) (after : Nat) (s : Stmt) : Prop :=
  ∃ dangling passed, tokens = passed ++ rest ∧ derives dangling next passed after s ∧
    (dangling → ∀ token ∈ rest.head?, ¬ token.is .elseWord)

theorem expression_reads_within (hfuel : 32 * tokens.length + 10 ≤ fuel) :
    Reads true tokens next (expression fuel) (Derived Expression tokens next) :=
  (expressionsRead fuel).expression tokens next hfuel

/-! ## Statements without statements in them -/

/-- An expression followed by the token that ends it. -/
theorem expression_expect_reads {α : Type} {symbol : Symbol} {what : Expectation}
    {build : Expr → α} {derives : List Token → Nat → α → Prop}
    (hfuel : 32 * tokens.length + 10 ≤ fuel)
    (hderives : ∀ passed closing rest after value, tokens = passed ++ closing :: rest →
      Expression next passed after value → closing.is symbol → derives rest after (build value)) :
    Reads true tokens next (do
      let value ← expression fuel
      let _ ← expect symbol what
      return build value) derives := by
  apply (expression_reads_within hfuel).bind
  intro rest middle value _
  apply Reads.expect
  rintro closing last rfl hclosing
  refine .pure ?_
  rintro ⟨passed, rfl, hvalue⟩
  exact hderives passed closing last middle value rfl hvalue hclosing

/-- An expression that may be missing, and what is read after it. -/
theorem optional_reads {α : Type} {closing : Symbol} {further : Option Expr → Parser α}
    {derives : List Token → Nat → α → Prop} (hfuel : 32 * tokens.length + 10 ≤ fuel)
    (hfurther : ∀ rest middle value?, rest.length ≤ tokens.length →
      Reads false rest middle (further value?) fun last after result =>
        Derived Clause tokens next rest middle value? → derives last after result) :
    Reads false tokens next (do
      let absent ← nextIs closing
      if absent then pure none >>= further else some <$> expression fuel >>= further)
      derives := by
  apply Reads.nextIs
  · rintro token rest rfl _
    exact (hfurther _ next none le_rfl).mono fun _ _ _ h => h ⟨[], rfl, .none⟩
  · have hsome : Reads true tokens next (some <$> expression fuel)
        (Derived Clause tokens next) := by
      apply (expression_reads_within hfuel).map
      rintro rest after e ⟨passed, rfl, he⟩
      exact ⟨passed, rfl, .some he⟩
    exact hsome.bind fun rest middle value? hrest => hfurther rest middle value? hrest.le

theorem clause_reads {closing : Symbol} {what : Expectation}
    (hfuel : 32 * tokens.length + 10 ≤ fuel) :
    Reads false tokens next (clause fuel closing what) fun rest after value? =>
      ∃ passed token, tokens = passed ++ token :: rest ∧ Clause next passed after value? ∧
        token.is closing := by
  rw [clause]
  apply optional_reads hfuel
  intro rest middle value? _
  apply Reads.expect
  rintro token last rfl htoken
  refine .pure ?_
  rintro ⟨passed, rfl, hvalue⟩
  exact ⟨passed, token, rfl, hvalue, htoken⟩

theorem variableDeclaration_reads (hfuel : 32 * tokens.length + 10 ≤ fuel) :
    Reads true tokens next (variableDeclaration fuel) (Derived Variable tokens next) := by
  rw [variableDeclaration]
  apply Reads.expect
  rintro name rest rfl hname
  rw [List.length_cons] at hfuel
  apply Reads.accept?
  · rintro equals rest' rfl hequals
    rw [List.length_cons] at hfuel
    have hsome : Reads true rest' next (some <$> expression fuel) fun rest after value? =>
        ∃ value, value? = some value ∧ Derived Expression rest' next rest after value :=
      (expression_reads_within (by omega)).map fun rest after value hvalue => ⟨value, rfl, hvalue⟩
    apply hsome.bind
    intro rest middle value? _
    apply Reads.expect
    rintro closing last rfl hclosing
    refine .pure ?_
    rintro ⟨value, rfl, passed, rfl, hvalue⟩
    exact ⟨name :: equals :: (passed ++ [closing]), by simp,
      .initialized hname (by simpa [Token.isAny] using hequals) hvalue hclosing⟩
  · intro _
    apply Reads.expect
    rintro closing last rfl hclosing
    exact .pure ⟨[name, closing], rfl, .plain hname hclosing⟩

theorem expressionStatement_reads (hfuel : 32 * tokens.length + 10 ≤ fuel) :
    Reads true tokens next (expressionStatement fuel) fun rest after s =>
      ∃ passed closing value, tokens = passed ++ closing :: rest ∧ s = .expression value ∧
        Expression next passed after value ∧ closing.is .semicolon := by
  apply expression_expect_reads hfuel
  intro passed closing rest after value htokens hvalue hclosing
  exact ⟨passed, closing, value, htokens, rfl, hvalue, hclosing⟩

theorem forInitializer_reads (hfuel : 32 * tokens.length + 10 ≤ fuel) :
    Reads true tokens next (forInitializer fuel) (Derived ForInitializer tokens next) := by
  rw [forInitializer]
  apply Reads.accept?
  · rintro closing rest rfl hclosing
    exact .pure ⟨[closing], rfl, .none (by simpa [Token.isAny] using hclosing)⟩
  intro _
  apply Reads.accept?
  · rintro word rest rfl hword
    rw [List.length_cons] at hfuel
    apply (variableDeclaration_reads (by omega)).bind
    intro last middle s _
    refine .pure ?_
    rintro ⟨passed, rfl, hs⟩
    exact ⟨word :: passed, rfl, .variableDecl (by simpa [Token.isAny] using hword) hs⟩
  · intro _
    apply (expressionStatement_reads hfuel).bind
    intro last middle s _
    refine .pure ?_
    rintro ⟨passed, closing, value, rfl, rfl, hvalue, hclosing⟩
    exact ⟨passed ++ [closing], by simp, .expression hvalue hclosing⟩

/-! ## Declarations and programs -/

/-- A statement that no `else` can belong to. -/
theorem DerivedStatement.closed {derives : Bool → Nat → List Token → Nat → Stmt → Prop}
    {rest : List Token} {after : Nat} {s : Stmt} (passed : List Token)
    (htokens : tokens = passed ++ rest) (h : derives false next passed after s) :
    DerivedStatement derives tokens next rest after s :=
  ⟨false, passed, htokens, h, by simp⟩

theorem parametersRest_reads (count : Nat) (hfuel : 32 * tokens.length + 1 ≤ fuel) :
    Reads true tokens next (parametersRest fuel count) fun rest after names =>
      after = next ∧ (∃ passed, tokens = passed ++ rest ∧ Names passed names) ∧
        count + names.length ≤ maxArity := by
  induction fuel generalizing tokens count with
  | zero => omega
  | succ fuel ih =>
      rw [parametersRest]
      apply Reads.checkArity
      apply Reads.expect
      rintro name rest rfl hname
      rw [List.length_cons] at hfuel
      apply Reads.accept?
      · rintro comma further rfl hcomma
        rw [List.length_cons] at hfuel
        apply (ih (count + 1) (by omega)).bind
        intro last after names _
        refine .pure ?_
        rintro ⟨rfl, ⟨passed, rfl, hnames⟩, hlength⟩ _
        refine ⟨rfl, ⟨name :: comma :: passed, rfl, ?_⟩, by rw [List.length_cons]; omega⟩
        exact .cons hname (by simpa [Token.isAny] using hcomma) hnames
      · intro _
        refine .pure fun hcount => ?_
        exact ⟨rfl, ⟨[name], rfl, .last hname⟩, hcount⟩

theorem parameters_reads (hfuel : 32 * tokens.length + 1 ≤ fuel) :
    Reads false tokens next (parameters fuel) fun rest after names =>
      after = next ∧ ∃ passed, tokens = passed ++ rest ∧ Parameters passed names := by
  rw [parameters]
  apply Reads.nextIs
  · rintro token rest rfl _
    exact .pure ⟨rfl, [], rfl, .none⟩
  · apply (parametersRest_reads 0 hfuel).weaken.mono
    rintro rest after names ⟨hafter, ⟨passed, htokens, hnames⟩, hlength⟩
    exact ⟨hafter, passed, htokens, .some hnames (by omega)⟩

/-- Every part of a program is read with enough fuel. -/
structure StatementsRead (fuel : Nat) : Prop where
  declaration? (tokens : List Token) (next : Nat) (hne : tokens ≠ [])
    (hfuel : 32 * tokens.length + 13 ≤ fuel) :
    Reads true tokens next (declaration? fuel) fun rest after s? =>
      ∃ s, s? = some s ∧ DerivedStatement Declaration tokens next rest after s
  declaration (tokens : List Token) (next : Nat) (hfuel : 32 * tokens.length + 12 ≤ fuel) :
    Reads true tokens next (declaration fuel) (DerivedStatement Declaration tokens next)
  statement (tokens : List Token) (next : Nat) (hfuel : 32 * tokens.length + 11 ≤ fuel) :
    Reads true tokens next (statement fuel) (DerivedStatement Statement tokens next)
  block (tokens : List Token) (next : Nat) (hfuel : 32 * tokens.length + 15 ≤ fuel) :
    Reads true tokens next (block fuel) fun rest after body =>
      ∃ passed closing, tokens = passed ++ closing :: rest ∧
        Declarations next passed after body ∧ closing.is .rightBrace
  declarations (tokens : List Token) (next : Nat) (hfuel : 32 * tokens.length + 14 ≤ fuel) :
    Reads false tokens next (declarations fuel) (Derived Declarations tokens next)
  callable (form : CallableForm) (tokens : List Token) (next : Nat)
    (hfuel : 32 * tokens.length + 1 ≤ fuel) :
    Reads true tokens next (callable fuel form) (Derived Callable tokens next)
  methods (tokens : List Token) (next : Nat) (hfuel : 32 * tokens.length + 2 ≤ fuel) :
    Reads false tokens next (methods fuel) (Derived Methods tokens next)

theorem statementsRead_zero : StatementsRead 0 where
  declaration? _ _ _ hfuel := by omega
  declaration _ _ hfuel := by omega
  statement _ _ hfuel := by omega
  block _ _ hfuel := by omega
  declarations _ _ hfuel := by omega
  callable _ _ _ hfuel := by omega
  methods _ _ hfuel := by omega

section Step

variable (ih : StatementsRead fuel)
include ih

theorem declaration_reads (tokens : List Token) (next : Nat)
    (hfuel : 32 * tokens.length + 12 ≤ fuel + 1) :
    Reads true tokens next (declaration (fuel + 1)) (DerivedStatement Declaration tokens next) := by
  rw [declaration]
  apply Reads.peek
  intro word hupcoming
  split
  · rename_i hkind
    apply Reads.advance hupcoming hkind (by simp)
    rintro rest rfl
    rw [List.length_cons] at hfuel
    apply Reads.expect
    rintro name rest rfl hname
    rw [List.length_cons] at hfuel
    apply Reads.expect
    rintro opening rest rfl hopening
    rw [List.length_cons] at hfuel
    apply (ih.methods rest next (by omega)).bind_still
    intro rest' middle methods _
    apply Reads.expect
    rintro closing last rfl hclosing
    refine .pure ?_
    rintro ⟨passed, rfl, hmethods⟩
    exact .closed (word :: name :: opening :: (passed ++ [closing])) (by simp)
      (.classDecl (is_of_kind hkind) hname hopening hmethods hclosing)
  · rename_i hkind
    apply Reads.advance hupcoming hkind (by simp)
    rintro rest rfl
    rw [List.length_cons] at hfuel
    apply (ih.callable .function rest next (by omega)).bind
    intro last middle d _
    refine .pure ?_
    rintro ⟨passed, rfl, hd⟩
    exact .closed (word :: passed) rfl (.function (is_of_kind hkind) hd)
  · rename_i hkind
    apply Reads.advance hupcoming hkind (by simp)
    rintro rest rfl
    rw [List.length_cons] at hfuel
    apply (variableDeclaration_reads (by omega)).weaken.mono
    rintro last after s ⟨passed, rfl, hs⟩
    exact .closed (word :: passed) rfl (.variableDecl (is_of_kind hkind) hs)
  · apply (ih.statement tokens next (by omega)).mono
    rintro rest after s ⟨dangling, passed, htokens, hs, hrest⟩
    exact ⟨dangling, passed, htokens, .statement hs, hrest⟩

/-- A loop is left open by its body. -/
theorem statement_for_reads {word : Token} (hword : word.is .forWord) (rest : List Token)
    (next : Nat) (hfuel : 32 * rest.length ≤ fuel) :
    Reads false rest next (do
      let _ ← expect .leftParen .forOpening
      let initializer ← forInitializer fuel
      let condition ← clause fuel .semicolon .endOfForCondition
      let increment ← clause fuel .rightParen .forClosing
      return .forLoop initializer condition increment (← statement fuel))
      (DerivedStatement Statement (word :: rest) next) := by
  apply Reads.expect
  rintro opening rest rfl hopening
  rw [List.length_cons] at hfuel
  apply (forInitializer_reads (by omega)).bind
  intro first second initializer hfirst
  apply (clause_reads (by omega)).bind_still
  intro behind third condition hbehind
  apply (clause_reads (by omega)).bind_still
  intro final fourth increment hfinal
  apply (ih.statement final fourth (by omega)).bind
  intro last after body _
  refine .pure ?_
  rintro ⟨dangling, further, rfl, hbody, hlast⟩ ⟨step, closing, rfl, hstep, hclosing⟩
    ⟨test, semicolon, rfl, htest, hsemicolon⟩ ⟨start, rfl, hstart⟩
  exact ⟨dangling,
    word :: opening :: (start ++ (test ++ semicolon :: (step ++ closing :: further))), by simp,
    .forLoop hword hopening hstart htest hsemicolon hstep hclosing hbody, hlast⟩

theorem statement_if_reads {word : Token} (hword : word.is .ifWord) (rest : List Token)
    (next : Nat) (hfuel : 32 * rest.length ≤ fuel) :
    Reads false rest next (do
      let _ ← expect .leftParen .ifOpening
      let condition ← expression fuel
      let _ ← expect .rightParen .ifClosing
      let thenBranch ← statement fuel
      if (← accept? [.elseWord]).isSome then
        return .branch condition thenBranch (some (← statement fuel))
      else
        return .branch condition thenBranch none)
      (DerivedStatement Statement (word :: rest) next) := by
  apply Reads.expect
  rintro opening rest rfl hopening
  rw [List.length_cons] at hfuel
  apply (expression_reads_within (by omega)).bind
  intro behind middle condition hbehind
  apply Reads.expect
  rintro closing inner rfl hclosing
  rw [List.length_cons] at hbehind
  apply (ih.statement inner middle (by omega)).bind
  intro further after thenBranch hfurther
  apply Reads.accept?
  · rintro otherwise final rfl hotherwise
    have hotherwise : otherwise.is .elseWord := by simpa [Token.isAny] using hotherwise
    rw [List.length_cons] at hfurther
    apply (ih.statement final after (by omega)).bind
    intro last upper elseBranch _
    refine .pure ?_
    rintro ⟨dangling, second, rfl, helse, hlast⟩ ⟨open', first, rfl, hthen, hopen⟩
      ⟨passed, rfl, hcondition⟩
    -- The `else` that is read here was to come when the first branch ended.
    obtain rfl : open' = false := by
      cases open' with
      | false => rfl
      | true => exact absurd hotherwise (hopen rfl otherwise (by simp))
    exact ⟨dangling, word :: opening :: (passed ++ closing :: (first ++ otherwise :: second)),
      by simp, .branchElse hword hopening hcondition hclosing hthen hotherwise helse, hlast⟩
  · intro hnone
    refine .pure ?_
    rintro ⟨dangling, first, rfl, hthen, -⟩ ⟨passed, rfl, hcondition⟩
    exact ⟨true, word :: opening :: (passed ++ closing :: first), by simp,
      .branch hword hopening hcondition hclosing hthen, fun _ => by simpa [Token.isAny] using hnone⟩

theorem statement_while_reads {word : Token} (hword : word.is .whileWord) (rest : List Token)
    (next : Nat) (hfuel : 32 * rest.length ≤ fuel) :
    Reads false rest next (do
      let _ ← expect .leftParen .whileOpening
      let condition ← expression fuel
      let _ ← expect .rightParen .whileClosing
      return .loop condition (← statement fuel))
      (DerivedStatement Statement (word :: rest) next) := by
  apply Reads.expect
  rintro opening rest rfl hopening
  rw [List.length_cons] at hfuel
  apply (expression_reads_within (by omega)).bind
  intro behind middle condition hbehind
  apply Reads.expect
  rintro closing inner rfl hclosing
  rw [List.length_cons] at hbehind
  apply (ih.statement inner middle (by omega)).bind
  intro last after body _
  refine .pure ?_
  rintro ⟨dangling, further, rfl, hbody, hlast⟩ ⟨passed, rfl, hcondition⟩
  exact ⟨dangling, word :: opening :: (passed ++ closing :: further), by simp,
    .loop hword hopening hcondition hclosing hbody, hlast⟩

theorem statement_reads (tokens : List Token) (next : Nat)
    (hfuel : 32 * tokens.length + 11 ≤ fuel + 1) :
    Reads true tokens next (statement (fuel + 1)) (DerivedStatement Statement tokens next) := by
  rw [statement]
  apply Reads.peek
  intro word hupcoming
  split
  · rename_i hkind
    apply Reads.advance hupcoming hkind (by simp)
    rintro rest rfl
    rw [List.length_cons] at hfuel
    exact statement_for_reads ih (is_of_kind hkind) rest next (by omega)
  · rename_i hkind
    apply Reads.advance hupcoming hkind (by simp)
    rintro rest rfl
    rw [List.length_cons] at hfuel
    exact statement_if_reads ih (is_of_kind hkind) rest next (by omega)
  · rename_i hkind
    apply Reads.advance hupcoming hkind (by simp)
    rintro rest rfl
    rw [List.length_cons] at hfuel
    exact statement_while_reads ih (is_of_kind hkind) rest next (by omega)
  · rename_i hkind
    apply Reads.advance hupcoming hkind (by simp)
    rintro rest rfl
    rw [breakStatement]
    apply Reads.expect
    rintro closing last rfl hclosing
    exact .pure (.closed [word, closing] rfl (.leave (is_of_kind hkind) hclosing))
  · rename_i hkind
    apply Reads.advance hupcoming hkind (by simp)
    rintro rest rfl
    rw [List.length_cons] at hfuel
    rw [returnStatement]
    apply optional_reads (by omega)
    intro rest' middle value? _
    apply Reads.expect
    rintro closing last rfl hclosing
    refine .pure ?_
    rintro ⟨passed, rfl, hvalue⟩
    exact .closed (word :: (passed ++ [closing])) (by simp)
      (.giveBack (is_of_kind hkind) hvalue hclosing)
  · rename_i hkind
    apply Reads.advance hupcoming hkind (by simp)
    rintro rest rfl
    rw [List.length_cons] at hfuel
    apply (ih.block rest next (by omega)).bind
    intro last middle body _
    refine .pure ?_
    rintro ⟨passed, closing, rfl, hbody, hclosing⟩
    exact .closed (word :: (passed ++ [closing])) (by simp)
      (.block (is_of_kind hkind) hbody hclosing)
  · rename_i hkind
    apply Reads.advance hupcoming hkind (by simp)
    rintro rest rfl
    rw [List.length_cons] at hfuel
    apply Reads.weaken
    apply expression_expect_reads (by omega)
    rintro passed closing last after value rfl hvalue hclosing
    exact .closed (word :: (passed ++ [closing])) (by simp)
      (.print (is_of_kind hkind) hvalue hclosing)
  · apply (expressionStatement_reads (by omega)).mono
    rintro rest after s ⟨passed, closing, value, rfl, rfl, hvalue, hclosing⟩
    exact .closed (passed ++ [closing]) (by simp) (.expression hvalue hclosing)

theorem block_reads (tokens : List Token) (next : Nat)
    (hfuel : 32 * tokens.length + 15 ≤ fuel + 1) :
    Reads true tokens next (block (fuel + 1)) fun rest after body =>
      ∃ passed closing, tokens = passed ++ closing :: rest ∧
        Declarations next passed after body ∧ closing.is .rightBrace := by
  rw [block]
  apply (ih.declarations tokens next (by omega)).bind_still
  intro rest middle body _
  apply Reads.expect
  rintro closing last rfl hclosing
  refine .pure ?_
  rintro ⟨passed, rfl, hbody⟩
  exact ⟨passed, closing, rfl, hbody, hclosing⟩

theorem declarations_reads (tokens : List Token) (next : Nat)
    (hfuel : 32 * tokens.length + 14 ≤ fuel + 1) :
    Reads false tokens next (declarations (fuel + 1)) (Derived Declarations tokens next) := by
  rw [declarations]
  apply Reads.nextIs
  · rintro token rest rfl _
    apply Reads.atEnd
    · rintro ⟨⟩
    · intro _ _ _
      exact .pure ⟨[], rfl, .nil⟩
  · apply Reads.atEnd
    · rintro rfl
      exact .pure ⟨[], rfl, .nil⟩
    · rintro token rest rfl
      apply (ih.declaration? (token :: rest) next (by simp) (by omega)).bind
      intro further middle s? hfurther
      apply (ih.declarations further middle (by omega)).bind_still
      intro last after ss _
      refine .pure ?_
      rintro ⟨second, rfl, hss⟩ ⟨s, rfl, dangling, first, htokens, hs, -⟩
      exact ⟨first ++ second, by simp [htokens], .cons hs hss⟩

theorem callable_reads (form : CallableForm) (tokens : List Token) (next : Nat)
    (hfuel : 32 * tokens.length + 1 ≤ fuel + 1) :
    Reads true tokens next (callable (fuel + 1) form) (Derived Callable tokens next) := by
  rw [callable]
  apply Reads.expect
  rintro name rest rfl hname
  rw [List.length_cons] at hfuel
  apply Reads.expect
  rintro opening rest rfl hopening
  rw [List.length_cons] at hfuel
  apply (parameters_reads (by omega)).bind_still
  intro behind middle parameters hbehind
  apply Reads.expect
  rintro closing rest rfl hclosing
  rw [List.length_cons] at hbehind
  apply Reads.expect
  rintro brace rest rfl hbrace
  rw [List.length_cons] at hbehind
  apply (ih.block rest middle (by omega)).bind
  intro final after body _
  refine .pure ?_
  rintro ⟨inner, last, rfl, hbody, hlast⟩ ⟨rfl, passed, rfl, hparameters⟩
  exact ⟨name :: opening :: (passed ++ closing :: brace :: (inner ++ [last])), by simp,
    .mk hname hopening hparameters hclosing hbrace hbody hlast⟩

theorem methods_reads (tokens : List Token) (next : Nat)
    (hfuel : 32 * tokens.length + 2 ≤ fuel + 1) :
    Reads false tokens next (methods (fuel + 1)) (Derived Methods tokens next) := by
  rw [methods]
  apply Reads.nextIs
  · rintro token rest rfl _
    apply Reads.atEnd
    · rintro ⟨⟩
    · intro _ _ _
      exact .pure ⟨[], rfl, .nil⟩
  · apply Reads.atEnd
    · rintro rfl
      exact .pure ⟨[], rfl, .nil⟩
    · rintro token rest rfl
      apply (ih.callable .method (token :: rest) next (by omega)).bind
      intro further middle d hfurther
      apply (ih.methods further middle (by omega)).bind_still
      intro last after ds _
      refine .pure ?_
      rintro ⟨second, rfl, hds⟩ ⟨first, htokens, hd⟩
      exact ⟨first ++ second, by simp [htokens], .cons hd hds⟩

end Step

theorem statementsRead (fuel : Nat) : StatementsRead fuel := by
  induction fuel with
  | zero => exact statementsRead_zero
  | succ fuel ih =>
      exact {
        declaration? := fun tokens next hne hfuel =>
          .attempt hne (ih.declaration tokens next (by omega))
        declaration := declaration_reads ih
        statement := statement_reads ih
        block := block_reads ih
        declarations := declarations_reads ih
        callable := callable_reads ih
        methods := methods_reads ih }

/-- A program is read to the end of the file. -/
theorem program_reads (next : Nat) (hfuel : 32 * tokens.length + 14 ≤ fuel) :
    Reads false tokens next (program fuel) fun rest after ss =>
      rest = [] ∧ Declarations next tokens after ss := by
  induction fuel generalizing tokens next with
  | zero => omega
  | succ fuel ih =>
      rw [program]
      apply Reads.atEnd
      · rintro rfl
        exact .pure ⟨rfl, .nil⟩
      · rintro token rest rfl
        apply ((statementsRead fuel).declaration? (token :: rest) next (by simp) (by omega)).bind
        intro further middle s? hfurther
        apply (ih middle (by omega)).bind_still
        intro last after ss _
        refine .pure ?_
        rintro ⟨hlast, hss⟩ ⟨s, rfl, dangling, first, htokens, hs, -⟩
        exact ⟨hlast, htokens ▸ .cons hs hss⟩

/-- What a program without syntax errors is derived from. -/
theorem declarations_of_ofStream {stream : TokenStream} (hending : stream.ending.is .endOfFile)
    (hclean : (Parsed.ofStream stream next).diagnostics = []) :
    Declarations next stream.body (Parsed.ofStream stream next).nextId
      (Parsed.ofStream stream next).statements := by
  have hfuel : 32 * stream.body.length + 14 ≤ Parsed.fuel stream := by
    rw [Parsed.fuel]
    omega
  have hreads := program_reads next hfuel stream.ending #[] hending
  unfold Parsed.ofStream at hclean ⊢
  split at hreads
  · rename_i statements after hresult
    rw [hresult] at hclean ⊢
    exact (hreads.2 (congrArg List.length hclean)).2
  · rename_i after hresult
    rw [hresult] at hclean
    have hnone : after.diagnostics.size = 0 := congrArg List.length hclean
    exact absurd hreads.reported (by simp [hnone])
  · exact hreads.elim

end Lox.Parser

theorem Lox.Parsed.clean_of_ofSource {source : String} {next : Nat}
    (h : (ofSource source next).diagnostics = []) :
    (TokenStream.ofSource source).2 = [] ∧
      (ofStream (TokenStream.ofSource source).1 next).diagnostics = [] :=
  List.append_eq_nil_iff.1 h
