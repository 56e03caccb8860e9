import Lox.Proofs.Syntax.Prediction.Expression

/-!
# Prediction of statements

Every rule for statements and declarations reads the words of its phrase.  The
phrase for conditions leaves open which of several conditions an `else` belongs
to; the rule takes the innermost one, which is never wrong: wherever an `else`
could go on after a statement, it can go on after any statement that stands in
its place.
-/

namespace Lox

open Phrase

/-- Whatever goes on with an `else` goes on so behind a further statement. -/
def Absorbs (K : Language Token) : Prop :=
  ∀ (token : Token) (tokens : List Token), token.is .elseWord → token :: tokens ∈ K →
    tokens ∈ (rule .statement).language * K

namespace Absorbs

variable {K : Language Token}

theorem of_avoids (h : Avoids [.elseWord] K) : Absorbs K := by
  intro token tokens helse hK
  exact (h.elim (by simpa [Token.isAny] using helse) hK).elim

/-- Before an `else` that may be missing. -/
theorem otherwise (h : Absorbs K) :
    Absorbs ((opt (seq (word .elseWord) (rule .statement))).language * K) := by
  have hle : K ≤ (opt (seq (word .elseWord) (rule .statement))).language * K := by
    intro tokens hK
    exact Language.mem_mul.2 ⟨[], .absent, tokens, hK, rfl⟩
  intro token tokens helse hmem
  have hstep : tokens ∈ (rule .statement).language * K := by
    rw [show (opt (seq (word .elseWord) (rule .statement))).language = _ from
      language_opt_words [.elseWord] (rule .statement), add_mul, one_mul, Language.mem_add,
      mul_assoc, cons_mem_words_mul] at hmem
    rcases hmem with ⟨-, hmem⟩ | hmem
    · exact hmem
    · exact h token tokens helse hmem
  exact mul_le_mul_right hle _ hstep

end Absorbs

namespace Parser

variable {K : Language Token} {α : Type} {fuel : Nat}

/-! ## Simple statements and clauses -/

/-- An expression in front of a phrase by which it does not go on. -/
theorem expression_predicts_before {q : Phrase} (hK : K.Nonempty) (hshallow : q.shallow 13)
    (hq : ∀ symbol ∈ expressionFollowers, q.starts (.symbol symbol) = false)
    (hnullable : q.nullable = false) :
    Predicts Always (rule .expression).language (q.language * K) (expression fuel) :=
  (expressionsPredict fuel).expression (nonempty_mul hshallow hK) (Avoids.of_phrase hq hnullable)

/-- An expression followed by the token that ends it. -/
theorem expression_expect_predicts {closing : Symbol} {what : Expectation} {build : Expr → α}
    (hK : K.Nonempty) (hclosing : closing ∈ [Symbol.semicolon, .rightParen]) :
    Predicts Always (seq (rule .expression) (word closing)).language K (do
      let value ← expression fuel
      let _ ← expect closing what
      return build value) := by
  have hfacts : ∀ closing ∈ [Symbol.semicolon, .rightParen], closing ≠ .endOfFile ∧
      ∀ symbol ∈ expressionFollowers, (word closing).starts (.symbol symbol) = false := by
    decide
  obtain ⟨hplain, hfollowers⟩ := hfacts closing hclosing
  apply Predicts.seq
  · exact expression_predicts_before hK rfl hfollowers rfl
  · intro value
    exact (Predicts.expect hplain hK what).idle fun _ => .finish

/-- An expression that may be missing, and the token that ends it. -/
theorem optional_predicts {closing : Symbol} {rest : Option Expr → Parser α} (hK : K.Nonempty)
    (hclosing : closing ∈ [Symbol.semicolon, .rightParen])
    (hrest : ∀ value?, Predicts Always (word closing).language K (rest value?)) :
    Predicts Always (seq (opt (rule .expression)) (word closing)).language K (do
      if ← nextIs closing then pure none >>= rest else some <$> expression fuel >>= rest) := by
  have hfacts : ∀ closing ∈ [Symbol.semicolon, .rightParen], closing ≠ .endOfFile ∧
      (rule .expression).starts (.symbol closing) = false ∧
      ∀ symbol ∈ expressionFollowers, (word closing).starts (.symbol symbol) = false := by
    decide
  obtain ⟨hplain, hstarts, hfollowers⟩ := hfacts closing hclosing
  have hjoin : (nextIs closing >>= fun closed =>
        if closed then pure none >>= rest else some <$> expression fuel >>= rest) =
      (nextIs closing >>= fun closed => if closed then pure none else some <$> expression fuel) >>=
        rest := by
    rw [bind_assoc]
    congr 1
    funext closed
    cases closed <;> rfl
  rw [hjoin]
  apply Predicts.seq _ hrest
  apply Predicts.optional hstarts hplain
  · intro token tokens h
    have hany := (cons_mem_words_mul [closing]).1 h
    simpa [Token.isAny] using hany.1
  · exact (expression_predicts_before hK rfl hfollowers rfl).map

theorem clause_predicts {closing : Symbol} {what : Expectation} (hK : K.Nonempty)
    (hclosing : closing ∈ [Symbol.semicolon, .rightParen]) :
    Predicts Always (seq (opt (rule .expression)) (word closing)).language K
      (clause fuel closing what) := by
  have hplain : ∀ closing ∈ [Symbol.semicolon, .rightParen], closing ≠ .endOfFile := by decide
  rw [clause]
  apply optional_predicts hK hclosing
  intro value?
  exact (Predicts.expect (hplain closing hclosing) hK what).idle fun _ => .finish

theorem returnStatement_predicts (hK : K.Nonempty) (keyword : Token) :
    Predicts Always (seq (opt (rule .expression)) (word .semicolon)).language K
      (returnStatement fuel keyword) := by
  rw [returnStatement]
  apply optional_predicts hK (by decide)
  intro value?
  exact (Predicts.expect (by decide) hK _).idle fun _ => .finish

/-- What follows the word `var`. -/
theorem variableDeclaration_predicts (hK : K.Nonempty) :
    Predicts Always (inOrder [word .identifier,
      opt (inOrder [word .equal, rule .expression]), word .semicolon]).language K
      (variableDeclaration fuel) := by
  have hclose : ∀ value? : Option Expr, ∀ name : Token,
      Predicts Always (word .semicolon).language K (do
        let _ ← expect .semicolon .endOfVariable
        return Stmt.declare name value?) :=
    fun _ _ => (Predicts.expect (by decide) hK _).idle fun _ => .finish
  rw [variableDeclaration]
  apply Predicts.seq
  · exact .expect (by decide) (nonempty_mul rfl hK) _
  · intro name
    apply Predicts.accept? (by decide)
      (M := (seq (rule .expression) (word .semicolon)).language)
      (N := (word .semicolon).language)
    · calc (seq (opt (seq (words [.equal]) (rule .expression))) (word .semicolon)).language
        _ = ((words [.equal]).language * (rule .expression).language + 1) *
            (word .semicolon).language := by rw [language_seq, language_opt_words]
        _ = (words [.equal]).language * (seq (rule .expression) (word .semicolon)).language +
            (word .semicolon).language := by rw [add_mul, one_mul, mul_assoc, language_seq]
    · intro token tokens hany h
      exact ((Avoids.of_phrase (by decide) rfl).elim hany h).elim
    · intro equals
      exact (expression_predicts_before hK rfl (by decide) rfl).map.seq fun value? =>
        hclose value? name
    · exact (hclose none name).ahead_mono fun _ _ => trivial

theorem expressionStatement_predicts (hK : K.Nonempty) :
    Predicts Always (rule .exprStmt).language K (expressionStatement fuel) :=
  .of_rule (expression_expect_predicts hK (by decide))

theorem forInitializer_predicts (hK : K.Nonempty) :
    Predicts Always (oneOf [rule .varDecl, rule .exprStmt, word .semicolon]).language K
      (forInitializer fuel) := by
  rw [forInitializer]
  apply Predicts.accept? (by decide) (M := 1)
    (N := (rule .varDecl).language + (rule .exprStmt).language)
  · rw [oneOf, oneOf, oneOf, language_alt, language_alt, mul_one, ← add_assoc, add_comm]
    rfl
  · intro token tokens hany h
    rw [add_mul, Language.mem_add] at h
    rcases h with h | h
    · exact ((Avoids.of_phrase (by decide) rfl).elim hany h).elim
    · exact ((Avoids.of_phrase (by decide) rfl).elim hany h).elim
  · exact fun semicolon => .finish
  · apply Predicts.ahead_mono _ fun _ _ => trivial
    apply Predicts.accept? (by decide) (N := (rule .exprStmt).language)
    · rw [language_rule .varDecl, Nonterminal.body, inOrder, language_seq]
      rfl
    · intro token tokens hany h
      exact ((Avoids.of_phrase (by decide) rfl).elim hany h).elim
    · exact fun word => (variableDeclaration_predicts hK).idle fun _ => .finish
    · apply ((expressionStatement_predicts hK).idle fun _ => .finish).ahead_mono
      exact fun _ _ => trivial

theorem breakStatement_predicts (hK : K.Nonempty) (keyword : Token) :
    Predicts Always (word .semicolon).language K (breakStatement keyword) :=
  (Predicts.expect (by decide) hK _).idle fun _ => .finish

theorem parametersRest_predicts (fuel count : Nat) (hK : K.Nonempty)
    (havoids : Avoids [.comma] K) :
    Predicts Always (rule .parameters).language K (parametersRest fuel count) := by
  induction fuel generalizing count with
  | zero => exact .halt
  | succ fuel ih =>
      rw [parametersRest]
      apply Predicts.checkArity (by simp)
      apply Predicts.of_rule
      apply Predicts.seq
      · exact .expect (by decide) (nonempty_mul rfl hK) _
      · intro parameter
        apply Predicts.accept_opt (by decide) (M := (rule .parameters).language)
        · rw [language_rule .parameters]
          exact language_many_words [.comma] (word .identifier)
        · intro token tokens hany h
          exact (havoids.elim hany h).elim
        · intro comma
          exact (ih (count + 1)).idle fun _ => .finish
        · exact .finish

theorem parameters_predicts (fuel : Nat) (hK : K.Nonempty) :
    Predicts Always (opt (rule .parameters)).language ((word .rightParen).language * K)
      (parameters fuel) := by
  rw [parameters]
  apply Predicts.optional (by decide) (by decide)
  · intro token tokens h
    have hany := (cons_mem_words_mul [.rightParen]).1 h
    simpa [Token.isAny] using hany.1
  · exact parametersRest_predicts fuel 0 (nonempty_mul rfl hK) (Avoids.of_phrase (by decide) rfl)

/-! ## Statements and declarations -/

/-- With this much fuel every rule for statements and declarations predicts its
phrase. -/
structure StatementsPredict (fuel : Nat) : Prop where
  declaration? {K : Language Token} (hK : K.Nonempty) (habsorbs : Absorbs K) :
    Predicts Always (rule .declaration).language K (declaration? fuel)
  declaration {K : Language Token} (hK : K.Nonempty) (habsorbs : Absorbs K) :
    Predicts Always (rule .declaration).language K (declaration fuel)
  statement {K : Language Token} (hK : K.Nonempty) (habsorbs : Absorbs K) :
    Predicts Always (rule .statement).language K (statement fuel)
  block {K : Language Token} (hK : K.Nonempty) :
    Predicts Always (seq (many (rule .declaration)) (word .rightBrace)).language K (block fuel)
  declarations {K : Language Token} (hK : K.Nonempty) :
    Predicts Always (many (rule .declaration)).language ((word .rightBrace).language * K)
      (declarations fuel)
  callable {K : Language Token} (form : CallableForm) (hK : K.Nonempty) :
    Predicts Always (rule .callable).language K (callable fuel form)
  methods {K : Language Token} (hK : K.Nonempty) :
    Predicts Always (many (rule .callable)).language ((word .rightBrace).language * K)
      (methods fuel)

theorem statementsPredict_zero : StatementsPredict 0 where
  declaration? _ _ := .halt
  declaration _ _ := .halt
  statement _ _ := .halt
  block _ := .halt
  declarations _ := .halt
  callable _ _ := .halt
  methods _ := .halt

section Step

variable (ih : StatementsPredict fuel)
include ih

theorem classDeclaration_predicts (hK : K.Nonempty) :
    Predicts Always (inOrder [word .identifier, word .leftBrace, many (rule .callable),
      word .rightBrace]).language K (do
        let name ← expect .identifier .className
        let _ ← expect .leftBrace .classOpening
        let methods ← methods fuel
        let _ ← expect .rightBrace .classClosing
        return Stmt.classDecl name methods) := by
  apply (Predicts.expect (by decide) (nonempty_mul rfl hK) _).seq
  intro name
  apply (Predicts.expect (by decide) (nonempty_mul rfl hK) _).seq
  intro opening
  apply (ih.methods hK).seq
  intro methods
  exact (Predicts.expect (by decide) hK _).idle fun _ => .finish

theorem declaration_predicts (hK : K.Nonempty) (habsorbs : Absorbs K) :
    Predicts Always (rule .declaration).language K (declaration (fuel + 1)) := by
  rw [declaration]
  apply Predicts.peek
  intro token
  have hkind : ∀ next, next = token ∧ Always next → next.kind = token.kind := by
    rintro _ ⟨rfl, -⟩
    rfl
  apply Predicts.of_rule
  split
  case h_1 h =>
    rw [h] at hkind
    apply Predicts.narrow hkind
    apply Predicts.of_rule
    exact .word hkind (by decide) (classDeclaration_predicts ih hK)
  case h_2 h =>
    rw [h] at hkind
    apply Predicts.narrow hkind
    apply Predicts.of_rule
    exact .word hkind (by decide) ((ih.callable .function hK).idle fun _ => .finish)
  case h_3 h =>
    rw [h] at hkind
    apply Predicts.narrow hkind
    apply Predicts.of_rule
    exact .word hkind (by decide) (variableDeclaration_predicts hK)
  case h_4 =>
    have hnarrow : Nonterminal.declaration.body.narrow token.kind = rule .statement := by
      cases hcase : token.kind with
      | number value => rfl
      | text value => rfl
      | symbol s => cases s <;> simp_all <;> rfl
    apply Predicts.narrow hkind
    rw [hnarrow]
    exact (ih.statement hK habsorbs).ahead_mono fun _ _ => trivial

theorem forStatement_predicts (hK : K.Nonempty) (habsorbs : Absorbs K) :
    Predicts Always (inOrder [word .leftParen,
      oneOf [rule .varDecl, rule .exprStmt, word .semicolon], opt (rule .expression),
      word .semicolon, opt (rule .expression), word .rightParen, rule .statement]).language K (do
        let _ ← expect .leftParen .forOpening
        let initializer ← forInitializer fuel
        let condition ← clause fuel .semicolon .endOfForCondition
        let increment ← clause fuel .rightParen .forClosing
        return Stmt.forLoop initializer condition increment (← statement fuel)) := by
  apply (Predicts.expect (by decide) (nonempty_mul rfl hK) _).seq
  intro opening
  apply (forInitializer_predicts (nonempty_mul rfl hK)).seq
  intro initializer
  apply (clause_predicts (nonempty_mul rfl hK) (by decide)).seq_pair
  intro condition
  apply (clause_predicts (nonempty_mul rfl hK) (by decide)).seq_pair
  intro increment
  exact (ih.statement hK habsorbs).idle fun _ => .finish

theorem ifStatement_predicts (hK : K.Nonempty) (habsorbs : Absorbs K) :
    Predicts Always (inOrder [word .leftParen, rule .expression, word .rightParen,
      rule .statement, opt (inOrder [word .elseWord, rule .statement])]).language K (do
        let _ ← expect .leftParen .ifOpening
        let condition ← expression fuel
        let _ ← expect .rightParen .ifClosing
        let thenBranch ← statement fuel
        if (← accept? [.elseWord]).isSome then
          return Stmt.branch condition thenBranch (some (← statement fuel))
        else
          return Stmt.branch condition thenBranch none) := by
  apply (Predicts.expect (by decide) (nonempty_mul rfl hK) _).seq
  intro opening
  apply (expression_predicts_before hK rfl (by decide) rfl).seq
  intro condition
  apply (Predicts.expect (by decide) (nonempty_mul rfl hK) _).seq
  intro closing
  apply (ih.statement (nonempty_mul rfl hK) habsorbs.otherwise).seq
  intro thenBranch
  apply Predicts.accept_opt (by decide) (language_opt_words [.elseWord] (rule .statement))
  · intro token tokens hany
    exact habsorbs token tokens (by simpa [Token.isAny] using hany)
  · exact fun word => (ih.statement hK habsorbs).idle fun _ => .finish
  · exact .finish

theorem whileStatement_predicts (hK : K.Nonempty) (habsorbs : Absorbs K) :
    Predicts Always (inOrder [word .leftParen, rule .expression, word .rightParen,
      rule .statement]).language K (do
        let _ ← expect .leftParen .whileOpening
        let condition ← expression fuel
        let _ ← expect .rightParen .whileClosing
        return Stmt.loop condition (← statement fuel)) := by
  apply (Predicts.expect (by decide) (nonempty_mul rfl hK) _).seq
  intro opening
  apply (expression_predicts_before hK rfl (by decide) rfl).seq
  intro condition
  apply (Predicts.expect (by decide) (nonempty_mul rfl hK) _).seq
  intro closing
  exact (ih.statement hK habsorbs).idle fun _ => .finish

theorem statement_predicts (hK : K.Nonempty) (habsorbs : Absorbs K) :
    Predicts Always (rule .statement).language K (statement (fuel + 1)) := by
  rw [statement]
  apply Predicts.peek
  intro token
  have hkind : ∀ next, next = token ∧ Always next → next.kind = token.kind := by
    rintro _ ⟨rfl, -⟩
    rfl
  apply Predicts.of_rule
  split
  case h_8 =>
    have hnarrow : Nonterminal.statement.body.narrow token.kind = rule .exprStmt := by
      cases hcase : token.kind with
      | number value => rfl
      | text value => rfl
      | symbol s => cases s <;> simp_all <;> rfl
    apply Predicts.narrow hkind
    rw [hnarrow]
    exact (expressionStatement_predicts hK).ahead_mono fun _ _ => trivial
  -- In the other cases the word that comes first decides for one rule.
  all_goals
    rename_i h
    rw [h] at hkind
    apply Predicts.narrow hkind
    apply Predicts.of_rule
    apply Predicts.word hkind (by decide)
  case h_1 => exact forStatement_predicts ih hK habsorbs
  case h_2 => exact ifStatement_predicts ih hK habsorbs
  case h_3 => exact whileStatement_predicts ih hK habsorbs
  case h_4 => exact breakStatement_predicts hK token
  case h_5 => exact returnStatement_predicts hK token
  case h_6 => exact (ih.block hK).idle fun _ => .finish
  case h_7 => exact expression_expect_predicts hK (by decide)

theorem block_predicts (hK : K.Nonempty) :
    Predicts Always (seq (many (rule .declaration)) (word .rightBrace)).language K
      (block (fuel + 1)) := by
  rw [block]
  apply (ih.declarations hK).seq
  intro body
  exact (Predicts.expect (by decide) hK _).idle fun _ => .finish

omit ih in
/-- A repetition up to a closing brace or the end of the file. -/
theorem repeat_predicts {p : Phrase} {part : Parser (List α)}
    (hbrace : p.starts (.symbol .rightBrace) = false)
    (hend : p.starts (.symbol .endOfFile) = false)
    (h : Predicts Always (seq p (many p)).language ((word .rightBrace).language * K) part) :
    Predicts Always (many p).language ((word .rightBrace).language * K)
      (nextIs .rightBrace >>= fun closed => atEnd >>= fun ended =>
        if closed || ended then pure [] else part) := by
  apply Predicts.nextIs (by decide)
  · have hdone : Predicts (fun next : Token => next.is .rightBrace) (many p).language
        ((word .rightBrace).language * K) (pure [] : Parser (List α)) := by
      apply Predicts.many_done
      intro token hnext
      rwa [Grammar.kind_of_is hnext]
    apply Predicts.atEnd
    · exact hdone.ahead_mono fun _ hnext => hnext.2
    · exact hdone.ahead_mono fun _ hnext => hnext.2
  · apply Predicts.atEnd
    · apply Predicts.many_done
      rintro token ⟨hnext, -⟩
      rwa [Grammar.kind_of_is hnext]
    · apply Predicts.many_more _ h
      rintro token tokens ⟨-, hplain, -⟩ hmem
      have hany := (cons_mem_words_mul [.rightBrace]).1 hmem
      rw [Token.isAny, List.any_cons, hplain] at hany
      exact Bool.noConfusion hany.1

theorem declarations_predicts (hK : K.Nonempty) :
    Predicts Always (many (rule .declaration)).language ((word .rightBrace).language * K)
      (declarations (fuel + 1)) := by
  rw [declarations]
  apply repeat_predicts (by decide) (by decide)
  apply Predicts.seq
  · apply ih.declaration? (nonempty_mul rfl (nonempty_mul rfl hK))
    apply Absorbs.of_avoids
    exact Avoids.mul (by decide) fun _ => Avoids.of_phrase (by decide) rfl
  · intro first
    exact (ih.declarations hK).idle fun _ => .finish

theorem callable_predicts (form : CallableForm) (hK : K.Nonempty) :
    Predicts Always (rule .callable).language K (callable (fuel + 1) form) := by
  rw [callable]
  apply Predicts.of_rule
  apply (Predicts.expect (by decide) (nonempty_mul rfl hK) _).seq
  intro name
  apply (Predicts.expect (by decide) (nonempty_mul rfl hK) _).seq
  intro opening
  apply Predicts.seq
  · have hparameters := parameters_predicts fuel
      (nonempty_mul (p := rule .block) rfl hK)
    rwa [← mul_assoc, ← language_seq] at hparameters
  · intro parameters
    apply (Predicts.expect (by decide) (nonempty_mul rfl hK) _).seq
    intro closing
    apply Predicts.of_rule
    apply (Predicts.expect (by decide) (nonempty_mul rfl hK) _).seq
    intro brace
    exact (ih.block hK).idle fun _ => .finish

theorem methods_predicts (hK : K.Nonempty) :
    Predicts Always (many (rule .callable)).language ((word .rightBrace).language * K)
      (methods (fuel + 1)) := by
  rw [methods]
  apply repeat_predicts (by decide) (by decide)
  apply Predicts.seq
  · exact ih.callable .method (nonempty_mul rfl (nonempty_mul rfl hK))
  · intro first
    exact (ih.methods hK).idle fun _ => .finish

end Step

theorem statementsPredict (fuel : Nat) : StatementsPredict fuel := by
  induction fuel with
  | zero => exact statementsPredict_zero
  | succ fuel ih =>
      exact {
        declaration? := fun hK habsorbs => (ih.declaration hK habsorbs).attempt
        declaration := declaration_predicts ih
        statement := statement_predicts ih
        block := block_predicts ih
        declarations := declarations_predicts ih
        callable := callable_predicts ih
        methods := methods_predicts ih }

/-- The declarations of a program, up to the end of the file. -/
theorem program_predicts (fuel : Nat) :
    Predicts Always (many (rule .declaration)).language (word .endOfFile).language
      (program fuel) := by
  have hshallow : (word .endOfFile).shallow 0 := rfl
  have hK : (word .endOfFile).language.Nonempty := exists_derives hshallow
  have hend : ∀ {token : Token} {tokens : List Token},
      token :: tokens ∈ (word .endOfFile).language → token.is .endOfFile := by
    intro token tokens hmem
    obtain ⟨other, heq, hany⟩ := (mem_words [.endOfFile]).1 hmem
    obtain ⟨rfl, -⟩ := List.cons.inj heq
    simpa [Token.isAny] using hany
  induction fuel with
  | zero => exact .halt
  | succ fuel ih =>
      rw [program]
      apply Predicts.atEnd
      · apply Predicts.many_done
        rintro token ⟨hnext, -⟩
        rw [Grammar.kind_of_is hnext]
        decide
      · apply Predicts.many_more
        · rintro token tokens ⟨hplain, -⟩ hmem
          exact Bool.noConfusion (hplain.symm.trans (hend hmem))
        · apply Predicts.seq
          · apply (statementsPredict fuel).declaration? (nonempty_mul rfl hK)
            apply Absorbs.of_avoids
            refine Avoids.mul (by decide) fun _ token tokens hmem => ?_
            simp [Token.isAny, Token.is, Grammar.kind_of_is (hend hmem)]
          · intro first
            exact ih.idle fun _ => .finish

end Parser

end Lox
