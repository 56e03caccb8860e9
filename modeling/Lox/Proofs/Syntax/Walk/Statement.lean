import Lox.Proofs.Syntax.Walk.Expression

/-!
# Statements by position

Every statement is read by position as the parser reads it.  A declaration that
fails is recovered from at the same place.
-/

namespace Lox.Walk

variable {reach : Reach} {start fuel : Nat}

section Word

variable {cursor : Cursor} {state : Parser.State} {symbol : Symbol} {α : Type} {yes no : Walk α}

/-- The word comes next, and both ways go on behind it. -/
theorem At.word {further : Unit → Parser α} (h : At reach start cursor state)
    (hkind : state.next.kind = .symbol symbol) (hne : symbol ≠ .endOfFile)
    (hyes : ∀ cursor' state', At reach start cursor' state' →
      Walk.previous cursor' = .ok state.next cursor' →
      Ends (At reach start) Alike Eq (yes cursor') (further () state')) :
    Ends (At reach start) Alike Eq ((do if ← accepts symbol then yes else no) cursor)
      ((Parser.advance >>= further) state) := by
  have haccepts := h.acceptsAny [symbol]
  obtain ⟨_ | ⟨token, rest⟩, ending, nextId, diagnostics⟩ := state
  · exact absurd (Kind.symbol.inj (hkind.symm.trans (h.kind_next rfl))) hne
  · have hany : token.isAny [symbol] = true := by
      have htoken : token.kind = .symbol symbol := hkind
      simp [Token.isAny, Token.is, htoken]
    rw [List.head?_cons, Option.any_some, hany, if_pos rfl] at haccepts
    rw [accepts_eq, bind_of_ok haccepts]
    exact hyes _ _ (h.next rfl) (h.previous rfl)

/-- The word does not come next. -/
theorem At.otherwise (h : At reach start cursor state) (hkind : state.next.kind ≠ .symbol symbol) :
    (do if ← accepts symbol then yes else no) cursor = no cursor := by
  have haccepts := h.acceptsAny [symbol]
  have hany : state.rest.head?.any (·.isAny [symbol]) = false := by
    obtain ⟨_ | ⟨token, rest⟩, ending, nextId, diagnostics⟩ := state
    · rfl
    · have his : token.is symbol = false :=
        Bool.eq_false_iff.2 fun his => hkind (Grammar.kind_of_is his)
      simp [Token.isAny, his]
  rw [hany, if_neg Bool.false_ne_true] at haccepts
  rw [accepts_eq, bind_of_ok haccepts]
  rfl

end Word

/-- Both ways stop at a closing brace and at the end of the file. -/
theorem upToBrace_follows {α : Type} {stop further : Walk α} {stop' further' : Parser α}
    (hstop : Follows reach start stop stop') (hfurther : Follows reach start further further') :
    Follows reach start
      (do if ← check .rightBrace then stop else if ← isAtEnd then stop else further)
      (do if (← Parser.nextIs .rightBrace) || (← Parser.atEnd) then stop' else further') := by
  apply (check_follows _).bind
  rintro closed _ rfl
  cases closed with
  | true => exact fun cursor state h => hstop cursor state h
  | false =>
      apply isAtEnd_follows.bind
      rintro ended _ rfl
      rw [Bool.false_or]
      split
      · exact hstop
      · exact hfurther

section Step

variable (ih : RulesFollow reach start fuel)
include ih

/-! ## Statements without statements in them -/

/-- An expression that may be missing, and what is read after it. -/
theorem optional_follows {α : Type} (absent : Bool) {rest : Option Expr → Walk α}
    {rest' : Option Expr → Parser α}
    (hrest : ∀ value?, Follows reach start (rest value?) (rest' value?)) :
    Follows reach start
      (if absent then pure none >>= rest else some <$> expression fuel >>= rest)
      (if absent then pure none >>= rest' else some <$> Parser.expression fuel >>= rest') := by
  cases absent with
  | true => exact hrest none
  | false =>
      have hread : Follows reach start (some <$> expression fuel)
          (some <$> Parser.expression fuel) :=
        (ih .expression).map fun _ _ hvalue => congrArg some hvalue
      apply hread.bind
      rintro value? _ rfl
      exact hrest value?

theorem variableDeclaration_follows :
    Follows reach start (variableDeclaration fuel) (Parser.variableDeclaration fuel) := by
  apply (expect_follows _ _).bind
  rintro name _ rfl
  apply (accepts_follows _).bind
  rintro _ equals? rfl
  have hread := optional_follows ih (!equals?.isSome)
    (fun value? => (expect_follows .semicolon .endOfVariable).bind fun _ _ _ =>
      (.pure rfl : Follows reach start (pure (Stmt.declare name value?))
        (pure (Stmt.declare name value?))))
  cases equals? <;> exact hread

theorem expressionStatement_follows :
    Follows reach start (expressionStatement fuel) (Parser.expressionStatement fuel) := by
  apply (ih .expression).bind
  rintro value _ rfl
  apply (expect_follows _ _).bind
  rintro _ _ -
  exact .pure rfl

theorem printStatement_follows :
    Follows reach start (printStatement fuel) (Parser.printStatement fuel) := by
  apply (ih .expression).bind
  rintro value _ rfl
  apply (expect_follows _ _).bind
  rintro _ _ -
  exact .pure rfl

/-- The keyword is looked back at. -/
theorem returnStatement_follows {keyword : Token} (cursor : Cursor) (state : Parser.State)
    (h : At reach start cursor state) (hkeyword : previous cursor = .ok keyword cursor) :
    Ends (At reach start) Alike Eq (returnStatement fuel cursor)
      (Parser.returnStatement fuel keyword state) := by
  rw [returnStatement, bind_of_ok hkeyword]
  refine (check_follows _).bind ?_ _ _ h
  rintro absent _ rfl
  apply optional_follows ih
  intro value?
  apply (expect_follows _ _).bind
  rintro _ _ -
  exact .pure rfl

omit ih in
theorem breakStatement_follows {keyword : Token} (cursor : Cursor) (state : Parser.State)
    (h : At reach start cursor state) (hkeyword : previous cursor = .ok keyword cursor) :
    Ends (At reach start) Alike Eq (breakStatement cursor)
      (Parser.breakStatement keyword state) := by
  rw [breakStatement, bind_of_ok hkeyword]
  refine (expect_follows _ _).bind ?_ _ _ h
  rintro _ _ -
  exact .pure rfl

theorem clause_follows (closing : Symbol) (what : Expectation) :
    Follows reach start (clause fuel closing what) (Parser.clause fuel closing what) := by
  apply (check_follows _).bind
  rintro absent _ rfl
  apply optional_follows ih
  intro value?
  apply (expect_follows _ _).bind
  rintro _ _ -
  exact .pure rfl

theorem forInitializer_follows :
    Follows reach start (forInitializer fuel) (Parser.forInitializer fuel) := by
  apply accepts_bind
  · exact .pure rfl
  · apply accepts_bind
    · apply (variableDeclaration_follows ih).bind
      rintro s _ rfl
      exact .pure rfl
    · apply (expressionStatement_follows ih).bind
      rintro s _ rfl
      exact .pure rfl

theorem parameters_follows :
    Follows reach start (parameters fuel) (Parser.parameters fuel) := by
  apply (check_follows _).bind
  rintro closed _ rfl
  split
  · exact .pure rfl
  · exact ih (.parametersRest 0)

theorem parametersRest_follows (count : Nat) :
    Follows reach start (parametersRest (fuel + 1) count)
      (Parser.parametersRest (fuel + 1) count) := by
  rw [parametersRest, Parser.parametersRest]
  apply (checkArity_follows _ _).bind
  rintro _ _ -
  apply (expect_follows _ _).bind
  rintro parameter _ rfl
  apply accepts_bind
  · apply (ih (.parametersRest (count + 1))).bind
    rintro rest _ rfl
    exact .pure rfl
  · exact .pure rfl

/-! ## Statements in statements -/

theorem block_follows : Follows reach start (block (fuel + 1)) (Parser.block (fuel + 1)) := by
  rw [block, Parser.block]
  apply (ih .declarations).bind
  rintro body _ rfl
  apply (expect_follows _ _).bind
  rintro _ _ -
  exact .pure rfl

theorem declarations_follows :
    Follows reach start (declarations (fuel + 1)) (Parser.declarations (fuel + 1)) := by
  rw [declarations, Parser.declarations]
  apply upToBrace_follows (.pure rfl)
  apply (ih .declaration?).bind
  rintro first _ rfl
  apply (ih .declarations).bind
  rintro rest _ rfl
  exact .pure rfl

theorem callable_follows (form : CallableForm) :
    Follows reach start (callable (fuel + 1) form) (Parser.callable (fuel + 1) form) := by
  rw [callable, Parser.callable]
  apply (expect_follows _ _).bind
  rintro name _ rfl
  apply (expect_follows _ _).bind
  rintro _ _ -
  apply (parameters_follows ih).bind
  rintro parameters _ rfl
  apply (expect_follows _ _).bind
  rintro _ _ -
  apply (expect_follows _ _).bind
  rintro _ _ -
  apply (ih .block).bind
  rintro body _ rfl
  exact .pure rfl

theorem methods_follows :
    Follows reach start (methods (fuel + 1)) (Parser.methods (fuel + 1)) := by
  rw [methods, Parser.methods]
  apply upToBrace_follows (.pure rfl)
  apply (ih (.callable .method)).bind
  rintro first _ rfl
  apply (ih .methods).bind
  rintro rest _ rfl
  exact .pure rfl

theorem declaration_follows :
    Follows reach start (declaration (fuel + 1)) (Parser.declaration (fuel + 1)) := by
  intro cursor state h
  have hpeek : Parser.peek state = .ok state.next state := rfl
  rw [declaration, bind_of_ok h.peek, Parser.declaration, bind_of_ok hpeek]
  generalize hkind : state.next.kind = kind
  split
  case h_1 =>
    refine h.word hkind (by decide) fun _ _ hat _ => ?_
    refine (expect_follows _ _).bind ?_ _ _ hat
    rintro name _ rfl
    apply (expect_follows _ _).bind
    rintro _ _ -
    apply (ih .methods).bind
    rintro methods _ rfl
    apply (expect_follows _ _).bind
    rintro _ _ -
    exact .pure rfl
  case h_2 =>
    rw [h.otherwise (by simp [hkind])]
    refine h.word hkind (by decide) fun _ _ hat _ => ?_
    refine (ih (.callable .function)).bind ?_ _ _ hat
    rintro declaration _ rfl
    exact .pure rfl
  case h_3 =>
    iterate 2 rw [h.otherwise (by simp [hkind])]
    exact h.word hkind (by decide) fun _ _ hat _ => variableDeclaration_follows ih _ _ hat
  case h_4 hclass hfun hvar =>
    subst hkind
    rw [h.otherwise hclass, h.otherwise hfun, h.otherwise hvar]
    exact ih .statement _ _ h

theorem statement_follows :
    Follows reach start (statement (fuel + 1)) (Parser.statement (fuel + 1)) := by
  intro cursor state h
  have hpeek : Parser.peek state = .ok state.next state := rfl
  rw [statement, bind_of_ok h.peek, Parser.statement, bind_of_ok hpeek]
  generalize hkind : state.next.kind = kind
  split
  case h_1 =>
    refine h.word hkind (by decide) fun _ _ hat _ => ?_
    refine (expect_follows _ _).bind ?_ _ _ hat
    rintro _ _ -
    apply (forInitializer_follows ih).bind
    rintro initializer _ rfl
    apply (clause_follows ih _ _).bind
    rintro condition _ rfl
    apply (clause_follows ih _ _).bind
    rintro increment _ rfl
    apply (ih .statement).bind
    rintro body _ rfl
    exact .pure rfl
  case h_2 =>
    rw [h.otherwise (by simp [hkind])]
    refine h.word hkind (by decide) fun _ _ hat _ => ?_
    refine (expect_follows _ _).bind ?_ _ _ hat
    rintro _ _ -
    apply (ih .expression).bind
    rintro condition _ rfl
    apply (expect_follows _ _).bind
    rintro _ _ -
    apply (ih .statement).bind
    rintro thenBranch _ rfl
    apply accepts_bind
    · apply (ih .statement).bind
      rintro elseBranch _ rfl
      exact .pure rfl
    · exact .pure rfl
  case h_3 =>
    iterate 2 rw [h.otherwise (by simp [hkind])]
    refine h.word hkind (by decide) fun _ _ hat _ => ?_
    refine (expect_follows _ _).bind ?_ _ _ hat
    rintro _ _ -
    apply (ih .expression).bind
    rintro condition _ rfl
    apply (expect_follows _ _).bind
    rintro _ _ -
    apply (ih .statement).bind
    rintro body _ rfl
    exact .pure rfl
  case h_4 =>
    iterate 3 rw [h.otherwise (by simp [hkind])]
    exact h.word hkind (by decide) breakStatement_follows
  case h_5 =>
    iterate 4 rw [h.otherwise (by simp [hkind])]
    exact h.word hkind (by decide) (returnStatement_follows ih)
  case h_6 =>
    iterate 5 rw [h.otherwise (by simp [hkind])]
    refine h.word hkind (by decide) fun _ _ hat _ => ?_
    refine (ih .block).bind ?_ _ _ hat
    rintro body _ rfl
    exact .pure rfl
  case h_7 =>
    iterate 6 rw [h.otherwise (by simp [hkind])]
    exact h.word hkind (by decide) fun _ _ hat _ => printStatement_follows ih _ _ hat
  case h_8 hfor hif hwhile hbreak hreturn hblock hprint =>
    subst hkind
    rw [h.otherwise hfor, h.otherwise hif, h.otherwise hwhile, h.otherwise hbreak,
      h.otherwise hreturn, h.otherwise hblock, h.otherwise hprint]
    exact expressionStatement_follows ih _ _ h

end Step

end Lox.Walk
