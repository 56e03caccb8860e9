import Lox.Proofs.Syntax.Numbering.Expression

/-!
# Numbering of statements and programs

Every program that is read is formed, whether or not it has syntax errors, and
its name occurrences have numbers of their own: no two of them share one, and
all lie between the number that was next before the program was read and the
one that is next afterwards.
-/

namespace Lox.Parser

variable {spelled : Token → Prop} {next : Nat}

/-- A part that may be missing has numbers only where it is there. -/
theorem New.some {α : Type} {lower upper : Nat} {formed : α → Prop} {ids : α → List Nat}
    {part : α} (h : New lower upper (formed part) (ids part)) :
    New lower upper (∀ p, Option.some part = Option.some p → formed p)
      (((Option.some part).map ids).getD []) :=
  ⟨fun _ hp => Option.some.inj hp ▸ h.formed, h.numbers⟩

theorem New.none {α : Type} {next : Nat} {formed : α → Prop} {ids : α → List Nat} :
    New next next (∀ p, (Option.none : Option α) = Option.some p → formed p)
      (((Option.none : Option α).map ids).getD []) :=
  ⟨fun _ hp => by simp at hp, .nil le_rfl⟩

theorem expression_from (fuel : Nat) :
    From spelled next (expression fuel) fun after e => New next after (e.Formed spelled) e.ids :=
  (expressionsNew fuel).expression next

/-- An expression followed by the token that ends it. -/
theorem expression_expect_from {α : Type} (fuel : Nat) (symbol : Symbol)
    (what : Expectation) (build : Expr → α) {good : Nat → α → Prop}
    (hgood : ∀ after e, New next after (e.Formed spelled) e.ids → good after (build e)) :
    From spelled next (do
      let value ← expression fuel
      let _ ← expect symbol what
      return build value) good := by
  apply (expression_from fuel).bind
  intro middle value _ hvalue
  apply (expect_idle _ _).bind
  intro _ _
  exact .pure (hgood _ _ hvalue)

/-- An expression that may be missing, and what is read after it. -/
theorem optional_from {α : Type} (fuel : Nat) (absent : Bool) {rest : Option Expr → Parser α}
    {good : Nat → α → Prop}
    (hrest : ∀ middle e?,
      New next middle (∀ e, e? = Option.some e → e.Formed spelled) ((e?.map Expr.ids).getD []) →
        From spelled middle (rest e?) good) :
    From spelled next (if absent then pure none >>= rest else some <$> expression fuel >>= rest)
      good := by
  cases absent with
  | true => exact hrest next none .none
  | false =>
      have hread : From spelled next (some <$> expression fuel) fun after e? =>
          New next after (∀ e, e? = Option.some e → e.Formed spelled) ((e?.map Expr.ids).getD []) :=
        (expression_from fuel).map fun _ _ _ h => .some h
      exact hread.bind fun middle e? _ h => hrest middle e? h

theorem clause_from (fuel : Nat) (closing : Symbol) (what : Expectation) :
    From spelled next (clause fuel closing what) fun after e? =>
      New next after (∀ e, e? = Option.some e → e.Formed spelled) ((e?.map Expr.ids).getD []) := by
  rw [clause]
  apply (nextIs_idle _).bind
  intro absent _
  apply optional_from fuel absent
  intro middle value? hvalue
  apply (expect_idle _ _).bind
  intro _ _
  exact .pure hvalue

theorem variableDeclaration_from (fuel : Nat) :
    From spelled next (variableDeclaration fuel) fun after s =>
      New next after (s.Formed spelled) s.ids := by
  rw [variableDeclaration]
  apply (expect_idle _ _).bind
  intro name hname
  apply (accept?_idle _).bind
  intro equals? _
  have hrest : ∀ after value?,
      New next after (∀ e, value? = Option.some e → e.Formed spelled)
        ((value?.map Expr.ids).getD []) →
      From spelled after (do
        let _ ← expect .semicolon .endOfVariable
        return Stmt.declare name value?) fun last s => New next last (s.Formed spelled) s.ids := by
    intro after value? hvalue
    apply (expect_idle _ _).bind
    intro _ _
    cases value? with
    | none => exact .pure ⟨hname, hvalue.numbers⟩
    | some value => exact .pure ⟨⟨hname, hvalue.formed value rfl⟩, hvalue.numbers⟩
  have hread := optional_from fuel (!equals?.isSome) hrest
  cases equals? <;> exact hread

/-- A statement that declares nothing where it stands. -/
abbrev NewStatement (spelled : Token → Prop) (lower upper : Nat) (s : Stmt) : Prop :=
  New lower upper (s.Formed spelled) s.ids ∧ s.declared? = none

theorem expressionStatement_from (fuel : Nat) :
    From spelled next (expressionStatement fuel) (NewStatement spelled next) :=
  expression_expect_from fuel _ _ _ fun _ _ h => ⟨⟨h.formed, h.numbers⟩, rfl⟩

theorem printStatement_from (fuel : Nat) :
    From spelled next (printStatement fuel) (NewStatement spelled next) :=
  expression_expect_from fuel _ _ _ fun _ _ h => ⟨⟨h.formed, h.numbers⟩, rfl⟩

theorem returnStatement_from (fuel : Nat) (keyword : Token) :
    From spelled next (returnStatement fuel keyword) (NewStatement spelled next) := by
  rw [returnStatement]
  apply (nextIs_idle _).bind
  intro absent _
  apply optional_from fuel absent
  intro middle value? hvalue
  apply (expect_idle _ _).bind
  intro _ _
  cases value? with
  | none => exact .pure ⟨⟨trivial, hvalue.numbers⟩, rfl⟩
  | some value => exact .pure ⟨⟨hvalue.formed value rfl, hvalue.numbers⟩, rfl⟩

theorem breakStatement_from (keyword : Token) :
    From spelled next (breakStatement keyword) (NewStatement spelled next) := by
  rw [breakStatement]
  apply (expect_idle _ _).bind
  intro _ _
  exact .pure ⟨⟨trivial, .nil le_rfl⟩, rfl⟩

theorem forInitializer_from (fuel : Nat) :
    From spelled next (forInitializer fuel) fun after s? =>
      New next after (∀ s, s? = Option.some s → s.Formed spelled) ((s?.map Stmt.ids).getD []) := by
  rw [forInitializer]
  apply (accept?_idle _).bind
  intro semicolon? _
  split
  · exact .pure .none
  apply (accept?_idle _).bind
  intro var? _
  split
  · apply (variableDeclaration_from fuel).bind
    intro after s _ hs
    exact .pure hs.some
  · apply (expressionStatement_from fuel).bind
    intro after s _ hs
    exact .pure hs.1.some

/-- The parts of a loop are read in the order of its clauses, which is not the
order in which they stand in the tree. -/
theorem forLoop_new {first second third fourth last : Nat} {initializer : Option Stmt}
    {condition increment : Option Expr} {body : Stmt}
    (hinitializer : New first second (∀ s, initializer = Option.some s → s.Formed spelled)
      ((initializer.map Stmt.ids).getD []))
    (hcondition : New second third (∀ e, condition = Option.some e → e.Formed spelled)
      ((condition.map Expr.ids).getD []))
    (hincrement : New third fourth (∀ e, increment = Option.some e → e.Formed spelled)
      ((increment.map Expr.ids).getD []))
    (hbody : NewStatement spelled fourth last body) :
    NewStatement spelled first last (.forLoop initializer condition increment body) := by
  obtain ⟨hbody, hplain⟩ := hbody
  have hround := (hincrement.numbers.append hbody.numbers).swap
  have hloop := hcondition.numbers.append hround
  have hall := hinitializer.numbers.append hloop
  have htest : (condition.getD (.literal (.truth true))).Formed spelled := by
    cases condition with
    | none => trivial
    | some e => exact hcondition.formed e rfl
  have htestIds : (condition.getD (.literal (.truth true))).ids =
      (condition.map Expr.ids).getD [] := by
    cases condition <;> rfl
  cases initializer <;> cases increment <;>
    simp only [Stmt.forLoop, NewStatement, Stmt.declared?, and_true] <;>
    refine ⟨?_, ?_⟩
  case none.none.refine_1 => exact ⟨htest, hbody.formed, hplain⟩
  case none.some.refine_1 e =>
    exact ⟨htest, ⟨hbody.formed, hincrement.formed e rfl, trivial⟩, rfl⟩
  case some.none.refine_1 s =>
    exact ⟨hinitializer.formed s rfl, ⟨htest, hbody.formed, hplain⟩, trivial⟩
  case some.some.refine_1 s e =>
    refine ⟨hinitializer.formed s rfl, ⟨htest, ?_, rfl⟩, trivial⟩
    exact ⟨hbody.formed, hincrement.formed e rfl, trivial⟩
  all_goals
    simpa [Stmt.ids, Stmt.idsAll, htestIds] using hall

/-! ## Declarations and programs -/

theorem parametersRest_idle (fuel count : Nat) :
    Idle spelled (parametersRest fuel count) fun names =>
      ∀ name ∈ names, name.Names spelled := by
  induction fuel generalizing count with
  | zero => exact fun _ => .halt
  | succ fuel ih =>
      intro next
      rw [parametersRest]
      apply (checkArity_idle _ _).bind
      intro _ _
      apply (expect_idle _ _).bind
      intro parameter hparameter
      apply (accept?_idle _).bind
      intro comma? _
      split
      · apply (ih (count + 1)).bind
        intro rest hrest
        exact .pure ⟨rfl, List.forall_mem_cons.2 ⟨hparameter, hrest⟩⟩
      · exact .pure ⟨rfl, List.forall_mem_singleton.2 hparameter⟩

theorem parameters_idle (fuel : Nat) :
    Idle spelled (parameters fuel) fun names => ∀ name ∈ names, name.Names spelled := by
  intro next
  rw [parameters]
  apply (nextIs_idle _).bind
  intro absent _
  split
  · exact .pure ⟨rfl, List.forall_mem_nil _⟩
  · exact parametersRest_idle fuel 0 next

/-- Every declaration and statement that is read is new. -/
structure StatementsNew (spelled : Token → Prop) (fuel : Nat) : Prop where
  declaration? (next : Nat) :
    From spelled next (declaration? fuel) fun after s? =>
      next ≤ after ∧ ∀ s, s? = some s → New next after (s.Formed spelled) s.ids
  declaration (next : Nat) :
    From spelled next (declaration fuel) fun after s => New next after (s.Formed spelled) s.ids
  statement (next : Nat) : From spelled next (statement fuel) (NewStatement spelled next)
  block (next : Nat) :
    From spelled next (block fuel) fun after ss =>
      New next after (Stmt.FormedAll spelled ss) (Stmt.idsAll ss)
  declarations (next : Nat) :
    From spelled next (declarations fuel) fun after ss =>
      New next after (Stmt.FormedAll spelled ss) (Stmt.idsAll ss)
  callable (next : Nat) (form : CallableForm) :
    From spelled next (callable fuel form) fun after d => New next after (d.Formed spelled) d.ids
  methods (next : Nat) :
    From spelled next (methods fuel) fun after ds =>
      New next after (FunctionDecl.FormedAll spelled ds) (FunctionDecl.idsAll ds)

theorem statementsNew_zero : StatementsNew spelled 0 where
  declaration? _ := .halt
  declaration _ := .halt
  statement _ := .halt
  block _ := .halt
  declarations _ := .halt
  callable _ _ := .halt
  methods _ := .halt

/-- A declaration that was left out adds nothing to those that follow it. -/
theorem toList_append_new {lower middle upper : Nat} {first : Option Stmt} {rest : List Stmt}
    (hle : lower ≤ middle)
    (hfirst : ∀ s, first = some s → New lower middle (s.Formed spelled) s.ids)
    (hrest : New middle upper (Stmt.FormedAll spelled rest) (Stmt.idsAll rest)) :
    New lower upper (Stmt.FormedAll spelled (first.toList ++ rest))
      (Stmt.idsAll (first.toList ++ rest)) := by
  cases first with
  | none => exact ⟨hrest.formed, hrest.numbers.widen hle⟩
  | some s =>
      have hs := hfirst s rfl
      exact ⟨⟨hs.formed, hrest.formed⟩, hs.numbers.append hrest.numbers⟩

section Step

variable {fuel : Nat} (ih : StatementsNew spelled fuel)
include ih

theorem declaration_step :
    From spelled next (declaration (fuel + 1)) fun after s =>
      New next after (s.Formed spelled) s.ids := by
  rw [declaration]
  apply peek_idle.bind
  intro token htoken
  split
  · apply advance_idle.bind
    intro _ _
    apply (expect_idle _ _).bind
    intro name hname
    apply (expect_idle _ _).bind
    intro _ _
    apply (ih.methods _).bind
    intro after methods _ hmethods
    apply (expect_idle _ _).bind
    intro _ _
    exact .pure ⟨⟨hname, hmethods.formed⟩, hmethods.numbers⟩
  · apply advance_idle.bind
    intro _ _
    apply (ih.callable _ _).bind
    intro after declaration _ hdeclaration
    exact .pure ⟨hdeclaration.formed, hdeclaration.numbers⟩
  · apply advance_idle.bind
    intro _ _
    exact variableDeclaration_from fuel
  · exact (ih.statement _).mono fun _ _ _ h => h.1

theorem forStatement_step :
    From spelled next (do
      advance
      let _ ← expect .leftParen .forOpening
      let initializer ← forInitializer fuel
      let condition ← clause fuel .semicolon .endOfForCondition
      let increment ← clause fuel .rightParen .forClosing
      return .forLoop initializer condition increment (← statement fuel))
      (NewStatement spelled next) := by
  apply advance_idle.bind
  intro _ _
  apply (expect_idle _ _).bind
  intro _ _
  apply (forInitializer_from fuel).bind
  intro second initializer _ hinitializer
  apply (clause_from fuel _ _).bind
  intro third condition _ hcondition
  apply (clause_from fuel _ _).bind
  intro fourth increment _ hincrement
  apply (ih.statement _).bind
  intro last body _ hbody
  exact .pure (forLoop_new hinitializer hcondition hincrement hbody)

theorem ifStatement_step :
    From spelled next (do
      advance
      let _ ← expect .leftParen .ifOpening
      let condition ← expression fuel
      let _ ← expect .rightParen .ifClosing
      let thenBranch ← statement fuel
      if (← accept? [.elseWord]).isSome then
        return .branch condition thenBranch (some (← statement fuel))
      else
        return .branch condition thenBranch none) (NewStatement spelled next) := by
  apply advance_idle.bind
  intro _ _
  apply (expect_idle _ _).bind
  intro _ _
  apply (expression_from fuel).bind
  intro middle condition _ hcondition
  apply (expect_idle _ _).bind
  intro _ _
  apply (ih.statement _).bind
  rintro after thenBranch - ⟨hthen, hplain⟩
  have hnumbers := hcondition.numbers.append hthen.numbers
  apply (accept?_idle _).bind
  intro else? _
  split
  · apply (ih.statement _).bind
    rintro last elseBranch - ⟨helse, hplain'⟩
    refine .pure ⟨⟨⟨hcondition.formed, ⟨hthen.formed, hplain⟩, helse.formed, hplain'⟩, ?_⟩, rfl⟩
    exact hnumbers.append helse.numbers
  · exact .pure ⟨⟨⟨hcondition.formed, hthen.formed, hplain⟩, hnumbers⟩, rfl⟩

theorem whileStatement_step :
    From spelled next (do
      advance
      let _ ← expect .leftParen .whileOpening
      let condition ← expression fuel
      let _ ← expect .rightParen .whileClosing
      return .loop condition (← statement fuel)) (NewStatement spelled next) := by
  apply advance_idle.bind
  intro _ _
  apply (expect_idle _ _).bind
  intro _ _
  apply (expression_from fuel).bind
  intro middle condition _ hcondition
  apply (expect_idle _ _).bind
  intro _ _
  apply (ih.statement _).bind
  rintro after body - ⟨hbody, hplain⟩
  refine .pure ⟨⟨⟨hcondition.formed, hbody.formed, hplain⟩, ?_⟩, rfl⟩
  exact hcondition.numbers.append hbody.numbers

theorem statement_step : From spelled next (statement (fuel + 1)) (NewStatement spelled next) := by
  rw [statement]
  apply peek_idle.bind
  intro token htoken
  split
  · exact forStatement_step ih
  · exact ifStatement_step ih
  · exact whileStatement_step ih
  · apply advance_idle.bind
    intro _ _
    exact breakStatement_from token
  · apply advance_idle.bind
    intro _ _
    exact returnStatement_from fuel token
  · apply advance_idle.bind
    intro _ _
    apply (ih.block _).bind
    intro after body _ hbody
    exact .pure ⟨⟨hbody.formed, hbody.numbers⟩, rfl⟩
  · apply advance_idle.bind
    intro _ _
    exact printStatement_from fuel
  · exact expressionStatement_from fuel

theorem block_step :
    From spelled next (block (fuel + 1)) fun after ss =>
      New next after (Stmt.FormedAll spelled ss) (Stmt.idsAll ss) := by
  rw [block]
  apply (ih.declarations _).bind
  intro middle body _ hbody
  apply (expect_idle _ _).bind
  intro _ _
  exact .pure hbody

theorem declarations_step :
    From spelled next (declarations (fuel + 1)) fun after ss =>
      New next after (Stmt.FormedAll spelled ss) (Stmt.idsAll ss) := by
  rw [declarations]
  apply (nextIs_idle _).bind
  intro closed _
  apply atEnd_idle.bind
  intro ended _
  split
  · exact .pure ⟨trivial, .nil le_rfl⟩
  · apply (ih.declaration? _).bind
    rintro middle first - ⟨hle, hfirst⟩
    apply (ih.declarations _).bind
    intro after rest _ hrest
    exact .pure (toList_append_new hle hfirst hrest)

theorem callable_step (form : CallableForm) :
    From spelled next (callable (fuel + 1) form) fun after d =>
      New next after (d.Formed spelled) d.ids := by
  rw [callable]
  apply (expect_idle _ _).bind
  intro name hname
  apply (expect_idle _ _).bind
  intro _ _
  apply (parameters_idle fuel).bind
  intro parameters hparameters
  apply (expect_idle _ _).bind
  intro _ _
  apply (expect_idle _ _).bind
  intro _ _
  apply (ih.block _).bind
  intro after body _ hbody
  exact .pure ⟨⟨hname, hparameters, hbody.formed⟩, hbody.numbers⟩

theorem methods_step :
    From spelled next (methods (fuel + 1)) fun after ds =>
      New next after (FunctionDecl.FormedAll spelled ds) (FunctionDecl.idsAll ds) := by
  rw [methods]
  apply (nextIs_idle _).bind
  intro closed _
  apply atEnd_idle.bind
  intro ended _
  split
  · exact .pure ⟨trivial, .nil le_rfl⟩
  · apply (ih.callable _ _).bind
    intro middle first _ hfirst
    apply (ih.methods _).bind
    intro after rest _ hrest
    exact .pure ⟨⟨hfirst.formed, hrest.formed⟩, hfirst.numbers.append hrest.numbers⟩

end Step

theorem statementsNew (fuel : Nat) : StatementsNew spelled fuel := by
  induction fuel with
  | zero => exact statementsNew_zero
  | succ fuel ih =>
      exact {
        declaration? := fun next => attempt_from (ih.declaration _)
        declaration := fun _ => declaration_step ih
        statement := fun _ => statement_step ih
        block := fun _ => block_step ih
        declarations := fun _ => declarations_step ih
        callable := fun _ => callable_step ih
        methods := fun _ => methods_step ih }

theorem program_from (fuel : Nat) :
    From spelled next (program fuel) fun after ss =>
      New next after (Stmt.FormedAll spelled ss) (Stmt.idsAll ss) := by
  induction fuel generalizing next with
  | zero => exact .halt
  | succ fuel ih =>
      rw [program]
      apply atEnd_idle.bind
      intro ended _
      split
      · exact .pure ⟨trivial, .nil le_rfl⟩
      · apply ((statementsNew fuel).declaration? next).bind
        rintro middle first - ⟨hle, hfirst⟩
        apply ih.bind
        intro after rest _ hrest
        exact .pure (toList_append_new hle hfirst hrest)

end Lox.Parser

namespace Lox.Parsed

open Lox.Parser

variable {spelled : Token → Prop}

/-- A program that is read is formed, and its name occurrences have distinct
numbers, all of them handed out while it was read. -/
theorem ofStream_new {stream : TokenStream} (next : Nat) (hending : spelled stream.ending)
    (hbody : ∀ token ∈ stream.body, spelled token) :
    New next (ofStream stream next).nextId
      (Stmt.FormedAll spelled (ofStream stream next).statements)
      (Stmt.idsAll (ofStream stream next).statements) := by
  have hprogram := @program_from spelled next (fuel stream)
    ⟨stream.body, stream.ending, next, #[]⟩ ⟨hending, hbody⟩ rfl
  rw [ofStream]
  split <;> rename_i hresult <;> rw [hresult] at hprogram
  · exact hprogram.2.2
  · exact ⟨trivial, .nil hprogram.2⟩

end Lox.Parsed
