import Lox.Proofs.Syntax.Recognition.Expression

/-!
# Recognition of statements and programs

What derives a program is read as that program without a report.  A statement
that is dangling is followed only by what is not an `else`; since no declaration
begins with that word, this never hinders a list of declarations.
-/

namespace Lox.Parser

open Grammar Leads

def statementStarts : List Symbol :=
  expressionStarts ++
    [.forWord, .ifWord, .whileWord, .breakWord, .returnWord, .leftBrace, .printWord]

def declarationStarts : List Symbol :=
  statementStarts ++ [.classWord, .funWord, .varWord]

/-! ## First tokens -/

theorem Statement.headed {dangling : Bool} {lower upper : Nat} {tokens : List Token} {s : Stmt}
    (h : Statement dangling lower tokens upper s) : Headed statementStarts tokens := by
  cases h with
  | expression h _ => exact ((Expression.headed h).mono (by simp [statementStarts])).append
  | print hword _ _ | giveBack hword _ _ | leave hword _ | block hword _ _
  | loop hword _ _ _ _ | forLoop hword _ _ _ _ _ _ _ | branch hword _ _ _ _
  | branchElse hword _ _ _ _ _ _ => exact .cons (.of_is hword (by decide))

theorem Declaration.headed {dangling : Bool} {lower upper : Nat} {tokens : List Token} {s : Stmt}
    (h : Declaration dangling lower tokens upper s) : Headed declarationStarts tokens := by
  cases h with
  | statement h => exact (Statement.headed h).mono (by simp [declarationStarts])
  | variableDecl hword _ | function hword _ | classDecl hword _ _ _ _ =>
      exact .cons (.of_is hword (by decide))

theorem Callable.headed {lower upper : Nat} {tokens : List Token} {d : FunctionDecl}
    (h : Callable lower tokens upper d) : Headed [.identifier] tokens := by
  cases h with
  | mk hname _ _ _ _ _ _ => exact .cons (.of_is hname (by decide))

/-- Declarations end at a closing brace or the end of the file. -/
def Ends (rest : List Token) : Prop :=
  rest = [] ∨ ∃ closing following, rest = closing :: following ∧ closing.is .rightBrace

theorem Ends.stops {rest : List Token} (h : Ends rest) : Stops [.elseWord] rest := by
  rcases h with rfl | ⟨closing, following, rfl, hclosing⟩
  · rintro token ⟨⟩
  · exact .of_is hclosing (by decide)

/-- No declaration begins with `else`. -/
theorem Declarations.stops {lower upper : Nat} {tokens : List Token} {ss : List Stmt}
    (h : Declarations lower tokens upper ss) (rest : List Token) (hends : Ends rest) :
    Stops [.elseWord] (tokens ++ rest) := by
  cases h with
  | nil => exact hends.stops
  | cons hfirst _ => exact (Declaration.headed hfirst).append.append.stops (by decide)

/-! ## Parts without statements in them -/

variable {lower middle upper fuel : Nat} {tokens rest further : List Token} {token closing : Token}

theorem expression_leads_to {e : Expr} {symbol : Symbol} (h : Expression lower tokens upper e)
    (hfuel : 32 * (tokens ++ closing :: rest).length + 10 ≤ fuel) (hclosing : closing.is symbol)
    (hsymbol : symbol ∉ continuations) :
    Leads (expression fuel) (tokens ++ closing :: rest) lower (pure e) (closing :: rest) upper :=
  Expression.leads h fuel (closing :: rest) hfuel (.of_is hclosing hsymbol)

/-- A symbol that an optional expression can stand before. -/
abbrev Closes (symbol : Symbol) : Prop :=
  symbol ∉ expressionStarts ∧ symbol ∉ continuations

theorem optional_leads {α : Type} {symbol : Symbol} {value? : Option Expr} {last : List Token}
    {after : Nat} {continue' : Option Expr → Parser α} {other : Parser α}
    (h : Clause lower tokens upper value?)
    (hfuel : 32 * (tokens ++ closing :: rest).length + 10 ≤ fuel) (hclosing : closing.is symbol)
    (hsymbol : Closes symbol)
    (hrest : Leads (continue' value?) (closing :: rest) upper other last after) :
    Leads (do
      let absent ← nextIs symbol
      if absent then pure none >>= continue' else some <$> expression fuel >>= continue')
      (tokens ++ closing :: rest) lower other last after := by
  cases h with
  | none => exact nextIs_true hclosing hrest
  | some h =>
      refine nextIs_false ((Expression.headed h).append.stops fun other hother hmem => ?_) ?_
      · exact hsymbol.1 (List.mem_singleton.1 hmem ▸ hother)
      · exact (expression_leads_to h hfuel hclosing hsymbol.2).map.bind hrest

theorem clause_leads {symbol : Symbol} {what : Expectation} {value? : Option Expr}
    (h : Clause lower tokens upper value?)
    (hfuel : 32 * (tokens ++ closing :: rest).length + 10 ≤ fuel) (hclosing : closing.is symbol)
    (hsymbol : Closes symbol) :
    Leads (clause fuel symbol what) (tokens ++ closing :: rest) lower (pure value?) rest upper := by
  rw [clause]
  exact optional_leads h hfuel hclosing hsymbol (.expect hclosing .refl)

theorem variable_leads {s : Stmt} (h : Variable lower tokens upper s)
    (hfuel : 32 * (tokens ++ rest).length + 10 ≤ fuel) :
    Leads (variableDeclaration fuel) (tokens ++ rest) lower (pure s) rest upper := by
  rw [variableDeclaration]
  cases h with
  | plain hname hclosing =>
      exact .expect hname (accept_none (.of_is hclosing (by decide)) (.expect hclosing .refl))
  | initialized hname hequals h hclosing =>
      simp only [List.cons_append, List.append_assoc, List.nil_append, List.length_cons] at hfuel ⊢
      refine .expect hname (accept_some (by simpa [Token.isAny] using hequals) ?_)
      exact (expression_leads_to h (by omega) hclosing (by decide)).map.bind
        (.expect hclosing .refl)

theorem expressionStatement_leads {e : Expr} (h : Expression lower tokens upper e)
    (hclosing : closing.is .semicolon)
    (hfuel : 32 * (tokens ++ closing :: rest).length + 10 ≤ fuel) :
    Leads (expressionStatement fuel) (tokens ++ closing :: rest) lower (pure (.expression e)) rest
      upper := by
  rw [expressionStatement]
  exact (expression_leads_to h hfuel hclosing (by decide)).bind (.expect hclosing .refl)

theorem forInitializer_leads {s? : Option Stmt} (h : ForInitializer lower tokens upper s?)
    (hfuel : 32 * (tokens ++ rest).length + 10 ≤ fuel) :
    Leads (forInitializer fuel) (tokens ++ rest) lower (pure s?) rest upper := by
  rw [forInitializer]
  cases h with
  | none hclosing => exact accept_some (by simpa [Token.isAny] using hclosing) .refl
  | variableDecl hword h =>
      rw [List.cons_append, List.length_cons] at hfuel
      refine accept_none (.of_is hword (by decide)) ?_
      refine accept_some (by simpa [Token.isAny] using hword) ?_
      exact (variable_leads h (by omega)).bind .refl
  | expression h hclosing =>
      rw [List.append_assoc, List.singleton_append] at hfuel ⊢
      refine accept_none ((Expression.headed h).append.stops (by decide)) ?_
      refine accept_none ((Expression.headed h).append.stops (by decide)) ?_
      exact (expressionStatement_leads h hclosing hfuel).bind .refl

theorem names_lead {names : List Token} (h : Names tokens names) {count : Nat}
    (hcount : count + names.length ≤ maxArity) (hclosing : closing.is .rightParen)
    (hfuel : 32 * (tokens ++ closing :: rest).length + 1 ≤ fuel) :
    Leads (parametersRest fuel count) (tokens ++ closing :: rest) lower (pure names)
      (closing :: rest) lower := by
  induction h generalizing fuel count with
  | last hname =>
      obtain ⟨fuel, rfl, -⟩ := exists_fuel (by omega : 0 + 1 ≤ fuel)
      rw [List.length_singleton] at hcount
      rw [parametersRest]
      refine .checkArity (by omega) (.expect hname ?_)
      exact accept_none (.of_is hclosing (by decide)) .refl
  | cons hname hcomma _ ih =>
      simp only [List.cons_append, List.length_cons] at hfuel hcount ⊢
      obtain ⟨fuel, rfl, hfuel⟩ := exists_fuel (by omega : _ + 1 ≤ fuel)
      rw [parametersRest]
      refine .checkArity (by omega) (.expect hname ?_)
      refine accept_some (by simpa [Token.isAny] using hcomma) ?_
      exact (ih (by omega) (by omega)).bind .refl

theorem parameters_lead {names : List Token} (h : Parameters tokens names)
    (hclosing : closing.is .rightParen)
    (hfuel : 32 * (tokens ++ closing :: rest).length + 1 ≤ fuel) :
    Leads (parameters fuel) (tokens ++ closing :: rest) lower (pure names) (closing :: rest)
      lower := by
  rw [parameters]
  cases h with
  | none => exact nextIs_true hclosing .refl
  | some h hlength =>
      have hstops : Stops [.rightParen] (tokens ++ closing :: rest) := by
        cases h with
        | last hname | cons hname _ _ => exact .of_is hname (by decide)
      exact nextIs_false hstops (names_lead h (by omega) hclosing hfuel)

/-! ## What statements lead to -/

def StatementLeads (dangling : Bool) (lower : Nat) (tokens : List Token) (upper : Nat)
    (s : Stmt) : Prop :=
  ∀ fuel rest, 32 * (tokens ++ rest).length + 11 ≤ fuel →
    (dangling → Stops [.elseWord] rest) →
    Leads (statement fuel) (tokens ++ rest) lower (pure s) rest upper

def DeclarationLeads (dangling : Bool) (lower : Nat) (tokens : List Token) (upper : Nat)
    (s : Stmt) : Prop :=
  ∀ fuel rest, 32 * (tokens ++ rest).length + 12 ≤ fuel →
    (dangling → Stops [.elseWord] rest) →
    Leads (declaration fuel) (tokens ++ rest) lower (pure s) rest upper

def DeclarationsLead (lower : Nat) (tokens : List Token) (upper : Nat) (ss : List Stmt) : Prop :=
  ∀ fuel rest, 32 * (tokens ++ rest).length + 14 ≤ fuel → Ends rest →
    Leads (declarations fuel) (tokens ++ rest) lower (pure ss) rest upper

def CallableLeads (lower : Nat) (tokens : List Token) (upper : Nat) (d : FunctionDecl) : Prop :=
  ∀ fuel form rest, 32 * (tokens ++ rest).length + 1 ≤ fuel →
    Leads (callable fuel form) (tokens ++ rest) lower (pure d) rest upper

def MethodsLead (lower : Nat) (tokens : List Token) (upper : Nat) (ds : List FunctionDecl) :
    Prop :=
  ∀ fuel closing rest, 32 * (tokens ++ closing :: rest).length + 2 ≤ fuel →
    closing.is .rightBrace →
    Leads (methods fuel) (tokens ++ closing :: rest) lower (pure ds) (closing :: rest) upper

/-! ## Statements -/

/-- A statement that begins with an expression is an expression statement. -/
theorem statement_of_expression {e : Expr} (h : Expression lower tokens upper e)
    (hclosing : closing.is .semicolon) :
    StatementLeads false lower (tokens ++ [closing]) upper (.expression e) := by
  intro fuel rest hfuel _
  rw [List.append_assoc, List.singleton_append] at hfuel ⊢
  obtain ⟨fuel, rfl, hfuel⟩ := exists_fuel (by omega : _ + 1 ≤ fuel)
  have hread : Leads (expressionStatement fuel) (tokens ++ closing :: rest) lower
      (pure (.expression e)) rest upper := expressionStatement_leads h hclosing (by omega)
  obtain ⟨token, following, rfl, hbegins⟩ := Expression.headed h
  rw [statement]
  refine .peek ?_
  split
  case h_8 => exact hread
  all_goals
    rename_i hkind
    exact absurd (hbegins _ hkind) (by decide)

theorem statement_print {word : Token} {e : Expr} (hword : word.is .printWord)
    (h : Expression lower tokens upper e) (hclosing : closing.is .semicolon) :
    StatementLeads false lower (word :: (tokens ++ [closing])) upper (.print e) := by
  intro fuel rest hfuel _
  simp only [List.cons_append, List.append_assoc, List.nil_append, List.length_cons] at hfuel ⊢
  obtain ⟨fuel, rfl, hfuel⟩ := exists_fuel (by omega : _ + 1 ≤ fuel)
  rw [statement]
  refine .peek ?_
  rw [kind_of_is hword]
  refine .advance ?_
  rw [printStatement]
  exact (expression_leads_to h (by omega) hclosing (by decide)).bind (.expect hclosing .refl)

theorem statement_return {keyword : Token} {value? : Option Expr}
    (hkeyword : keyword.is .returnWord) (h : Clause lower tokens upper value?)
    (hclosing : closing.is .semicolon) :
    StatementLeads false lower (keyword :: (tokens ++ [closing])) upper
      (.giveBack keyword value?) := by
  intro fuel rest hfuel _
  simp only [List.cons_append, List.append_assoc, List.nil_append, List.length_cons] at hfuel ⊢
  obtain ⟨fuel, rfl, hfuel⟩ := exists_fuel (by omega : _ + 1 ≤ fuel)
  rw [statement]
  refine .peek ?_
  rw [kind_of_is hkeyword]
  refine .advance ?_
  rw [returnStatement]
  exact optional_leads h (by omega) hclosing (by decide) (.expect hclosing .refl)

theorem statement_break {keyword : Token} (hkeyword : keyword.is .breakWord)
    (hclosing : closing.is .semicolon) :
    StatementLeads false lower [keyword, closing] lower (.leave keyword) := by
  intro fuel rest hfuel _
  obtain ⟨fuel, rfl, hfuel⟩ := exists_fuel (by omega : _ + 1 ≤ fuel)
  rw [statement]
  refine .peek ?_
  rw [kind_of_is hkeyword]
  exact .advance (.expect hclosing .refl)

theorem block_leads {body : List Stmt} (h : DeclarationsLead lower tokens upper body)
    (hclosing : closing.is .rightBrace)
    (hfuel : 32 * (tokens ++ closing :: rest).length + 15 ≤ fuel) :
    Leads (block fuel) (tokens ++ closing :: rest) lower (pure body) rest upper := by
  obtain ⟨fuel, rfl, hfuel⟩ := exists_fuel (by omega : _ + 1 ≤ fuel)
  rw [block]
  refine (h fuel _ (by omega) (.inr ⟨closing, rest, rfl, hclosing⟩)).bind ?_
  exact .expect hclosing .refl

theorem statement_block {opening : Token} {body : List Stmt} (hopening : opening.is .leftBrace)
    (h : DeclarationsLead lower tokens upper body) (hclosing : closing.is .rightBrace) :
    StatementLeads false lower (opening :: (tokens ++ [closing])) upper (.block body) := by
  intro fuel rest hfuel _
  simp only [List.cons_append, List.append_assoc, List.nil_append, List.length_cons] at hfuel ⊢
  obtain ⟨fuel, rfl, hfuel⟩ := exists_fuel (by omega : _ + 1 ≤ fuel)
  rw [statement]
  refine .peek ?_
  rw [kind_of_is hopening]
  exact .advance ((block_leads h hclosing (by omega)).bind .refl)

theorem statement_loop {dangling : Bool} {word opening : Token} {condition : Expr} {body : Stmt}
    (hword : word.is .whileWord) (hopening : opening.is .leftParen)
    (hcondition : Expression lower tokens middle condition) (hclosing : closing.is .rightParen)
    (hbody : StatementLeads dangling middle further upper body) :
    StatementLeads dangling lower (word :: opening :: (tokens ++ closing :: further)) upper
      (.loop condition body) := by
  intro fuel rest hfuel hdangling
  simp only [List.cons_append, List.append_assoc, List.length_cons] at hfuel ⊢
  obtain ⟨fuel, rfl, hfuel⟩ := exists_fuel (by omega : _ + 1 ≤ fuel)
  rw [statement]
  refine .peek ?_
  rw [kind_of_is hword]
  refine .advance (.expect hopening ?_)
  refine (expression_leads_to hcondition (by omega) hclosing (by decide)).bind ?_
  rw [List.length_append, List.length_cons] at hfuel
  exact .expect hclosing ((hbody fuel rest (by omega) hdangling).bind .refl)

section For

variable {first second third fourth last : Nat} {word opening semicolon : Token}
variable {start test step : List Token} {initializer : Option Stmt}
variable {condition increment : Option Expr} {body : Stmt}
variable (hword : word.is .forWord) (hopening : opening.is .leftParen)
variable (hstart : ForInitializer first start second initializer)
variable (htest : Clause second test third condition) (hsemicolon : semicolon.is .semicolon)
variable (hstep : Clause third step fourth increment) (hclosing : closing.is .rightParen)
include hword hopening hstart htest hsemicolon hstep hclosing

/-- The clauses of a `for` statement are read, and its body comes next. -/
theorem for_leads (fuel : Nat) (rest : List Token)
    (hfuel : 32 * (start ++ (test ++ semicolon :: (step ++ closing :: rest))).length + 10 ≤ fuel) :
    Leads (statement (fuel + 1))
      (word :: opening :: (start ++ (test ++ semicolon :: (step ++ closing :: rest)))) first
      (do return .forLoop initializer condition increment (← statement fuel)) rest fourth := by
  rw [statement]
  refine .peek ?_
  rw [kind_of_is hword]
  refine .advance (.expect hopening ?_)
  refine (forInitializer_leads hstart (by omega)).bind ?_
  rw [List.length_append] at hfuel
  refine (clause_leads htest (by omega) hsemicolon (by decide)).bind ?_
  rw [List.length_append, List.length_cons] at hfuel
  exact (clause_leads hstep (by omega) hclosing (by decide)).bind .refl

theorem statement_for {dangling : Bool}
    (hbody : StatementLeads dangling fourth further last body) :
    StatementLeads dangling first
      (word :: opening :: (start ++ (test ++ semicolon :: (step ++ closing :: further)))) last
      (.forLoop initializer condition increment body) := by
  intro fuel rest hfuel hdangling
  simp only [List.cons_append, List.append_assoc, List.length_cons] at hfuel ⊢
  obtain ⟨fuel, rfl, hfuel⟩ := exists_fuel (by omega : _ + 1 ≤ fuel)
  refine (for_leads hword hopening hstart htest hsemicolon hstep hclosing fuel _
    (by omega)).trans ?_
  simp only [List.length_append, List.length_cons] at hfuel
  exact (hbody fuel rest (by simp only [List.length_append]; omega) hdangling).bind .refl

end For

section Branch

variable {word opening : Token} {condition : Expr} {thenBranch : Stmt} {dangling : Bool}
variable (hword : word.is .ifWord) (hopening : opening.is .leftParen)
variable (hcondition : Expression lower tokens middle condition)
variable (hclosing : closing.is .rightParen)
include hword hopening hcondition hclosing

theorem statement_branch (hthen : StatementLeads dangling middle further upper thenBranch) :
    StatementLeads true lower (word :: opening :: (tokens ++ closing :: further)) upper
      (.branch condition thenBranch none) := by
  intro fuel rest hfuel hstops
  simp only [List.cons_append, List.append_assoc, List.length_cons] at hfuel ⊢
  obtain ⟨fuel, rfl, hfuel⟩ := exists_fuel (by omega : _ + 1 ≤ fuel)
  rw [statement]
  refine .peek ?_
  rw [kind_of_is hword]
  refine .advance (.expect hopening ?_)
  refine (expression_leads_to hcondition (by omega) hclosing (by decide)).bind ?_
  rw [List.length_append, List.length_cons] at hfuel
  refine .expect hclosing ((hthen fuel rest (by omega) fun _ => hstops rfl).bind ?_)
  exact accept_none (hstops rfl) .refl

theorem statement_branchElse {next : Nat} {otherwise : Token} {final : List Token}
    {elseBranch : Stmt} (hthen : StatementLeads false middle further next thenBranch)
    (hotherwise : otherwise.is .elseWord)
    (helse : StatementLeads dangling next final upper elseBranch) :
    StatementLeads dangling lower
      (word :: opening :: (tokens ++ closing :: (further ++ otherwise :: final))) upper
      (.branch condition thenBranch (some elseBranch)) := by
  intro fuel rest hfuel hdangling
  simp only [List.cons_append, List.append_assoc, List.length_cons] at hfuel ⊢
  obtain ⟨fuel, rfl, hfuel⟩ := exists_fuel (by omega : _ + 1 ≤ fuel)
  rw [statement]
  refine .peek ?_
  rw [kind_of_is hword]
  refine .advance (.expect hopening ?_)
  refine (expression_leads_to hcondition (by omega) hclosing (by decide)).bind ?_
  rw [List.length_append, List.length_cons] at hfuel
  refine .expect hclosing ((hthen fuel _ (by omega) (by simp)).bind ?_)
  rw [List.length_append, List.length_cons] at hfuel
  refine accept_some (by simpa [Token.isAny] using hotherwise) ?_
  exact (helse fuel rest (by omega) hdangling).bind .refl

end Branch

/-! ## Declarations -/

/-- A declaration that begins with no word of its own is a statement. -/
theorem declaration_statement {dangling : Bool} {s : Stmt}
    (hheaded : Headed statementStarts tokens) (h : StatementLeads dangling lower tokens upper s) :
    DeclarationLeads dangling lower tokens upper s := by
  intro fuel rest hfuel hdangling
  obtain ⟨fuel, rfl, hfuel⟩ := exists_fuel (by omega : _ + 1 ≤ fuel)
  have hread := h fuel rest (by omega) hdangling
  obtain ⟨token, following, rfl, hbegins⟩ := hheaded
  rw [declaration]
  refine .peek ?_
  split
  case h_4 => exact hread
  all_goals
    rename_i hkind
    exact absurd (hbegins _ hkind) (by decide)

theorem declaration_variable {word : Token} {s : Stmt} (hword : word.is .varWord)
    (h : Variable lower tokens upper s) :
    DeclarationLeads false lower (word :: tokens) upper s := by
  intro fuel rest hfuel _
  rw [List.cons_append, List.length_cons] at hfuel
  obtain ⟨fuel, rfl, hfuel⟩ := exists_fuel (by omega : _ + 1 ≤ fuel)
  rw [declaration]
  refine .peek ?_
  rw [kind_of_is hword]
  exact .advance (variable_leads h (by omega))

theorem declaration_function {word : Token} {d : FunctionDecl} (hword : word.is .funWord)
    (h : CallableLeads lower tokens upper d) :
    DeclarationLeads false lower (word :: tokens) upper (.function d) := by
  intro fuel rest hfuel _
  rw [List.cons_append, List.length_cons] at hfuel
  obtain ⟨fuel, rfl, hfuel⟩ := exists_fuel (by omega : _ + 1 ≤ fuel)
  rw [declaration]
  refine .peek ?_
  rw [kind_of_is hword]
  exact .advance ((h fuel .function rest (by omega)).bind .refl)

theorem declaration_class {word name opening : Token} {ds : List FunctionDecl}
    (hword : word.is .classWord) (hname : name.is .identifier) (hopening : opening.is .leftBrace)
    (h : MethodsLead lower tokens upper ds) (hclosing : closing.is .rightBrace) :
    DeclarationLeads false lower (word :: name :: opening :: (tokens ++ [closing])) upper
      (.classDecl name ds) := by
  intro fuel rest hfuel _
  simp only [List.cons_append, List.append_assoc, List.nil_append, List.length_cons] at hfuel ⊢
  obtain ⟨fuel, rfl, hfuel⟩ := exists_fuel (by omega : _ + 1 ≤ fuel)
  rw [declaration]
  refine .peek ?_
  rw [kind_of_is hword]
  refine .advance (.expect hname (.expect hopening ?_))
  exact (h fuel closing rest (by omega) hclosing).bind (.expect hclosing .refl)

theorem declarations_nil : DeclarationsLead lower [] lower [] := by
  intro fuel rest hfuel hends
  obtain ⟨fuel, rfl, -⟩ := exists_fuel (by omega : 0 + 1 ≤ fuel)
  rw [declarations]
  rcases hends with rfl | ⟨closing, following, rfl, hclosing⟩
  · exact nextIs_false (by rintro token ⟨⟩) (.atEnd_true .refl)
  · exact nextIs_true hclosing (.atEnd_false .refl)

theorem declarations_cons {dangling : Bool} {s : Stmt} {ss : List Stmt}
    (hheaded : Headed declarationStarts tokens)
    (hfirst : DeclarationLeads dangling lower tokens middle s)
    (hstops : ∀ rest, Ends rest → Stops [.elseWord] (further ++ rest))
    (h : DeclarationsLead middle further upper ss) :
    DeclarationsLead lower (tokens ++ further) upper (s :: ss) := by
  intro fuel rest hfuel hends
  rw [List.append_assoc] at hfuel ⊢
  obtain ⟨fuel, rfl, hfuel⟩ := exists_fuel (by omega : _ + 1 ≤ fuel)
  obtain ⟨fuel, rfl, hfuel⟩ := exists_fuel (by omega : _ + 1 ≤ fuel)
  have hread := (hfirst fuel (further ++ rest) (by omega) fun _ => hstops rest hends).attempt
  have hmore := h (fuel + 1) rest
  obtain ⟨token, following, rfl, hbegins⟩ := hheaded
  simp only [List.cons_append, List.length_cons, List.length_append] at hfuel hmore
  rw [declarations]
  refine nextIs_false ((Headed.cons hbegins).stops (by decide)) (.atEnd_false ?_)
  rw [declaration?]
  exact hread.bind ((hmore (by omega) hends).bind .refl)

theorem callable_leads {name opening brace last : Token} {inner : List Token}
    {parameters : List Token} {body : List Stmt} (hname : name.is .identifier)
    (hopening : opening.is .leftParen) (hparameters : Parameters tokens parameters)
    (hclosing : closing.is .rightParen) (hbrace : brace.is .leftBrace)
    (hbody : DeclarationsLead lower inner upper body) (hlast : last.is .rightBrace) :
    CallableLeads lower (name :: opening :: (tokens ++ closing :: brace :: (inner ++ [last])))
      upper (.mk name parameters body) := by
  intro fuel form rest hfuel
  simp only [List.cons_append, List.append_assoc, List.nil_append, List.length_cons] at hfuel ⊢
  obtain ⟨fuel, rfl, hfuel⟩ := exists_fuel (by omega : _ + 1 ≤ fuel)
  rw [callable]
  refine .expect hname (.expect hopening ?_)
  refine (parameters_lead hparameters hclosing (by omega)).bind ?_
  simp only [List.length_append, List.length_cons] at hfuel
  refine .expect hclosing (.expect hbrace ?_)
  exact (block_leads hbody hlast (by simp only [List.length_append, List.length_cons]; omega)).bind
    .refl

theorem methods_nil : MethodsLead lower [] lower [] := by
  intro fuel closing rest hfuel hclosing
  obtain ⟨fuel, rfl, -⟩ := exists_fuel (by omega : 0 + 1 ≤ fuel)
  rw [methods]
  exact nextIs_true hclosing (.atEnd_false .refl)

theorem methods_cons {d : FunctionDecl} {ds : List FunctionDecl}
    (hheaded : Headed [.identifier] tokens) (hfirst : CallableLeads lower tokens middle d)
    (h : MethodsLead middle further upper ds) :
    MethodsLead lower (tokens ++ further) upper (d :: ds) := by
  intro fuel closing rest hfuel hclosing
  rw [List.append_assoc] at hfuel ⊢
  obtain ⟨fuel, rfl, hfuel⟩ := exists_fuel (by omega : _ + 1 ≤ fuel)
  have hread := hfirst fuel .method (further ++ closing :: rest) (by omega)
  have hmore := h fuel closing rest
  obtain ⟨token, following, rfl, hbegins⟩ := hheaded
  simp only [List.cons_append, List.length_cons, List.length_append] at hfuel hmore
  rw [methods]
  refine nextIs_false ((Headed.cons hbegins).stops (by decide)) (.atEnd_false ?_)
  exact hread.bind ((hmore (by omega) hclosing).bind .refl)

/-! ## Derivations -/

mutual

theorem Statement.leads {dangling : Bool} {lower upper : Nat} {tokens : List Token} {s : Stmt} :
    Statement dangling lower tokens upper s → StatementLeads dangling lower tokens upper s
  | .expression h hclosing => statement_of_expression h hclosing
  | .print hword h hclosing => statement_print hword h hclosing
  | .giveBack hkeyword h hclosing => statement_return hkeyword h hclosing
  | .leave hkeyword hclosing => statement_break hkeyword hclosing
  | .block hopening h hclosing => statement_block hopening (Declarations.lead h) hclosing
  | .loop hword hopening hcondition hclosing hbody =>
    statement_loop hword hopening hcondition hclosing (Statement.leads hbody)
  | .forLoop hword hopening hstart htest hsemicolon hstep hclosing hbody =>
    statement_for hword hopening hstart htest hsemicolon hstep hclosing (Statement.leads hbody)
  | .branch hword hopening hcondition hclosing hthen =>
    statement_branch hword hopening hcondition hclosing (Statement.leads hthen)
  | .branchElse hword hopening hcondition hclosing hthen hotherwise helse =>
    statement_branchElse hword hopening hcondition hclosing (Statement.leads hthen) hotherwise
      (Statement.leads helse)

theorem Declaration.leads {dangling : Bool} {lower upper : Nat} {tokens : List Token} {s : Stmt} :
    Declaration dangling lower tokens upper s → DeclarationLeads dangling lower tokens upper s
  | .statement h => declaration_statement (Statement.headed h) (Statement.leads h)
  | .variableDecl hword h => declaration_variable hword h
  | .function hword h => declaration_function hword (Callable.leads h)
  | .classDecl hword hname hopening h hclosing =>
    declaration_class hword hname hopening (Methods.lead h) hclosing

theorem Declarations.lead {lower upper : Nat} {tokens : List Token} {ss : List Stmt} :
    Declarations lower tokens upper ss → DeclarationsLead lower tokens upper ss
  | .nil => declarations_nil
  | .cons hfirst h =>
    declarations_cons (Declaration.headed hfirst) (Declaration.leads hfirst)
      (Declarations.stops h) (Declarations.lead h)

theorem Callable.leads {lower upper : Nat} {tokens : List Token} {d : FunctionDecl} :
    Callable lower tokens upper d → CallableLeads lower tokens upper d
  | .mk hname hopening hparameters hclosing hbrace hbody hlast =>
    callable_leads hname hopening hparameters hclosing hbrace (Declarations.lead hbody) hlast

theorem Methods.lead {lower upper : Nat} {tokens : List Token} {ds : List FunctionDecl} :
    Methods lower tokens upper ds → MethodsLead lower tokens upper ds
  | .nil => methods_nil
  | .cons hfirst h =>
    methods_cons (Callable.headed hfirst) (Callable.leads hfirst) (Methods.lead h)

end

/-- Declarations are read as a whole program. -/
theorem program_leads {lower upper : Nat} {tokens : List Token} {ss : List Stmt} (fuel : Nat)
    (hfuel : 32 * tokens.length + 14 ≤ fuel) :
    Declarations lower tokens upper ss → Leads (program fuel) tokens lower (pure ss) [] upper
  | .nil => by
    obtain ⟨fuel, rfl, -⟩ := exists_fuel (by omega : 0 + 1 ≤ fuel)
    exact .atEnd_true .refl
  | @Declarations.cons _ _ _ _ first further _ _ hfirst h => by
    obtain ⟨fuel, rfl, hfuel⟩ := exists_fuel (by omega : _ + 1 ≤ fuel)
    obtain ⟨fuel, rfl, hfuel⟩ := exists_fuel (by omega : _ + 1 ≤ fuel)
    have hstops := Declarations.stops h [] (.inl rfl)
    rw [List.append_nil] at hstops
    have hread := (Declaration.leads hfirst fuel further (by omega) fun _ => hstops).attempt
    obtain ⟨token, following, rfl, -⟩ := Declaration.headed hfirst
    simp only [List.cons_append, List.length_cons, List.length_append] at hfuel
    have hmore := program_leads (fuel + 1) (by omega) h
    rw [program, declaration?]
    exact .atEnd_false (hread.bind (hmore.bind .refl))

/-- A program that is derived is read without a report. -/
theorem ofStream_of_declarations {stream : TokenStream} {next upper : Nat} {ss : List Stmt}
    (h : Declarations next stream.body upper ss) :
    Parsed.ofStream stream next = ⟨ss, [], upper⟩ := by
  have hleads := program_leads (Parsed.fuel stream) (by rw [Parsed.fuel]; omega) h stream.ending #[]
  rw [Parsed.ofStream, hleads]
  rfl

theorem statements_of_declarations {source : String} {tokens : List Token} {next upper : Nat}
    {ss : List Stmt} (hbody : (TokenStream.ofSource source).1.body = tokens)
    (h : Declarations next tokens upper ss) : (Parsed.ofSource source next).statements = ss := by
  subst hbody
  exact congrArg Parsed.statements (ofStream_of_declarations h)

end Lox.Parser
