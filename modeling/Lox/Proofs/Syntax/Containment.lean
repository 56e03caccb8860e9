import Lox.Proofs.Matching.Session
import Lox.Proofs.Syntax.Reading.Statement
import Lox.Proofs.Syntax.Reports

/-!
# Errors in a simple statement

A simple statement is one that ends with a semicolon and has none inside.  No
rule for expressions passes a semicolon, and recovery stops behind the first one
it meets, so that reading ends behind the semicolon of the statement whether or
not its tokens are in order.  What follows is read the same in either case.
-/

namespace Lox.Parser

/-- The symbols that end a statement or begin one. -/
def boundaries : List Symbol :=
  [.endOfFile, .semicolon, .leftBrace, .rightBrace] ++ starters

/-- The words that a simple statement can begin with. -/
def simpleWords : List Symbol :=
  [.varWord, .printWord, .returnWord, .breakWord]

/-- Tokens that can stand, in order or not, before the semicolon of a simple
statement.  Only the first may be a word that begins a statement. -/
def Simple : List Token → Prop
  | [] => True
  | first :: tokens =>
    (first.isAny boundaries → first.isAny simpleWords) ∧
      ∀ token ∈ tokens, token.isAny boundaries = false

instance : DecidablePred Simple
  | [] => inferInstanceAs (Decidable True)
  | _ :: _ => inferInstanceAs (Decidable (_ ∧ _))

/-- Some tokens up to a semicolon, with what comes behind it and the errors that
are known before. -/
structure Stretch where
  tokens : List Token
  semicolon : Token
  further : List Token
  ending : Token
  known : Array Diagnostic
  closed : semicolon.is .semicolon

namespace Stretch

/-- All errors but those known before are at tokens of the stretch. -/
def Reports (stretch : Stretch) (diagnostics : Array Diagnostic) : Prop :=
  ∃ new, diagnostics = stretch.known ++ new ∧
    ∀ diagnostic ∈ new, ∃ token ∈ stretch.tokens ++ [stretch.semicolon],
      ∃ error, diagnostic = .syntactic token error

/-- Reading stands at a token of the stretch. -/
structure Inside (stretch : Stretch) (state : State) : Prop where
  rest : ∃ ahead, ahead <:+ stretch.tokens ∧
    state.rest = ahead ++ stretch.semicolon :: stretch.further
  ending : state.ending = stretch.ending
  reports : stretch.Reports state.diagnostics

/-- Reading stands behind the semicolon. -/
structure Behind (stretch : Stretch) (state : State) : Prop where
  rest : state.rest = stretch.further
  ending : state.ending = stretch.ending
  reports : stretch.Reports state.diagnostics

end Stretch

/-- From a state with the property `before`, the part succeeds with the property
`after` or stops with the property `stopped`. -/
def Runs {α : Type} (before : State → Prop) (part : Parser α) (after stopped : State → Prop) :
    Prop :=
  ∀ state, before state →
    match part state with
    | .ok _ state => after state
    | .error _ state => stopped state

namespace Runs

variable {α β : Type} {before middle after stopped : State → Prop} {part : Parser α}

theorem pure {result : α} : Runs before (pure result) before stopped :=
  fun _ h => h

theorem bind {rest : α → Parser β} (hpart : Runs before part middle stopped)
    (hrest : ∀ result, Runs middle (rest result) after stopped) :
    Runs before (part >>= rest) after stopped := by
  intro state hstate
  have hfirst := hpart state hstate
  cases hresult : part state with
  | ok result next =>
      rw [hresult] at hfirst
      rw [bind_of_ok hresult]
      exact hrest result next hfirst
  | error halt next =>
      rw [hresult] at hfirst
      rw [bind_of_error hresult]
      exact hfirst

theorem map {f : α → β} (hpart : Runs before part after stopped) :
    Runs before (f <$> part) after stopped := by
  rw [map_eq_pure_bind]
  exact hpart.bind fun _ => pure

end Runs

variable {α β : Type} {stretch : Stretch}

/-- The part leaves reading inside the stretch. -/
abbrev Stays (stretch : Stretch) (part : Parser α) : Prop :=
  Runs stretch.Inside part stretch.Inside stretch.Inside

/-- The part reads up to the end of the stretch unless it stops inside. -/
abbrev Completes (stretch : Stretch) (part : Parser α) : Prop :=
  Runs stretch.Inside part stretch.Behind stretch.Inside

namespace Stretch

theorem closed_kind (stretch : Stretch) : stretch.semicolon.kind = .symbol .semicolon :=
  Grammar.kind_of_is stretch.closed

theorem Reports.push {diagnostics : Array Diagnostic} (h : stretch.Reports diagnostics)
    {token : Token} (htoken : token ∈ stretch.tokens ++ [stretch.semicolon])
    (error : SyntaxError) :
    stretch.Reports (diagnostics.push (.syntactic token error)) := by
  obtain ⟨new, rfl, hnew⟩ := h
  refine ⟨new.push (.syntactic token error), (Array.append_push).symm, fun diagnostic hmem => ?_⟩
  rcases Array.mem_push.1 hmem with hmem | rfl
  · exact hnew diagnostic hmem
  · exact ⟨token, htoken, error, rfl⟩

namespace Inside

variable {state : State}

/-- The next token is one of the stretch. -/
theorem next_mem (h : stretch.Inside state) :
    state.next ∈ stretch.tokens ++ [stretch.semicolon] := by
  obtain ⟨ahead, hahead, hrest⟩ := h.rest
  rw [State.next, hrest]
  cases ahead with
  | nil => simp
  | cons token ahead => exact List.mem_append_left _ (hahead.subset List.mem_cons_self)

theorem report (h : stretch.Inside state) {token : Token}
    (htoken : token ∈ stretch.tokens ++ [stretch.semicolon]) (error : SyntaxError) :
    stretch.Inside (state.report token error) :=
  ⟨h.rest, h.ending, h.reports.push htoken error⟩

/-- The next token is passed if it is not the semicolon. -/
theorem pass (h : stretch.Inside state) {token : Token} {rest : List Token}
    (hrest : state.rest = token :: rest) (hplain : token.is .semicolon = false) :
    token ∈ stretch.tokens ∧ stretch.Inside { state with rest := rest } := by
  obtain ⟨ahead, hahead, hstate⟩ := h.rest
  rw [hrest] at hstate
  cases ahead with
  | nil =>
      obtain ⟨rfl, -⟩ := List.cons.inj hstate
      rw [stretch.closed] at hplain
      cases hplain
  | cons first ahead =>
      obtain ⟨rfl, rfl⟩ := List.cons.inj hstate
      exact ⟨hahead.subset List.mem_cons_self,
        ⟨ahead, (List.suffix_cons _ _).trans hahead, rfl⟩, h.ending, h.reports⟩

end Inside

end Stretch

/-! ## Looking and passing -/

namespace Stays

theorem fail (what : Expectation) : Stays stretch (fail what : Parser α) :=
  fun _ h => h.report h.next_mem _

theorem halt {why : Halt} : Stays stretch (throw why : Parser α) :=
  fun _ h => h

theorem freshId : Stays stretch freshId :=
  fun _ h => ⟨h.rest, h.ending, h.reports⟩

theorem nextIs (symbol : Symbol) : Stays stretch (nextIs symbol) :=
  fun _ h => h

theorem report {token : Token} (htoken : token ∈ stretch.tokens) (error : SyntaxError) :
    Stays stretch (report token error) :=
  fun _ h => h.report (List.mem_append_left _ htoken) error

theorem checkArity (count : Nat) (error : SyntaxError) :
    Stays stretch (checkArity count error) := by
  rw [Parser.checkArity]
  split
  · exact fun _ h => h.report h.next_mem error
  · exact .pure

/-- A symbol other than the semicolon is passed inside the stretch. -/
theorem accept? {symbols : List Symbol} (hsymbols : .semicolon ∉ symbols)
    {rest : Option Token → Parser α} {after : State → Prop}
    (hsome : ∀ token ∈ stretch.tokens,
      Runs stretch.Inside (rest (some token)) after stretch.Inside)
    (hnone : Runs stretch.Inside (rest none) after stretch.Inside) :
    Runs stretch.Inside (accept? symbols >>= rest) after stretch.Inside := by
  rintro ⟨tokens, ending, nextId, diagnostics⟩ h
  cases tokens with
  | nil => exact hnone _ h
  | cons token tokens =>
      by_cases hany : token.isAny symbols
      · have hplain : token.is .semicolon = false := by
          by_contra hsemicolon
          have hkind := Grammar.kind_of_is (by simpa using hsemicolon : token.is .semicolon)
          simp only [Token.isAny, Token.is, hkind, List.any_eq_true, beq_iff_eq] at hany
          obtain ⟨symbol, hmem, rfl⟩ := hany
          exact hsymbols hmem
        obtain ⟨hmem, hpassed⟩ := h.pass rfl hplain
        have hresult : Parser.accept? symbols ⟨token :: tokens, ending, nextId, diagnostics⟩ =
            .ok (some token) ⟨tokens, ending, nextId, diagnostics⟩ := by
          simp [Parser.accept?, hany]
        rw [bind_of_ok hresult]
        exact hsome token hmem _ hpassed
      · have hresult : Parser.accept? symbols ⟨token :: tokens, ending, nextId, diagnostics⟩ =
            .ok none ⟨token :: tokens, ending, nextId, diagnostics⟩ := by
          simp [Parser.accept?, hany]
        rw [bind_of_ok hresult]
        exact hnone _ h

theorem expect {symbol : Symbol} (hsymbol : symbol ≠ .semicolon) (what : Expectation) :
    Stays stretch (expect symbol what) := by
  apply accept? (by simpa using hsymbol.symm)
  · intro token _
    exact .pure
  · exact fail what

end Stays

/-- Reading stands inside the stretch, before `token`. -/
def Stretch.Before (stretch : Stretch) (token : Token) (state : State) : Prop :=
  stretch.Inside state ∧ state.rest.head? = some token

theorem peek_before {rest : Token → Parser α} {after : State → Prop}
    (h : ∀ token ∈ stretch.tokens ++ [stretch.semicolon],
      Runs (stretch.Before token) (rest token) after stretch.Inside) :
    Runs stretch.Inside (peek >>= rest) after stretch.Inside := by
  intro state hstate
  have hnext : state.rest.head? = some state.next := by
    obtain ⟨ahead, -, hrest⟩ := hstate.rest
    rw [State.next, hrest]
    cases ahead <;> rfl
  exact h state.next hstate.next_mem state ⟨hstate, hnext⟩

theorem advance_before {token : Token} (hplain : token.is .semicolon = false)
    {rest : Unit → Parser α} {after : State → Prop}
    (h : Runs stretch.Inside (rest ()) after stretch.Inside) :
    Runs (stretch.Before token) (advance >>= rest) after stretch.Inside := by
  rintro ⟨tokens, ending, nextId, diagnostics⟩ ⟨hinside, hhead⟩
  obtain ⟨further, rfl⟩ := List.head?_eq_some_iff.1 hhead
  exact h _ (hinside.pass rfl hplain).2

theorem Runs.at_token {part : Parser α} {after : State → Prop} {token : Token}
    (h : Runs stretch.Inside part after stretch.Inside) :
    Runs (stretch.Before token) part after stretch.Inside :=
  fun state hstate => h state hstate.1

/-! ## Expressions -/

/-- Every part of an expression is read inside the stretch. -/
structure ExpressionsStay (stretch : Stretch) (fuel : Nat) : Prop where
  expression : Stays stretch (expression fuel)
  binary (levels : List Level) (hlevels : levels <:+ Level.all) : Stays stretch (binary fuel levels)
  binaryRest (level : Level) (tighter : List Level) (left : Expr)
    (hlevels : level :: tighter <:+ Level.all) : Stays stretch (binaryRest fuel level tighter left)
  unary : Stays stretch (unary fuel)
  callRest (callee : Expr) : Stays stretch (callRest fuel callee)
  arguments (closing : Symbol) : Stays stretch (arguments fuel closing)
  argumentsRest (count : Nat) : Stays stretch (argumentsRest fuel count)
  primary : Stays stretch (primary fuel)

theorem expressionsStay_zero : ExpressionsStay stretch 0 where
  expression := .halt
  binary _ _ := .halt
  binaryRest _ _ _ _ := .halt
  unary := .halt
  callRest _ := .halt
  arguments _ := .halt
  argumentsRest _ := .halt
  primary := .halt

theorem assignment_stays (target : Expr) {equals : Token} (hequals : equals ∈ stretch.tokens)
    (value : Expr) : Stays stretch (assignment target equals value) := by
  cases target with
  | reference _ name => exact Stays.freshId.bind fun _ => .pure
  | get object name => exact .pure
  | literal _ | grouping _ | unary _ _ | binary _ _ _ | logical _ _ _ | assign _ _ _
  | receiver _ _ | set _ _ _ | call _ _ _ | list _ _ =>
      exact (Stays.report hequals _).bind fun _ => .pure

section Step

variable {fuel : Nat} (ih : ExpressionsStay stretch fuel)
include ih

theorem expression_stays : Stays stretch (expression (fuel + 1)) := by
  rw [expression]
  apply (ih.binary Level.all List.suffix_rfl).bind
  intro target
  apply Stays.accept? (by decide)
  · intro equals hequals
    apply ih.expression.bind
    exact assignment_stays target hequals
  · exact .pure

theorem binary_stays (levels : List Level) (hlevels : levels <:+ Level.all) :
    Stays stretch (binary (fuel + 1) levels) := by
  cases levels with
  | nil =>
      rw [binary]
      exact ih.unary
  | cons level tighter =>
      rw [binary]
      apply (ih.binary tighter ((List.suffix_cons _ _).trans hlevels)).bind
      intro left
      exact ih.binaryRest level tighter left hlevels

theorem binaryRest_stays (level : Level) (tighter : List Level) (left : Expr)
    (hlevels : level :: tighter <:+ Level.all) :
    Stays stretch (binaryRest (fuel + 1) level tighter left) := by
  have hoperators : ∀ level ∈ Level.all, .semicolon ∉ level.operators := by decide
  rw [binaryRest]
  apply Stays.accept? (hoperators level (hlevels.subset List.mem_cons_self))
  · intro operator _
    apply (ih.binary tighter ((List.suffix_cons _ _).trans hlevels)).bind
    intro right
    exact ih.binaryRest level tighter _ hlevels
  · exact .pure

theorem unary_stays : Stays stretch (unary (fuel + 1)) := by
  rw [unary]
  apply Stays.accept? (by decide)
  · intro operator _
    exact ih.unary.bind fun _ => .pure
  · exact ih.primary.bind ih.callRest

theorem callRest_stays (callee : Expr) : Stays stretch (callRest (fuel + 1) callee) := by
  have hcall : Stays stretch (do
      let arguments ← arguments fuel .rightParen
      let closing ← expect .rightParen .argumentsClosing
      callRest fuel (.call callee closing arguments)) := by
    apply (ih.arguments .rightParen).bind
    intro arguments
    apply (Stays.expect (by decide) _).bind
    intro closing
    exact ih.callRest _
  have hget : Stays stretch (do
      let name ← expect .identifier .propertyName
      callRest fuel (.get callee name)) := by
    apply (Stays.expect (by decide) _).bind
    intro name
    exact ih.callRest _
  rw [callRest]
  apply Stays.accept? (by decide)
  · intro _ _
    exact hcall
  · apply Stays.accept? (by decide)
    · intro _ _
      exact hget
    · exact .pure

theorem arguments_stays (closing : Symbol) : Stays stretch (arguments (fuel + 1) closing) := by
  rw [arguments]
  apply (Stays.nextIs _).bind
  intro closed
  split
  · exact .pure
  · exact ih.argumentsRest 0

theorem argumentsRest_stays (count : Nat) : Stays stretch (argumentsRest (fuel + 1) count) := by
  rw [argumentsRest]
  apply (Stays.checkArity _ _).bind
  intro _
  apply ih.expression.bind
  intro argument
  apply Stays.accept? (by decide)
  · intro _ _
    exact (ih.argumentsRest _).bind fun _ => .pure
  · exact .pure

theorem primary_stays : Stays stretch (primary (fuel + 1)) := by
  rw [primary]
  apply peek_before
  intro token _
  have hplain : ∀ {kind : Kind}, token.kind = kind → kind ≠ .symbol .semicolon →
      token.is .semicolon = false := by
    rintro kind rfl hne
    by_contra hsemicolon
    exact hne (Grammar.kind_of_is (by simpa using hsemicolon))
  split
  case h_10 => exact (Stays.fail _).at_token
  case h_8 hkind =>
    apply advance_before (hplain hkind (by simp))
    apply ih.expression.bind
    intro inner
    exact (Stays.expect (by decide) _).bind fun _ => .pure
  case h_9 hkind =>
    apply advance_before (hplain hkind (by simp))
    apply (ih.arguments .rightBracket).bind
    intro elements
    exact (Stays.expect (by decide) _).bind fun _ => .pure
  case h_6 hkind | h_7 hkind =>
    apply advance_before (hplain hkind (by simp))
    exact Stays.freshId.bind fun _ => .pure
  all_goals
    rename_i hkind
    exact advance_before (hplain hkind (by simp)) .pure

end Step

theorem expressionsStay (fuel : Nat) : ExpressionsStay stretch fuel := by
  induction fuel with
  | zero => exact expressionsStay_zero
  | succ fuel ih =>
      exact {
        expression := expression_stays ih
        binary := binary_stays ih
        binaryRest := binaryRest_stays ih
        unary := unary_stays ih
        callRest := callRest_stays ih
        arguments := arguments_stays ih
        argumentsRest := argumentsRest_stays ih
        primary := primary_stays ih }

/-! ## Simple statements -/

/-- The whole stretch is to come, and its tokens can stand in a simple statement. -/
structure Stretch.Start (stretch : Stretch) (state : State) : Prop where
  simple : Simple stretch.tokens
  rest : state.rest = stretch.tokens ++ stretch.semicolon :: stretch.further
  ending : state.ending = stretch.ending
  diagnostics : state.diagnostics = stretch.known

theorem Simple.plain {tokens : List Token} (h : Simple tokens) :
    ∀ token ∈ tokens, token.is .semicolon = false := by
  have hplain : ∀ token : Token, token.is .semicolon →
      token.isAny boundaries ∧ ¬ token.isAny simpleWords := by
    intro token hsemicolon
    have hkind := Grammar.kind_of_is hsemicolon
    simp [Token.isAny, Token.is, hkind, boundaries, simpleWords]
  intro token hmem
  by_contra hsemicolon
  obtain ⟨hboundary, hword⟩ := hplain token (by simpa using hsemicolon)
  cases tokens with
  | nil => simp at hmem
  | cons first tokens =>
      rcases List.mem_cons.1 hmem with rfl | hmem
      · exact hword (h.1 hboundary)
      · rw [h.2 token hmem] at hboundary
        cases hboundary

namespace Stretch

variable {state : State}

theorem Start.inside (h : stretch.Start state) : stretch.Inside state :=
  ⟨⟨stretch.tokens, List.suffix_rfl, h.rest⟩, h.ending, #[], by simp [h.diagnostics], by simp⟩

/-- The tokens behind one of a simple statement begin no other statement. -/
theorem resume_behind (hsimple : Simple stretch.tokens) {token : Token} {ahead : List Token}
    (hahead : token :: ahead <:+ stretch.tokens) :
    resume false (ahead ++ stretch.semicolon :: stretch.further) = stretch.further := by
  have hafter : ∀ further, resume true further = further := by
    rintro (_ | _)
    · rfl
    · simp [resume]
  have hwords : starters ⊆ boundaries := List.subset_append_right _ _
  have htail : ∀ other ∈ ahead, other.isAny starters = false ∧ other.is .semicolon = false := by
    intro other hother
    refine ⟨?_, hsimple.plain other (hahead.subset (List.mem_cons_of_mem _ hother))⟩
    cases hstretch : stretch.tokens with
    | nil => simp [hstretch] at hahead
    | cons first tokens =>
        rw [hstretch] at hsimple hahead
        have htokens : ahead <:+ tokens := by
          rcases List.suffix_cons_iff.1 hahead with heq | hsuffix
          · rw [(List.cons.inj heq).2]
          · exact (List.suffix_cons _ _).trans hsuffix
        have hother := hsimple.2 other (htokens.subset hother)
        simp only [Token.isAny, List.any_eq_false] at hother ⊢
        exact fun symbol hsymbol => hother symbol (hwords hsymbol)
  clear hahead
  induction ahead with
  | nil =>
      have hsemicolon : stretch.semicolon.isAny starters = false := by
        simp [Token.isAny, Token.is, stretch.closed_kind, starters]
      rw [List.nil_append, resume, hsemicolon, stretch.closed]
      exact hafter _
  | cons other ahead ih =>
      obtain ⟨hstarter, hplain⟩ := htail other List.mem_cons_self
      rw [List.cons_append, resume, hstarter, hplain]
      exact ih fun token htoken => htail token (List.mem_cons_of_mem _ htoken)

/-- After an error in the stretch reading goes on behind the semicolon. -/
theorem Inside.recover (h : stretch.Inside state) (hsimple : Simple stretch.tokens) :
    stretch.Behind state.recover := by
  obtain ⟨ahead, hahead, hrest⟩ := h.rest
  rw [State.recover, hrest]
  cases ahead with
  | nil =>
      refine ⟨?_, h.ending, h.reports⟩
      simp only [List.nil_append, stretch.closed]
      cases stretch.further <;> simp [resume]
  | cons token ahead =>
      refine ⟨?_, h.ending, h.reports⟩
      have hplain := hsimple.plain token (hahead.subset List.mem_cons_self)
      simp only [List.cons_append, hplain]
      exact resume_behind hsimple hahead

end Stretch

namespace Completes

/-- What ends with a semicolon ends the stretch. -/
theorem expect_semicolon (hsimple : Simple stretch.tokens) (what : Expectation) {result : β} :
    Completes stretch (do
      let _ ← expect .semicolon what
      return result) := by
  rintro ⟨tokens, ending, nextId, diagnostics⟩ h
  obtain ⟨ahead, hahead, hrest⟩ := h.rest
  dsimp only at hrest
  subst hrest
  cases ahead with
  | nil =>
      have hany : stretch.semicolon.isAny [.semicolon] := by
        simp [Token.isAny, stretch.closed]
      have hresult : expect .semicolon what
          ⟨stretch.semicolon :: stretch.further, ending, nextId, diagnostics⟩ =
          .ok stretch.semicolon ⟨stretch.further, ending, nextId, diagnostics⟩ := by
        rw [expect, bind_of_ok (by simp only [accept?, hany, if_true]; rfl)]
        rfl
      rw [List.nil_append, bind_of_ok hresult]
      exact ⟨rfl, h.ending, h.reports⟩
  | cons token ahead =>
      have hany : token.isAny [.semicolon] = false := by
        simp [Token.isAny, hsimple.plain token (hahead.subset List.mem_cons_self)]
      have hresult : expect .semicolon what
          ⟨token :: (ahead ++ stretch.semicolon :: stretch.further), ending, nextId,
            diagnostics⟩ = fail what ⟨token :: (ahead ++ stretch.semicolon :: stretch.further),
              ending, nextId, diagnostics⟩ := by
        rw [expect, bind_of_ok (by simp only [accept?, hany]; rfl)]
      rw [List.cons_append, bind_of_error hresult]
      exact h.report h.next_mem _

variable {fuel : Nat} (hsimple : Simple stretch.tokens)
include hsimple

theorem expressionStatement : Completes stretch (expressionStatement fuel) :=
  (expressionsStay fuel).expression.bind fun _ => expect_semicolon hsimple _

theorem printStatement : Completes stretch (printStatement fuel) :=
  (expressionsStay fuel).expression.bind fun _ => expect_semicolon hsimple _

theorem breakStatement (keyword : Token) : Completes stretch (breakStatement keyword) :=
  expect_semicolon hsimple _

/-- An expression that may be missing, and the semicolon. -/
theorem optional (fuel : Nat) (absent : Bool) (what : Expectation)
    (build : Option Expr → Stmt) :
    Completes stretch (do
      let value ← if absent then pure none else some <$> expression fuel
      let _ ← expect .semicolon what
      return build value) := by
  cases absent with
  | true => exact Runs.pure.bind fun _ => expect_semicolon hsimple what
  | false =>
      exact (expressionsStay fuel).expression.map.bind fun _ => expect_semicolon hsimple what

theorem returnStatement (keyword : Token) : Completes stretch (returnStatement fuel keyword) :=
  (Stays.nextIs _).bind fun closed => optional hsimple fuel closed _ _

theorem variableDeclaration : Completes stretch (variableDeclaration fuel) := by
  rw [Parser.variableDeclaration]
  apply (Stays.expect (by decide) _).bind
  intro name
  apply Stays.accept? (by decide)
  · intro equals _
    exact optional hsimple fuel false _ _
  · exact optional hsimple fuel true _ _

end Completes

/-- Going on with the token that comes next. -/
theorem peek_at {word : Token} {rest : Token → Parser α} {after : State → Prop}
    (h : Runs (stretch.Before word) (rest word) after stretch.Inside) :
    Runs (stretch.Before word) (peek >>= rest) after stretch.Inside := by
  rintro ⟨tokens, ending, nextId, diagnostics⟩ ⟨hinside, hhead⟩
  obtain ⟨further, rfl⟩ := List.head?_eq_some_iff.1 hhead
  exact h _ ⟨hinside, hhead⟩

/-- A word can come first in a simple statement, or be its semicolon. -/
def Opens (word : Token) : Prop :=
  word.isAny boundaries → word.isAny (.semicolon :: simpleWords)

theorem Opens.kind_ne {word : Token} (h : Opens word) {symbol : Symbol}
    (hboundary : symbol ∈ boundaries) (hother : symbol ∉ .semicolon :: simpleWords) :
    word.kind ≠ .symbol symbol := by
  intro hkind
  have hwords : word.isAny (.semicolon :: simpleWords) := by
    apply h
    rw [Token.isAny, List.any_eq_true]
    exact ⟨symbol, hboundary, by simp [Token.is, hkind]⟩
  rw [Token.isAny, List.any_eq_true] at hwords
  obtain ⟨other, hmem, hother'⟩ := hwords
  obtain rfl : symbol = other := by simpa [Token.is, hkind] using hother'
  exact hother hmem

theorem Stretch.Start.opens {state : State} (h : stretch.Start state) :
    ∃ word, Opens word ∧ stretch.Before word state := by
  refine ⟨state.next, ?_, h.inside, ?_⟩
  · have hsimple := h.simple
    rw [State.next, h.rest]
    cases htokens : stretch.tokens with
    | nil =>
        intro _
        simp [Token.isAny, stretch.closed]
    | cons first tokens =>
        rw [htokens] at hsimple
        intro hboundary
        have hword := hsimple.1 hboundary
        rw [Token.isAny, List.any_eq_true] at hword ⊢
        obtain ⟨symbol, hmem, hsymbol⟩ := hword
        exact ⟨symbol, List.mem_cons_of_mem _ hmem, hsymbol⟩
  · rw [State.next, h.rest]
    cases stretch.tokens <;> rfl

/-- A statement that begins in this way is read up to the end of the stretch unless
it stops inside. -/
theorem statement_completes {word : Token} (hsimple : Simple stretch.tokens)
    (hword : Opens word) (fuel : Nat) :
    Runs (stretch.Before word) (statement fuel) stretch.Behind stretch.Inside := by
  cases fuel with
  | zero => exact fun _ h => h.1
  | succ fuel =>
      rw [statement]
      apply peek_at
      split
      case h_1 hkind => exact absurd hkind (hword.kind_ne (by decide) (by decide))
      case h_2 hkind => exact absurd hkind (hword.kind_ne (by decide) (by decide))
      case h_3 hkind => exact absurd hkind (hword.kind_ne (by decide) (by decide))
      case h_4 hkind =>
        exact advance_before (by simp [Token.is, hkind]) (Completes.breakStatement hsimple word)
      case h_5 hkind =>
        exact advance_before (by simp [Token.is, hkind]) (Completes.returnStatement hsimple word)
      case h_6 hkind => exact absurd hkind (hword.kind_ne (by decide) (by decide))
      case h_7 hkind =>
        exact advance_before (by simp [Token.is, hkind]) (Completes.printStatement hsimple)
      case h_8 => exact (Completes.expressionStatement hsimple).at_token

theorem declaration_completes {word : Token} (hsimple : Simple stretch.tokens)
    (hword : Opens word) (fuel : Nat) :
    Runs (stretch.Before word) (declaration fuel) stretch.Behind stretch.Inside := by
  cases fuel with
  | zero => exact fun _ h => h.1
  | succ fuel =>
      rw [declaration]
      apply peek_at
      split
      case h_1 hkind => exact absurd hkind (hword.kind_ne (by decide) (by decide))
      case h_2 hkind => exact absurd hkind (hword.kind_ne (by decide) (by decide))
      case h_3 hkind =>
        exact advance_before (by simp [Token.is, hkind]) (Completes.variableDeclaration hsimple)
      case h_4 => exact statement_completes hsimple hword fuel

end Lox.Parser
