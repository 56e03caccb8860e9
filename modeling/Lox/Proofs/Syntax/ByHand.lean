import Lox.Proofs.Syntax.Exchange

/-!
# A `for` statement written by hand

A `for` statement stands somewhere in a program.  In its place the block with the
initializer and a `while` loop is written, whose body ends with the increment.  The
tokens of the clauses and of the body are the same, but the increment comes behind
the body, and so do its name occurrences.  A tree of the same shape is derived.
-/

namespace Lox

/-- A round of a `for` statement: its body and its increment. -/
def Stmt.forRound (increment : Option Expr) (body : Stmt) : Stmt :=
  match increment with
  | some e => .block [body, .expression e]
  | none => body

/-- The condition of a `for` statement, which holds if it is missing. -/
def Expr.forCondition (condition : Option Expr) : Expr :=
  condition.getD (.literal (.truth true))

/-- The tokens of a `for` statement. -/
structure ForStatement where
  word : Token
  opening : Token
  /-- The initializer, with its semicolon. -/
  start : List Token
  test : List Token
  semicolon : Token
  step : List Token
  closing : Token
  body : List Token
  isFor : word.is .forWord
  opens : opening.is .leftParen
  initializer : ∃ lower upper s?, Grammar.ForInitializer lower start upper s?
  condition : ∃ lower upper e?, Grammar.Clause lower test upper e?
  separates : semicolon.is .semicolon
  increment : ∃ lower upper e?, Grammar.Clause lower step upper e?
  closes : closing.is .rightParen

namespace ForStatement

/-- `for (start test; step) body` -/
def tokens (f : ForStatement) : List Token :=
  f.word :: f.opening ::
    (f.start ++ (f.test ++ f.semicolon :: (f.step ++ f.closing :: f.body)))

/-- What is run in each round: the body alone, or a block of it and the increment. -/
def round (f : ForStatement) : List Token :=
  if f.step.isEmpty then f.body
  else
    ⟨.symbol .leftBrace, "\x7b", 0⟩ ::
      (f.body ++ (f.step ++ [⟨.symbol .semicolon, ";", 0⟩, ⟨.symbol .rightBrace, "\x7d", 0⟩]))

/-- `while (test) round`, where a missing condition is `true`. -/
def loop (f : ForStatement) : List Token :=
  let test := if f.test.isEmpty then [⟨.symbol .trueWord, "true", 0⟩] else f.test
  ⟨.symbol .whileWord, "while", 0⟩ :: ⟨.symbol .leftParen, "(", 0⟩ ::
    (test ++ ⟨.symbol .rightParen, ")", 0⟩ :: f.round)

/-- The loop alone if the initializer is only a semicolon, or else a block of the
initializer and the loop. -/
def byHand (f : ForStatement) : List Token :=
  if f.start.length = 1 then f.loop
  else ⟨.symbol .leftBrace, "\x7b", 0⟩ ::
    (f.start ++ (f.loop ++ [⟨.symbol .rightBrace, "\x7d", 0⟩]))

end ForStatement

namespace Grammar

open Lox.Parser

variable {f : ForStatement} {lower upper : Nat} {dangling : Bool} {s : Stmt}

/-- Every statement that begins with `for` is a `for` statement. -/
theorem exists_forStatement {word : Token} {rest : List Token}
    (h : Statement dangling lower (word :: rest) upper s) (hword : word.is .forWord) :
    ∃ f : ForStatement, f.tokens = word :: rest := by
  generalize htokens : word :: rest = tokens at h
  have hother {symbols : List Symbol} (hheaded : Headed symbols tokens)
      (hfor : Symbol.forWord ∉ symbols) : False := by
    obtain ⟨token, _, heq, hbegins⟩ := hheaded
    cases htokens.trans heq
    exact hfor (hbegins _ (kind_of_is hword))
  cases h with
  | forLoop hword hopening hstart htest hsemicolon hstep hclosing _ =>
      exact ⟨⟨_, _, _, _, _, _, _, _, hword, hopening, ⟨_, _, _, hstart⟩, ⟨_, _, _, htest⟩,
        hsemicolon, ⟨_, _, _, hstep⟩, hclosing⟩, rfl⟩
  | expression he _ => exact (hother (Expression.headed he).append (by decide)).elim
  | print hfirst _ _ | giveBack hfirst _ _ | leave hfirst _ | block hfirst _ _
  | loop hfirst _ _ _ _ | branch hfirst _ _ _ _ | branchElse hfirst _ _ _ _ _ _ =>
      exact (hother (.cons (.of_is hfirst (List.mem_singleton_self _))) (by decide)).elim

/-- A statement is derived by the tokens of a `for` statement from its clauses. -/
theorem exists_clauses (h : Statement dangling lower f.tokens upper s) :
    ∃ (second third fourth : Nat) (initializer : Option Stmt) (condition increment : Option Expr)
      (body : Stmt) (dangling' : Bool), (dangling' → dangling) ∧
      ForInitializer lower f.start second initializer ∧ Clause second f.test third condition ∧
      Clause third f.step fourth increment ∧ Statement dangling' fourth f.body upper body ∧
      s = .forLoop initializer condition increment body := by
  obtain ⟨_, _, _, hstart⟩ := f.initializer
  obtain ⟨second, initializer, hstart, -⟩ := hstart.reread (Token.allAlike_refl _) lower
  obtain ⟨_, _, _, htest⟩ := f.condition
  obtain ⟨third, condition, htest, -⟩ := htest.reread (Token.allAlike_refl _) second
  obtain ⟨_, _, _, hstep⟩ := f.increment
  obtain ⟨fourth, increment, hstep, -⟩ := hstep.reread (Token.allAlike_refl _) third
  let ending : Token := ⟨.symbol .endOfFile, "", 0⟩
  let fuel := 32 * (f.tokens ++ behind dangling).length + 11
  have hinput : f.tokens ++ behind dangling = f.word :: f.opening :: (f.start ++ (f.test ++
      f.semicolon :: (f.step ++ f.closing :: (f.body ++ behind dangling)))) := by
    simp [ForStatement.tokens]
  have hfuel : fuel = 32 * (f.start ++ (f.test ++ f.semicolon ::
      (f.step ++ f.closing :: (f.body ++ behind dangling)))).length + 75 := by
    simp only [fuel, hinput, List.length_cons]
    omega
  -- The clauses are read first, and the body is what is left of the statement.
  have hclauses := for_leads f.isFor f.opens hstart htest f.separates hstep f.closes fuel
    (f.body ++ behind dangling) (by omega) ending #[]
  have hwhole := Statement.leads h (fuel + 1) (behind dangling) (by omega) stops_behind ending #[]
  rw [hinput, hclauses] at hwhole
  obtain ⟨body, after, hbody, hresult⟩ := exists_of_bind_ok hwhole
  cases hresult
  have hreads := (statementsRead fuel).statement (f.body ++ behind dangling) fourth
    (by simp only [List.length_append, List.length_cons] at hfuel ⊢; omega) ending #[] (by decide)
  rw [hbody] at hreads
  obtain ⟨dangling', passed, hpassed, hderived, hrest⟩ := hreads.2 rfl
  obtain rfl := List.append_cancel_right hpassed
  exact ⟨second, third, fourth, initializer, condition, increment, body, dangling',
    dangling_of_behind hrest, hstart, htest, hstep, hderived, rfl⟩

/-! ## Clauses that are missing -/

section Missing

variable {tokens : List Token}

theorem Clause.expression {e : Expr} :
    Clause lower tokens upper (.some e) → Expression lower tokens upper e
  | .some h => h

theorem Clause.isEmpty_eq {e? : Option Expr} (h : Clause lower tokens upper e?) :
    tokens.isEmpty = e?.isNone := by
  cases h with
  | none => rfl
  | some h =>
      obtain ⟨token, rest, rfl, -⟩ := Expression.headed h
      rfl

theorem ForInitializer.length_eq_one {s? : Option Stmt}
    (h : ForInitializer lower tokens upper s?) : tokens.length = 1 ↔ s?.isNone := by
  cases h with
  | none _ => simp
  | variableDecl _ h => cases h <;> simp
  | expression h _ =>
      obtain ⟨token, rest, rfl, -⟩ := Expression.headed h
      simp

/-- What an initializer consists of is a declaration. -/
theorem ForInitializer.declaration {s : Stmt} :
    ForInitializer lower tokens upper (.some s) → Declaration false lower tokens upper s
  | .variableDecl hword h => .variableDecl hword h
  | .expression h hclosing => .statement (.expression h hclosing)

end Missing

/-! ## What is derived by hand -/

variable {third fourth : Nat} {condition increment : Option Expr} {body : Stmt}
variable {tokens' : List Token}

theorem round_by_hand (hstep : Clause third f.step fourth increment)
    (hbody : Statement dangling fourth f.body upper body)
    (htokens : Token.AllAlike f.round tokens') (lower' : Nat) :
    ∃ (dangling' : Bool) (upper' : Nat) (s' : Stmt), (dangling' → dangling) ∧
      Statement dangling' lower' tokens' upper' s' ∧
      (Stmt.forRound increment body).Matches .shape s' := by
  rw [ForStatement.round, hstep.isEmpty_eq] at htokens
  cases increment with
  | none => exact hbody.reread htokens lower'
  | some e =>
      rcases htokens with _ | @⟨_, opening, _, _, hopening, hbehind⟩
      obtain ⟨body', _, rfl, hbody', hbehind⟩ := Token.exists_of_append hbehind
      obtain ⟨step', _, rfl, hstep', hend⟩ := Token.exists_of_append hbehind
      rcases hend with _ | @⟨_, semicolon, _, _, hsemicolon, hend⟩
      rcases hend with _ | @⟨_, closing, _, _, hclosing, _ | _⟩
      obtain ⟨_, middle, s', -, hs', hbody⟩ := hbody.reread hbody' lower'
      obtain ⟨upper', e', he', he⟩ := hstep.expression.reread hstep' middle
      have hincrement := Statement.expression he' (is_of_kind hsemicolon.kind.symm)
      have hblock := Statement.block (is_of_kind hopening.kind.symm)
        (.cons (.statement hs') (.cons (.statement hincrement) .nil))
        (is_of_kind hclosing.kind.symm)
      refine ⟨false, upper', _, (absurd · Bool.false_ne_true), by simpa using hblock, ?_⟩
      exact .block (.cons hbody (.cons (.expression he) .nil))

theorem condition_by_hand {second : Nat} (htest : Clause second f.test third condition)
    (htokens : Token.AllAlike
      (if f.test.isEmpty then [⟨.symbol .trueWord, "true", 0⟩] else f.test) tokens')
    (lower' : Nat) :
    ∃ upper' e', Expression lower' tokens' upper' e' ∧
      (Expr.forCondition condition).Matches .shape e' := by
  rw [htest.isEmpty_eq] at htokens
  cases condition with
  | none =>
      rcases htokens with _ | @⟨_, word, _, _, hword, _ | _⟩
      have hliteral : Call lower' [word] lower' (.literal (.truth true)) :=
        .literal hword.kind.symm
      exact ⟨lower', _, hliteral.expression, .literal _⟩
  | some e => exact htest.expression.reread htokens lower'

theorem loop_by_hand {second : Nat} (htest : Clause second f.test third condition)
    (hstep : Clause third f.step fourth increment)
    (hbody : Statement dangling fourth f.body upper body)
    (htokens : Token.AllAlike f.loop tokens') (lower' : Nat) :
    ∃ (dangling' : Bool) (upper' : Nat) (s' : Stmt), (dangling' → dangling) ∧
      Statement dangling' lower' tokens' upper' s' ∧
      (Stmt.loop (Expr.forCondition condition) (.forRound increment body)).Matches .shape s' := by
  rw [ForStatement.loop] at htokens
  rcases htokens with _ | @⟨_, word, _, _, hword, htokens⟩
  rcases htokens with _ | @⟨_, opening, _, _, hopening, hbehind⟩
  obtain ⟨test', _, rfl, htest', hend⟩ := Token.exists_of_append hbehind
  rcases hend with _ | @⟨_, closing, _, _, hclosing, hround⟩
  obtain ⟨middle, e', he', hcondition⟩ := condition_by_hand htest htest' lower'
  obtain ⟨dangling', upper', s', hdangling, hs', hs⟩ :=
    round_by_hand hstep hbody hround middle
  exact ⟨dangling', upper', _, hdangling, .loop (is_of_kind hword.kind.symm)
    (is_of_kind hopening.kind.symm) he' (is_of_kind hclosing.kind.symm) hs',
    .loop hcondition hs⟩

/-- In the place of a `for` statement what is written by hand derives a tree of the
same shape, from any number on.  It does not become dangling. -/
theorem statement_by_hand (h : Statement dangling lower f.tokens upper s)
    (htokens : Token.AllAlike f.byHand tokens') (lower' : Nat) :
    ∃ (dangling' : Bool) (upper' : Nat) (s' : Stmt), (dangling' → dangling) ∧
      Statement dangling' lower' tokens' upper' s' ∧ s.Matches .shape s' := by
  obtain ⟨second, third, fourth, initializer, condition, increment, body, dangling', hdangling,
    hstart, htest, hstep, hbody, rfl⟩ := exists_clauses h
  simp only [ForStatement.byHand, hstart.length_eq_one] at htokens
  cases initializer with
  | none =>
      obtain ⟨dangling'', upper', s', hdangling', hs', hloop⟩ :=
        loop_by_hand htest hstep hbody htokens lower'
      exact ⟨dangling'', upper', s', fun h => hdangling (hdangling' h), hs', hloop⟩
  | some s =>
      rcases htokens with _ | @⟨_, opening, _, _, hopening, hbehind⟩
      obtain ⟨start', _, rfl, hstart', hbehind⟩ := Token.exists_of_append hbehind
      obtain ⟨loop', _, rfl, hloop', hend⟩ := Token.exists_of_append hbehind
      rcases hend with _ | @⟨_, closing, _, _, hclosing, _ | _⟩
      obtain ⟨middle, _, hs', hinitializer⟩ := hstart.reread hstart' lower'
      obtain ⟨hinitializer⟩ := hinitializer
      obtain ⟨_, upper', loop, -, hloop'', hloop⟩ := loop_by_hand htest hstep hbody hloop' middle
      have hblock := Statement.block (is_of_kind hopening.kind.symm)
        (.cons hs'.declaration (.cons (.statement hloop'') .nil))
        (is_of_kind hclosing.kind.symm)
      refine ⟨false, upper', _, (absurd · Bool.false_ne_true), by simpa using hblock, ?_⟩
      exact .block (.cons hinitializer (.cons hloop .nil))

theorem exchanges_by_hand (h : Token.AllAlike f.byHand tokens') : Exchanges f.tokens tokens' :=
  fun _ _ _ _ hs lower' => statement_by_hand hs h lower'

end Grammar

end Lox
