import Lox.Proofs.Syntax.Braces
import Lox.Proofs.Syntax.Rereading
import Lox.Proofs.Variant.Tree

/-!
# Tests in the bodies of loops

The test of a `while` statement is written into its body, which it leaves if the
condition does not hold.  The tokens of the condition and of the body stay as they
are and come in the same order, so their name occurrences keep their numbers and the
tree is the same around the new loop.
-/

namespace Lox

/-- A loop, and one that makes the same test in its body. -/
inductive Stmt.TestsInside : Stmt → Stmt → Prop where
  | mk (condition : Expr) (body : Stmt) {operator keyword : Token}
    (hoperator : operator.is .bang) (hkeyword : keyword.is .breakWord) :
    TestsInside (.loop condition body) (.testedLoop operator keyword condition body)

/-- The tokens of a `while` statement. -/
structure WhileStatement where
  word : Token
  opening : Token
  test : List Token
  closing : Token
  body : List Token
  isWhile : word.is .whileWord
  opens : opening.is .leftParen
  condition : ∃ lower upper e, Grammar.Expression lower test upper e
  closes : closing.is .rightParen

namespace WhileStatement

/-- `while (test) body` -/
def tokens (w : WhileStatement) : List Token :=
  w.word :: w.opening :: (w.test ++ w.closing :: w.body)

/-- `while (true) { if (!(test)) break; body }`, where the new tokens are on whatever
lines. -/
inductive Tested (w : WhileStatement) : List Token → Prop where
  | mk {word opening holds closing brace branch leaving bang inner innermost outer keyword semicolon
      last : Token}
    (hword : word.is .whileWord) (hopening : opening.is .leftParen) (hholds : holds.is .trueWord)
    (hclosing : closing.is .rightParen) (hbrace : brace.is .leftBrace)
    (hbranch : branch.is .ifWord) (hleaving : leaving.is .leftParen) (hbang : bang.is .bang)
    (hinner : inner.is .leftParen) (hinnermost : innermost.is .rightParen)
    (houter : outer.is .rightParen) (hkeyword : keyword.is .breakWord)
    (hsemicolon : semicolon.is .semicolon) (hlast : last.is .rightBrace) :
    Tested w (word :: opening :: holds :: closing :: brace :: branch :: leaving :: bang :: inner ::
      (w.test ++ innermost :: outer :: keyword :: semicolon :: (w.body ++ [last])))

end WhileStatement

namespace Grammar

open Lox.Parser

/-! ## Putting tokens in the place of a statement -/

/-- Whatever statement `inner` derives, `inner'` derives one that can replace it, with
the same numbers, that is not dangling unless the first is. -/
def Substitutes (statements : Stmt → Stmt → Prop) (inner inner' : List Token) : Prop :=
  ∀ (dangling : Bool) (lower upper : Nat) (s : Stmt), Statement dangling lower inner upper s →
    ∃ (dangling' : Bool) (s' : Stmt), (dangling' → dangling) ∧
      Statement dangling' lower inner' upper s' ∧ statements s s'

section Substitution

variable {statements : Stmt → Stmt → Prop} {inner inner' : List Token}

mutual

theorem StatementAround.substituted (hinner : Substitutes statements inner inner')
    {dangling : Bool} {lower upper : Nat} {before after : List Token} {s s₀ : Stmt} :
    StatementAround inner dangling lower before after upper s s₀ →
      ∃ (dangling' : Bool) (s' : Stmt), (dangling' → dangling) ∧
        Statement dangling' lower (before ++ (inner' ++ after)) upper s' ∧
        s.Replaced statements (fun _ _ => False) s'
  | .here h => by
    obtain ⟨dangling', s', hdangling, h', hs⟩ := hinner _ _ _ _ h
    exact ⟨dangling', s', hdangling, by simpa using h', .here hs⟩
  | .block hbrace h hlast => by
    obtain ⟨_, h', hs⟩ := h.substituted hinner
    exact ⟨false, _, (nomatch ·), by simpa using Statement.block hbrace h' hlast, .block hs⟩
  | .loop hword hparen hcondition hafter h => by
    obtain ⟨dangling', _, hdangling, h', hs⟩ := h.substituted hinner
    refine ⟨dangling', _, hdangling, ?_, .loop _ hs⟩
    simpa using Statement.loop hword hparen hcondition hafter h'
  | .forLoop hword hparen hstart htest hsemicolon hstep hafter h => by
    obtain ⟨dangling', _, hdangling, h', hs⟩ := h.substituted hinner
    refine ⟨dangling', _, hdangling, ?_, hs.forLoop _ _ _⟩
    simpa using Statement.forLoop hword hparen hstart htest hsemicolon hstep hafter h'
  | .branch hword hparen hcondition hafter h => by
    obtain ⟨_, _, -, h', hs⟩ := h.substituted hinner
    refine ⟨true, _, fun _ => rfl, ?_, .branchThen _ none hs⟩
    simpa using Statement.branch hword hparen hcondition hafter h'
  | .branchThen hword hparen hcondition hafter h hotherwise helse => by
    obtain ⟨dangling', _, hdangling, h', hs⟩ := h.substituted hinner
    obtain rfl : dangling' = false := by simpa using hdangling
    refine ⟨_, _, id, ?_, .branchThen _ (some _) hs⟩
    simpa using Statement.branchElse hword hparen hcondition hafter h' hotherwise helse
  | .branchElse hword hparen hcondition hafter hthen hotherwise h => by
    obtain ⟨dangling', _, hdangling, h', hs⟩ := h.substituted hinner
    refine ⟨dangling', _, hdangling, ?_, .branchElse _ _ hs⟩
    simpa using Statement.branchElse hword hparen hcondition hafter hthen hotherwise h'

theorem DeclarationAround.substituted (hinner : Substitutes statements inner inner')
    {dangling : Bool} {lower upper : Nat} {before after : List Token} {s s₀ : Stmt} :
    DeclarationAround inner dangling lower before after upper s s₀ →
      ∃ (dangling' : Bool) (s' : Stmt),
        Declaration dangling' lower (before ++ (inner' ++ after)) upper s' ∧
        s.Replaced statements (fun _ _ => False) s'
  | .statement h => by
    obtain ⟨_, _, -, h', hs⟩ := h.substituted hinner
    exact ⟨_, _, .statement h', hs⟩
  | .function hword h => by
    obtain ⟨_, h', hs⟩ := h.substituted hinner
    exact ⟨false, _, .function hword h', .function hs⟩
  | .classDecl hword hname hbrace h hlast => by
    obtain ⟨_, h', hs⟩ := h.substituted hinner
    refine ⟨false, _, ?_, .classDecl _ hs⟩
    simpa using Declaration.classDecl hword hname hbrace h' hlast

theorem DeclarationsAround.substituted (hinner : Substitutes statements inner inner')
    {lower upper : Nat} {before after : List Token} {ss ss₀ : List Stmt} :
    DeclarationsAround inner lower before after upper ss ss₀ →
      ∃ ss' : List Stmt, Declarations lower (before ++ (inner' ++ after)) upper ss' ∧
        Stmt.ReplacedIn statements (fun _ _ => False) ss ss'
  | .head h hrest => by
    obtain ⟨_, _, h', hs⟩ := h.substituted hinner
    exact ⟨_, by simpa using Declarations.cons h' hrest, .head hs _⟩
  | .tail hfirst h => by
    obtain ⟨_, h', hss⟩ := h.substituted hinner
    exact ⟨_, by simpa using Declarations.cons hfirst h', .tail _ hss⟩

theorem CallableAround.substituted (hinner : Substitutes statements inner inner')
    {lower upper : Nat} {before after : List Token} {d d₀ : FunctionDecl} :
    CallableAround inner lower before after upper d d₀ →
      ∃ d' : FunctionDecl, Callable lower (before ++ (inner' ++ after)) upper d' ∧
        d.Replaced statements (fun _ _ => False) d'
  | .mk hname hparen hparameters hafter hbrace h hlast => by
    obtain ⟨_, h', hss⟩ := h.substituted hinner
    refine ⟨_, ?_, .body _ _ hss⟩
    simpa using Callable.mk hname hparen hparameters hafter hbrace h' hlast

theorem MethodsAround.substituted (hinner : Substitutes statements inner inner')
    {lower upper : Nat} {before after : List Token} {ds ds₀ : List FunctionDecl} :
    MethodsAround inner lower before after upper ds ds₀ →
      ∃ ds' : List FunctionDecl, Methods lower (before ++ (inner' ++ after)) upper ds' ∧
        FunctionDecl.ReplacedIn statements (fun _ _ => False) ds ds'
  | .head h hrest => by
    obtain ⟨_, h', hd⟩ := h.substituted hinner
    exact ⟨_, by simpa using Methods.cons h' hrest, .head hd _⟩
  | .tail hfirst h => by
    obtain ⟨_, h', hds⟩ := h.substituted hinner
    exact ⟨_, by simpa using Methods.cons hfirst h', .tail _ hds⟩

end

end Substitution

/-! ## Loops -/

variable {lower upper : Nat} {dangling : Bool} {s : Stmt}

/-- What is in front of a closing parenthesis can be derived in one way only. -/
theorem Expression.unique_before {tokens tokens' rest rest' : List Token} {closing closing' : Token}
    {upper' : Nat} {e e' : Expr} (h : Expression lower tokens upper e)
    (h' : Expression lower tokens' upper' e') (hclosing : closing.is .rightParen)
    (hclosing' : closing'.is .rightParen)
    (hsame : tokens ++ closing :: rest = tokens' ++ closing' :: rest') :
    tokens = tokens' ∧ closing = closing' ∧ rest = rest' := by
  let ending : Token := ⟨.symbol .endOfFile, "", 0⟩
  let fuel := 32 * (tokens ++ closing :: rest).length + 10
  have hread := expression_leads_to h (le_refl fuel) hclosing (by decide) ending #[]
  have hread' := expression_leads_to h' (show _ ≤ fuel by rw [← hsame]) hclosing' (by decide)
    ending #[]
  rw [hsame, hread'] at hread
  have hrest : closing' :: rest' = closing :: rest :=
    congrArg State.rest (congrArg finalState hread)
  obtain ⟨rfl, rfl⟩ := List.cons.inj hrest
  exact ⟨List.append_cancel_right hsame, rfl, rfl⟩

/-- A statement is derived by the tokens of a `while` statement from its test and its
body. -/
theorem exists_test {w : WhileStatement} (h : Statement dangling lower w.tokens upper s) :
    ∃ (middle : Nat) (condition : Expr) (body : Stmt),
      Expression lower w.test middle condition ∧ Statement dangling middle w.body upper body ∧
      s = .loop condition body := by
  obtain ⟨_, _, _, htest⟩ := w.condition
  generalize htokens : w.tokens = tokens at h
  have hother {symbols : List Symbol} (hheaded : Headed symbols tokens)
      (hwhile : Symbol.whileWord ∉ symbols) : False := by
    obtain ⟨token, _, heq, hbegins⟩ := hheaded
    cases htokens.trans heq
    exact hwhile (hbegins _ (kind_of_is w.isWhile))
  cases h with
  | loop _ _ hcondition hclosing hbody =>
      obtain ⟨_, _, htest, -⟩ := htest.reread (Token.allAlike_refl _) lower
      obtain ⟨rfl, hbehind⟩ := List.cons.inj htokens
      obtain ⟨rfl, rfl, rfl⟩ :=
        htest.unique_before hcondition w.closes hclosing (List.cons.inj hbehind).2
      exact ⟨_, _, _, hcondition, hbody, rfl⟩
  | expression he _ => exact (hother (Expression.headed he).append (by decide)).elim
  | print hfirst _ _ | giveBack hfirst _ _ | leave hfirst _ | block hfirst _ _
  | forLoop hfirst _ _ _ _ _ _ _ | branch hfirst _ _ _ _ | branchElse hfirst _ _ _ _ _ _ =>
      exact (hother (.cons (.of_is hfirst (List.mem_singleton_self _))) (by decide)).elim

/-- In the place of a `while` statement the loop is derived that tests inside. -/
theorem substitutes_tested {w : WhileStatement} {inner : List Token} (h : w.Tested inner) :
    Substitutes Stmt.TestsInside w.tokens inner := by
  intro dangling lower upper s hs
  obtain ⟨middle, condition, body, htest, hbody, rfl⟩ := exists_test hs
  obtain ⟨hword, hopening, hholds, hclosing, hbrace, hbranch, hleaving, hbang, hinner, hinnermost,
    houter, hkeyword, hsemicolon, hlast⟩ := h
  have htrue : Call lower [_] lower (.literal (.truth true)) := .literal (kind_of_is hholds)
  have hnot := Operand.unary (List.any_eq_true.2 ⟨_, by decide, hbang⟩) (.call
    (.grouping hinner htest hinnermost))
  have hleave := Statement.branch hbranch hleaving
    (.operand (.loosen List.nil_suffix hnot)) houter (.leave hkeyword hsemicolon)
  have hblock := Statement.block hbrace
    (.cons (.statement hleave) (.cons (.statement hbody) .nil)) hlast
  refine ⟨false, _, (nomatch ·), ?_, .mk condition body hbang hkeyword⟩
  simpa [Stmt.testedLoop, Stmt.testedBody] using
    Statement.loop hword hopening htrue.expression hclosing hblock

end Grammar

end Lox
