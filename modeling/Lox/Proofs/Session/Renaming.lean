import Lox.Proofs.Session.Variants
import Lox.Proofs.Syntax.Recognition.Statement
import Lox.Proofs.Variant.Renaming

/-!
# Renaming a local name changes nothing

A variable or a parameter of a block or a function is given a name that is not in
use, where it is declared and wherever the analysis has bound it to its scope.  The
program is accepted with the distances that it had, and runs as it did.
-/

namespace Lox.Session

/-- In a session after any history, a local variable or parameter `before` of an
accepted program becomes `after`, which no name of the program is.  Scope analysis
finds no errors in the changed program and records the same distances.  Run from
the same state, it writes the same output and ends with the same outcome, but that
where `before` is reported as undefined, `after` is. -/
theorem local_renamed (clock : Nat → Float) (output : Output) (history : List Submission)
    (source : String) {statements statements' : List Stmt} {accepted : Session}
    {before after : String}
    (haccept : ((initial clock output).after history).accept source = (.ok statements, accepted))
    (hunused : Stmt.FormedAll (fun token => token.lexeme ≠ after) statements)
    (hafter : after ≠ "this")
    (hrenamed : Stmt.ReplacedIn (Stmt.Renamed ⟨before, after, accepted.machine.distances⟩)
      (FunctionDecl.Renamed ⟨before, after, accepted.machine.distances⟩) statements statements') :
    Analysis.ofProgram ((initial clock output).after history).machine.distances statements' =
        (accepted.machine.distances, []) ∧
      ∀ (fuel : Nat) (echo : Bool),
        let run := accepted.perform fuel echo statements
        let run' := accepted.perform fuel echo statements'
        run'.2.machine.output = run.2.machine.output ∧
          (run'.1 = run.1 ∨ ∃ line, run.1 = .failed (.error line (.undefinedVariable before)) ∧
            run'.1 = .failed (.error line (.undefinedVariable after))) := by
  have hsound := ((sound_initial clock output).after history).session
  have hrooted := ((rooted_initial clock output).after history).2.1
  generalize (initial clock output).after history = session at haccept hsound hrooted ⊢
  have hspelled := accept_formed haccept
  have hbefore : before ≠ "this" := hrenamed.part (Renaming.partsYield _) hspelled
  have hvary := hrenamed.vary (Renaming.replaces hbefore hafter)
    (Stmt.formedAll_both statements hspelled hunused) (accept_clean haccept)
  have hwritten := hsound.written haccept rfl hunused hvary
  have hdistances : (Analysis.ofProgram session.machine.distances statements').1 =
      accepted.machine.distances := (hwritten.distances'_eq rfl).trans hwritten.distances.symm
  refine ⟨Prod.ext hdistances hwritten.accepted, fun fuel echo => ?_⟩
  have hconcludes : Variant.Concludes _ (accepted.perform fuel echo statements)
      (accepted.perform fuel echo statements') :=
    hsound.concludes hrooted haccept rfl hwritten hdistances.symm
      (hdistances.symm ▸ accept_machine haccept) (rfl : Pace.Enough .same fuel fuel) fun _ => rfl
  dsimp only
  generalize accepted.perform fuel echo statements = run at hconcludes ⊢
  generalize accepted.perform fuel echo statements' = run' at hconcludes ⊢
  cases hconcludes with
  | behind hpace => cases hpace
  | ahead hpace => cases hpace
  | ended houtcome houtput =>
      refine ⟨houtput.symm, ?_⟩
      cases houtcome with
      | same outcome => exact .inl rfl
      | @undefined line name hused =>
          by_cases hname : name = before
          · subst hname
            exact .inr ⟨line, rfl, by rw [Renaming.variant, Naming.swap_before]⟩
          · exact .inl (by rw [Renaming.variant, Naming.swap_other hbefore hafter hname hused])

/-- A parameter that a function inside captures; a global variable has its name. -/
theorem local_renamed_in_function :
    let session := (initial (fun _ => 0) {}).after [⟨"var x = \"global\";", 8, false⟩]
    let source := "fun f(x) { fun g() { return x; } return g(); } print f(\"local\"); print x;"
    ∃ statements accepted statements',
      session.accept source = (.ok statements, accepted) ∧
        Stmt.ReplacedIn (Stmt.Renamed ⟨"x", "y", accepted.machine.distances⟩)
          (FunctionDecl.Renamed ⟨"x", "y", accepted.machine.distances⟩) statements statements' ∧
        Analysis.ofProgram session.machine.distances statements' =
          (accepted.machine.distances, []) ∧
        (accepted.perform 16 false statements).2.machine.output.bytes =
          "local\nglobal\n".toUTF8 ∧
        (accepted.perform 16 false statements').2.machine.output.bytes =
          "local\nglobal\n".toUTF8 := by
  intro session source
  have hsymbol (symbol : Symbol) (lexeme : String) :
      (Token.mk (.symbol symbol) lexeme 1).is symbol := Grammar.is_of_kind rfl
  have hname (lexeme : String) (next : Nat) :
      Grammar.Call next [⟨.symbol .identifier, lexeme, 1⟩] (next + 1) (.reference next _) :=
    .reference (hsymbol .identifier lexeme)
  have hcall {next : Nat} {tokens : List Token} {arguments : List Expr} (name : String)
      (h : Grammar.Arguments (next + 1) tokens (next + 1) arguments) :=
    Grammar.Call.call (hname name next) (hsymbol .leftParen "(") h (hsymbol .rightParen ")")
  have hgiveBack {lower upper : Nat} {tokens : List Token} {value : Expr}
      (h : Grammar.Call lower tokens upper value) :=
    Grammar.Statement.giveBack (hsymbol .returnWord "return") (.some h.expression)
      (hsymbol .semicolon ";")
  have hprint {lower upper : Nat} {tokens : List Token} {value : Expr}
      (h : Grammar.Call lower tokens upper value) :=
    Grammar.Statement.print (hsymbol .printWord "print") h.expression (hsymbol .semicolon ";")
  have hfunction {lower upper : Nat} {tokens inner parameters : List Token} {body : List Stmt}
      (name : String) (hparameters : Grammar.Parameters tokens parameters)
      (h : Grammar.Declarations lower inner upper body) :=
    Grammar.Declaration.function (hsymbol .funWord "fun") (.mk (hsymbol .identifier name)
      (hsymbol .leftParen "(") hparameters (hsymbol .rightParen ")") (hsymbol .leftBrace "\x7b") h
      (hsymbol .rightBrace "\x7d"))
  have hinner := hfunction "g" .none
    (.cons (.statement (hgiveBack (hname "x" session.nextId))) .nil)
  have houter := hfunction "f" (.some (.last (hsymbol .identifier "x")) (by decide))
    (.cons hinner (.cons (.statement (hgiveBack (hcall "g" .none))) .nil))
  have hliteral : Grammar.Call (session.nextId + 3) [⟨.text "local", "\"local\"", 1⟩]
      (session.nextId + 3) (.literal (.text "local")) := .literal rfl
  have hstatements : (session.reading source).statements = [.function _, .print _, .print _] :=
    Parser.statements_of_declarations
      (by simp only [source, List.cons_append, List.nil_append, List.append_nil]
          with_unfolding_all rfl)
      (.cons houter (.cons (.statement (hprint
        (hcall "f" (.some (.last hliteral.expression) (by decide)))))
        (.cons (.statement (hprint (hname "x" _))) .nil)))
  have herrors : session.errors source = [] := List.isEmpty_iff.1 (by decide +kernel)
  have haccept : session.accept source = (.ok (session.reading source).statements,
      session.read source) := by
    rw [accept_eq, herrors]
    rfl
  have hbytes : ((session.read source).perform 16 false
      (session.reading source).statements).2.machine.output.bytes =
        "local\nglobal\n".toUTF8 := by
    decide +kernel
  have hunused : Stmt.FormedAll (fun token => token.lexeme ≠ "y")
      (session.reading source).statements := by
    have htokens : ∀ token ∈ (TokenStream.ofSource source).1.body, token.lexeme ≠ "y" := by
      decide +kernel
    exact (Parsed.ofStream_new session.nextId (by decide +kernel) htokens).formed
  let names : Renaming := ⟨"x", "y", (session.read source).machine.distances⟩
  obtain ⟨statements', hrenamed⟩ : ∃ statements', Stmt.ReplacedIn (Stmt.Renamed names)
      (FunctionDecl.Renamed names) (session.reading source).statements statements' := by
    rw [hstatements]
    exact ⟨_, .head (.function (.here (.mk _ (.inl List.mem_cons_self)))) _⟩
  obtain ⟨hanalysis, hruns⟩ := local_renamed (fun _ => 0) {} _ source haccept hunused
    (by decide) hrenamed
  exact ⟨_, _, _, haccept, hrenamed, hanalysis, hbytes,
    (congrArg Output.bytes (hruns 16 false).1).trans hbytes⟩

end Lox.Session
