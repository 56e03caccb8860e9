import Lox.Proofs.Session.Joining
import Lox.Proofs.Session.Variants
import Lox.Proofs.Variant.Braces

/-!
# Adding braces changes nothing

Braces are put around a statement of a source, at any depth.  The source is
accepted as it was, with a block around that statement in its program, and runs as
it did, although the block has a frame of its own.
-/

namespace Lox

/-- The second source is the first with braces around the tokens `inner` of a
statement; all other tokens are the same, on the same lines.  The programs are
those of the two sources. -/
inductive TokenStream.Braced (next : Nat) (source source' : String) :
    List Stmt → List Stmt → Prop where
  | mk {before inner after : List Token} {opening closing : Token} {upper : Nat}
    {statements statements' : List Stmt}
    (htokens : (ofSource source).1.body = before ++ (inner ++ after))
    (haround : Grammar.DeclarationsAround inner next before after upper statements statements')
    (hopening : opening.is .leftBrace) (hclosing : closing.is .rightBrace)
    (htokens' : (ofSource source').1.body = before ++ opening :: (inner ++ closing :: after))
    (hlexical : (ofSource source').2 = []) :
    Braced next source source' statements statements'

variable {source source' : String} {statements statements' : List Stmt}

section Source

variable {next : Nat} (h : TokenStream.Braced next source source' statements statements')

include h

theorem TokenStream.Braced.statements_plain :
    (Parsed.ofSource source next).statements = statements := by
  obtain ⟨htokens, haround, -, -, -, -⟩ := h
  exact Parser.statements_of_declarations htokens haround.plain

theorem TokenStream.Braced.ofSource_braced :
    ∃ upper, Parsed.ofSource source' next = ⟨statements', [], upper⟩ := by
  obtain @⟨_, _, _, _, _, upper, _, _, -, haround, hopening, hclosing, htokens', hlexical⟩ := h
  have hderives := haround.braced hopening hclosing
  rw [← htokens'] at hderives
  refine ⟨upper, ?_⟩
  rw [Parsed.ofSource]
  dsimp only
  rw [hlexical, Parser.ofStream_of_declarations hderives]
  rfl

theorem TokenStream.Braced.replaced :
    Stmt.ReplacedIn Stmt.Braced (fun _ _ => False) statements statements' := by
  obtain ⟨-, haround, -, -, -, -⟩ := h
  exact haround.replaced

end Source

namespace Session

variable {session accepted : Session} {programs : List Program} {labels : List Region}

/-- A source without syntax errors, whose program has no scope errors, is accepted. -/
theorem accept_of_parsed {upper : Nat}
    (hparsed : Parsed.ofSource source session.nextId = ⟨statements, [], upper⟩)
    (hclean : (Analysis.ofProgram session.machine.distances statements).2 = []) :
    ∃ accepted : Session, session.accept source = (.ok statements, accepted) ∧
      accepted.machine = { session.machine with
        distances := (Analysis.ofProgram session.machine.distances statements).1 } := by
  rw [accept, hparsed]
  simp [hclean]

/-- The program of a source and what has become of it, where the runs are compared at
a pace. -/
abbrev braced (session accepted : Session) (pace : Pace) (statements' : List Stmt) : Variant where
  naming := .same
  pace := pace
  distances := accepted.machine.distances
  distances' := (Analysis.ofProgram session.machine.distances statements').1

/-- A part of a program that is accepted is replaced by a variant of it. -/
theorem Sound.written_replaced (h : session.Sound programs labels)
    (haccept : session.accept source = (.ok statements, accepted))
    {parts : Stmt → Stmt → Prop} {functions : FunctionDecl → FunctionDecl → Prop}
    (hreplaced : Stmt.ReplacedIn parts functions statements statements') {pace : Pace}
    (hreplaces : (session.braced accepted pace statements').written.Replaces (fun _ => True) parts
      functions) :
    (session.braced accepted pace statements').Written session.machine.distances statements
      statements' := by
  have hformed : Stmt.FormedAll (fun _ => True) statements := by
    obtain ⟨-, rfl, -⟩ := accept_ok haccept
    exact (Parsed.ofStream_new session.nextId trivial fun _ _ => trivial).formed
  exact h.written haccept rfl hformed
    (hreplaced.vary hreplaces hformed (accept_clean haccept))

theorem Sound.written_braced (h : session.Sound programs labels)
    (haccept : session.accept source = (.ok statements, accepted))
    (hreplaced : Stmt.ReplacedIn Stmt.Braced (fun _ _ => False) statements statements')
    {pace : Pace} (hpace : pace ≠ .same) :
    (session.braced accepted pace statements').Written session.machine.distances statements
      statements' :=
  h.written_replaced haccept hreplaced (Variant.replaces_braced hpace _)

theorem concludes_braced {pace : Pace} {run run' : Outcome × Session}
    (h : (session.braced accepted pace statements').Concludes run run') :
    (run.1 = run'.1 ∧ run.2.machine.output = run'.2.machine.output) ∨
      (pace.Leads ∧ run.1 = .outOfFuel) ∨ (pace = .back ∧ run'.1 = .outOfFuel) := by
  cases h with
  | ended houtcome houtput => exact .inl ⟨Outcome.Varies.eq houtcome, houtput⟩
  | behind hpace => exact .inr (.inl ⟨hpace, rfl⟩)
  | ahead hpace => exact .inr (.inr ⟨hpace, rfl⟩)

/-- How a source ends that is run with some fuel, and the output by then. -/
def Ends (session : Session) (source : String) (outcome : Outcome) (output : Output) : Prop :=
  outcome ≠ .outOfFuel ∧ ∃ fuel, (session.run fuel false source).1 = outcome ∧
    (session.run fuel false source).2.machine.output = output

/-- In a session after any history, braces are put around a statement of an accepted
source.  The new source is accepted with the block of that statement in its program.
Whenever one of the two ends, so does the other, with the same outcome and the same
output. -/
theorem braces_inert (clock : Nat → Float) (output : Output) (history : List Submission)
    {source source' : String} {statements statements' : List Stmt}
    (haccepted : ((initial clock output).after history).rejects source = false)
    (hbraced : TokenStream.Braced ((initial clock output).after history).nextId source source'
      statements statements') :
    let session := (initial clock output).after history
    (∃ accepted, session.accept source = (.ok statements, accepted)) ∧
      (∃ accepted', session.accept source' = (.ok statements', accepted')) ∧
      Stmt.ReplacedIn Stmt.Braced (fun _ _ => False) statements statements' ∧
      ∀ (outcome : Outcome) (written : Output),
        session.Ends source outcome written ↔ session.Ends source' outcome written := by
  intro session
  have hsound := ((sound_initial clock output).after history).session
  have hrooted := ((rooted_initial clock output).after history).2.1
  have hreplaced := hbraced.replaced
  have haccept : session.accept source = (.ok statements, session.read source) := by
    rw [accept_eq, rejects_eq_false_iff.1 haccepted, reading, hbraced.statements_plain]
    rfl
  have hwritten (pace : Pace) (hpace : pace ≠ .same) :=
    hsound.written_braced haccept hreplaced hpace
  obtain ⟨upper, hparsed⟩ := hbraced.ofSource_braced
  obtain ⟨accepted', haccept', hmachine'⟩ :=
    accept_of_parsed hparsed (hwritten .forth (by decide)).accepted
  have hconcludes (pace : Pace) (hpace : pace ≠ .same) {fuel fuel' : Nat}
      (hfuel : pace.Enough fuel fuel') :
      (session.braced (session.read source) pace statements').Concludes
        (session.run fuel false source) (session.run fuel' false source') := by
    rw [run, haccept, run, haccept']
    exact hsound.concludes hrooted haccept rfl (hwritten pace hpace) rfl hmachine' hfuel
      (absurd · Bool.false_ne_true)
  refine ⟨⟨_, haccept⟩, ⟨accepted', haccept'⟩, hreplaced, fun outcome written => ⟨?_, ?_⟩⟩
  · rintro ⟨hended, fuel, rfl, rfl⟩
    obtain ⟨hsame, houtput⟩ | ⟨-, hfuel⟩ | ⟨hpace, -⟩ :=
      concludes_braced (hconcludes .forth (by decide) (le_refl (3 * fuel)))
    · exact ⟨hended, _, hsame.symm, houtput.symm⟩
    · exact absurd hfuel hended
    · cases hpace
  · rintro ⟨hended, fuel, rfl, rfl⟩
    obtain ⟨hsame, houtput⟩ | ⟨hpace, -⟩ | ⟨-, hfuel⟩ :=
      concludes_braced (hconcludes .back (by decide) (le_refl fuel))
    · exact ⟨hended, _, hsame, houtput⟩
    · cases hpace
    · exact absurd hfuel hended

/-- The body of a loop in a function, which gives back the parameter; a global
variable has its name. -/
theorem braces_inert_in_function :
    let session := (initial (fun _ => 0) {}).after [⟨"var b = \"global\";", 8, false⟩]
    let source := "fun f(b) { while (true) return b; } print f(\"local\");"
    let source' := "fun f(b) { while (true) { return b; } } print f(\"local\");"
    session.rejects source = false ∧
      (∃ statements statements',
        TokenStream.Braced session.nextId source source' statements statements') ∧
      ∃ written, written.bytes = "local\n".toUTF8 ∧ session.Ends source .finished written ∧
        session.Ends source' .finished written := by
  intro session source source'
  have haccepted : session.rejects source = false := by decide +kernel
  have hsymbol (symbol : Symbol) (lexeme : String) :
      (Token.mk (.symbol symbol) lexeme 1).is symbol := Grammar.is_of_kind rfl
  have hliteral (value : Literal) (lexeme : String) (next : Nat) :
      Grammar.Call next [⟨value.kind, lexeme, 1⟩] next (.literal value) :=
    .literal rfl
  have hname (lexeme : String) (next : Nat) :
      Grammar.Call next [⟨.symbol .identifier, lexeme, 1⟩] (next + 1) (.reference next _) :=
    .reference (hsymbol .identifier lexeme)
  have hgiveBack := Grammar.Statement.giveBack (hsymbol .returnWord "return")
    (.some (hname "b" session.nextId).expression) (hsymbol .semicolon ";")
  have hloop := Grammar.StatementAround.loop (hsymbol .whileWord "while") (hsymbol .leftParen "(")
    (hliteral (.truth true) "true" _).expression (hsymbol .rightParen ")") (.here hgiveBack)
  have hfunction := Grammar.DeclarationAround.function (hsymbol .funWord "fun")
    (.mk (hsymbol .identifier "f") (hsymbol .leftParen "(")
      (.some (.last (hsymbol .identifier "b")) (by decide)) (hsymbol .rightParen ")")
      (hsymbol .leftBrace "\x7b") (.head (.statement hloop) .nil) (hsymbol .rightBrace "\x7d"))
  have hprint := Grammar.Statement.print (hsymbol .printWord "print")
    (Grammar.Call.call (hname "f" (session.nextId + 1)) (hsymbol .leftParen "(")
      (.some (.last (hliteral (.text "local") "\"local\"" _).expression) (by decide))
      (hsymbol .rightParen ")")).expression (hsymbol .semicolon ";")
  have hbraced : TokenStream.Braced session.nextId source source' _ _ :=
    .mk (by simp only [source, List.cons_append, List.nil_append, Literal.kind]
            with_unfolding_all rfl)
      (.head hfunction (.cons (.statement hprint) .nil)) (hsymbol .leftBrace "\x7b")
      (hsymbol .rightBrace "\x7d")
      (by simp only [source', List.cons_append, List.nil_append, Literal.kind]
          with_unfolding_all rfl)
      (List.isEmpty_iff.1 (by decide +kernel))
  obtain ⟨-, -, -, hends⟩ := braces_inert (fun _ => 0) {} _ haccepted hbraced
  have hended : session.Ends source .finished (session.run 16 false source).2.machine.output := by
    refine ⟨by simp, 16, ?_, rfl⟩
    exact Outcome.exitStatus_eq_zero_iff.1 (by decide +kernel)
  exact ⟨haccepted, ⟨_, _, hbraced⟩, _, by decide +kernel, hended, (hends _ _).1 hended⟩

end Session

end Lox
