import Lox.Proofs.Session.Braces

/-!
# A loop can make its test in its body

In a program the test of any loop is moved into the body, which is left by `break` if
the condition does not hold.  The condition and the body are then one scope further in,
and the loop ends in another way, but the program is accepted as before and runs as it
did.  The loop may be one that is written as a `for` statement; where it is a `while`
statement, the same can be done in the source.
-/

namespace Lox

/-- In the second source, a loop that makes its test inside stands in the place of a
`while` statement of the first; all other tokens are the same, on the same lines. -/
inductive TokenStream.TestedInside (next : Nat) (source source' : String) : Prop where
  | mk {before inner after : List Token} {upper : Nat} {statements braced : List Stmt}
    (w : WhileStatement) (htokens : (ofSource source).1.body = before ++ (w.tokens ++ after))
    (haround : Grammar.DeclarationsAround w.tokens next before after upper statements braced)
    (hinner : w.Tested inner)
    (htokens' : (ofSource source').1.body = before ++ (inner ++ after))
    (hlexical : (ofSource source').2 = [])

/-- The program of the second source has the loop in the place of the first one's. -/
theorem TokenStream.TestedInside.ofSource {next : Nat} {source source' : String}
    (h : TokenStream.TestedInside next source source') :
    ∃ upper statements', Parsed.ofSource source' next = ⟨statements', [], upper⟩ ∧
      Stmt.ReplacedIn Stmt.TestsInside (fun _ _ => False)
        (Parsed.ofSource source next).statements statements' := by
  obtain @⟨_, _, _, upper, _, _, w, htokens, haround, hinner, htokens', hlexical⟩ := h
  obtain ⟨statements', hderives, hreplaced⟩ :=
    haround.substituted (Grammar.substitutes_tested hinner)
  rw [← htokens'] at hderives
  refine ⟨upper, statements', ?_, ?_⟩
  · rw [Parsed.ofSource]
    dsimp only
    rw [hlexical, Parser.ofStream_of_declarations hderives]
    rfl
  · rwa [Parser.statements_of_declarations htokens haround.plain]

namespace Session

variable {session : Session} {programs : List Program} {labels : List Region}
variable {source : String} {statements statements' : List Stmt}
variable {outcome : Outcome} {written : Output}

/-- The session in which the distances of a program have been found. -/
def analyzed (session : Session) (statements : List Stmt) : Session :=
  { session with
    machine.distances := (Analysis.ofProgram session.machine.distances statements).1 }

/-- How a program ends that is run with some fuel, and the output by then. -/
def Performs (session : Session) (statements : List Stmt) (outcome : Outcome) (output : Output) :
    Prop :=
  outcome ≠ .outOfFuel ∧
    ∃ fuel, ((session.analyzed statements).perform fuel false statements).1 = outcome ∧
      ((session.analyzed statements).perform fuel false statements).2.machine.output = output

/-- A program runs in the same way in sessions with the same machine. -/
theorem perform_congr {session session' : Session} (h : session.machine = session'.machine)
    (fuel : Nat) (echo : Bool) (statements : List Stmt) :
    (session.perform fuel echo statements).1 = (session'.perform fuel echo statements).1 ∧
      (session.perform fuel echo statements).2.machine =
        (session'.perform fuel echo statements).2.machine := by
  rw [perform, perform, h]
  split <;> exact ⟨rfl, rfl⟩

/-- A source that is accepted ends as its program does. -/
theorem ends_iff_performs (haccepted : session.rejects source = false) :
    session.Ends source outcome written ↔
      session.Performs (session.reading source).statements outcome written := by
  have herrors := rejects_eq_false_iff.1 haccepted
  have hmachine : (session.read source).machine =
      (session.analyzed (session.reading source).statements).machine := by
    rw [analyzed, Session.read]
    simp [(errors_eq_nil herrors).1, Analysis.ofProgram, Program.analysis, reading, Program.site]
  have hsame (fuel : Nat) := perform_congr hmachine fuel false (session.reading source).statements
  simp only [Ends, Performs, run_clean herrors, (hsame _).1, (hsame _).2]

/-- In a program that is accepted, loops make their tests inside.  There is nothing
wrong with the scopes then, and the program ends as it did. -/
theorem Sound.performs_tested (h : session.Sound programs labels) (hrooted : session.Rooted)
    (haccepted : session.rejects source = false)
    (hreplaced : Stmt.ReplacedIn Stmt.TestsInside (fun _ _ => False)
      (session.reading source).statements statements') :
    (Analysis.ofProgram session.machine.distances statements').2 = [] ∧
      ∀ (outcome : Outcome) (written : Output),
        session.Ends source outcome written ↔ session.Performs statements' outcome written := by
  have herrors := rejects_eq_false_iff.1 haccepted
  have haccept : session.accept source =
      (.ok (session.reading source).statements, session.read source) := by
    rw [accept_eq, herrors]
    rfl
  have hwritten (pace : Pace) (hpace : pace.PaysTests) :=
    h.written_replaced haccept hreplaced (Variant.replaces_tested hpace _)
  have hconcludes (pace : Pace) (hpace : pace.PaysTests) {fuel fuel' : Nat}
      (hfuel : pace.Enough fuel fuel') :
      (session.braced (session.read source) pace statements').Concludes
        (session.run fuel false source)
        ((session.analyzed statements').perform fuel' false statements') := by
    rw [run_clean herrors]
    exact h.concludes hrooted haccept rfl (hwritten pace hpace) rfl rfl hfuel
      (absurd · Bool.false_ne_true)
  refine ⟨(hwritten .further .further).accepted, fun outcome written => ⟨?_, ?_⟩⟩
  · rintro ⟨hended, fuel, rfl, rfl⟩
    obtain ⟨hsame, houtput⟩ | ⟨-, hfuel⟩ | ⟨hpace, -⟩ :=
      concludes_braced (hconcludes .further .further (le_refl (6 * fuel)))
    · exact ⟨hended, _, hsame.symm, houtput.symm⟩
    · exact absurd hfuel hended
    · cases hpace
  · rintro ⟨hended, fuel, rfl, rfl⟩
    obtain ⟨hsame, houtput⟩ | ⟨hpace, -⟩ | ⟨-, hfuel⟩ :=
      concludes_braced (hconcludes .back .back (le_refl fuel))
    · exact ⟨hended, _, hsame, houtput⟩
    · cases hpace
    · exact absurd hfuel hended

/-- In a session after any history, a loop in the program of an accepted source makes
its test inside: `while (C) B` becomes `while (true) { if (!(C)) break; B }`.  There is
nothing wrong with the new program.  Whenever one of the two ends, so does the other,
with the same outcome and the same output.  Where the loop is a `while` statement of the
source, the source with the new loop in its place is accepted with such a program and
ends like the first. -/
theorem loops_test_inside (clock : Nat → Float) (output : Output) (history : List Submission)
    {source : String}
    (haccepted : ((initial clock output).after history).rejects source = false) :
    let session := (initial clock output).after history
    (∀ statements' : List Stmt,
      Stmt.ReplacedIn Stmt.TestsInside (fun _ _ => False) (session.reading source).statements
        statements' →
      (Analysis.ofProgram session.machine.distances statements').2 = [] ∧
        ∀ (outcome : Outcome) (written : Output),
          session.Ends source outcome written ↔ session.Performs statements' outcome written) ∧
    ∀ source' : String, TokenStream.TestedInside session.nextId source source' →
      session.rejects source' = false ∧
        Stmt.ReplacedIn Stmt.TestsInside (fun _ _ => False) (session.reading source).statements
          (session.reading source').statements ∧
        ∀ (outcome : Outcome) (written : Output),
          session.Ends source outcome written ↔ session.Ends source' outcome written := by
  intro session
  have hsound := ((sound_initial clock output).after history).session
  have hrooted := ((rooted_initial clock output).after history).2.1
  refine ⟨fun statements' => hsound.performs_tested hrooted haccepted, fun source' htested => ?_⟩
  obtain ⟨upper, statements', hparsed, hreplaced⟩ := htested.ofSource
  obtain rfl : (session.reading source').statements = statements' := by rw [reading, hparsed]
  obtain ⟨hclean, hends⟩ := hsound.performs_tested hrooted haccepted hreplaced
  obtain ⟨_, haccept', -⟩ := accept_of_parsed hparsed hclean
  have haccepted' : session.rejects source' = false := by rw [rejects, haccept']
  refine ⟨haccepted', hreplaced, fun outcome written => ?_⟩
  rw [hends, ends_iff_performs haccepted']

/-- A loop in a function, which tests and changes the parameter; a global variable has
its name. -/
theorem loops_test_inside_in_function :
    let session := (initial (fun _ => 0) {}).after [⟨"var a = \"global\";", 8, false⟩]
    let source := "fun f(a) { while (a) { print a; a = nil; } } f(true);"
    let source' :=
      "fun f(a) { while (true) { if (!(a)) break; { print a; a = nil; } } } f(true);"
    session.rejects source = false ∧ TokenStream.TestedInside session.nextId source source' ∧
      session.rejects source' = false ∧
      ∃ written, written.bytes = "true\n".toUTF8 ∧ session.Ends source .finished written ∧
        session.Ends source' .finished written := by
  intro session source source'
  have haccepted : session.rejects source = false := by decide +kernel
  have hsymbol (symbol : Symbol) (lexeme : String) :
      (Token.mk (.symbol symbol) lexeme 1).is symbol := Grammar.is_of_kind rfl
  have hliteral (value : Literal) (lexeme : String) (next : Nat) :
      Grammar.Expression next [⟨value.kind, lexeme, 1⟩] next (.literal value) :=
    Grammar.Call.expression (.literal rfl)
  have hname (lexeme : String) (next : Nat) :
      Grammar.Call next [⟨.symbol .identifier, lexeme, 1⟩] (next + 1) (.reference next _) :=
    .reference (hsymbol .identifier lexeme)
  have hprint (next : Nat) := Grammar.Statement.print (hsymbol .printWord "print")
    (hname "a" next).expression (hsymbol .semicolon ";")
  have hassign (next : Nat) := Grammar.Statement.expression
    (.assign (hsymbol .identifier "a") (hsymbol .equal "=") (hliteral .nil "nil" (next + 1)))
    (hsymbol .semicolon ";")
  have hblock (next : Nat) := Grammar.Statement.block (hsymbol .leftBrace "\x7b")
    (.cons (.statement (hprint next)) (.cons (.statement (hassign (next + 1))) .nil))
    (hsymbol .rightBrace "\x7d")
  let w : WhileStatement := ⟨_, _, _, _,
    [⟨.symbol .leftBrace, "\x7b", 1⟩, ⟨.symbol .printWord, "print", 1⟩,
      ⟨.symbol .identifier, "a", 1⟩, ⟨.symbol .semicolon, ";", 1⟩, ⟨.symbol .identifier, "a", 1⟩,
      ⟨.symbol .equal, "=", 1⟩, ⟨.symbol .nilWord, "nil", 1⟩, ⟨.symbol .semicolon, ";", 1⟩,
      ⟨.symbol .rightBrace, "\x7d", 1⟩],
    hsymbol .whileWord "while", hsymbol .leftParen "(", ⟨_, _, _, (hname "a" 0).expression⟩,
    hsymbol .rightParen ")"⟩
  have hloop (next : Nat) : Grammar.Statement false next w.tokens _ _ :=
    .loop w.isWhile w.opens (hname "a" next).expression w.closes (hblock (next + 1))
  have hfunction (next : Nat) := Grammar.DeclarationAround.function (hsymbol .funWord "fun")
    (.mk (hsymbol .identifier "f") (hsymbol .leftParen "(")
      (.some (.last (hsymbol .identifier "a")) (by decide)) (hsymbol .rightParen ")")
      (hsymbol .leftBrace "\x7b") (.head (.statement (.here (hloop next))) .nil)
      (hsymbol .rightBrace "\x7d"))
  have hcall (next : Nat) := Grammar.Statement.expression
    (Grammar.Call.call (hname "f" next) (hsymbol .leftParen "(")
      (.some (.last (hliteral (.truth true) "true" _)) (by decide))
      (hsymbol .rightParen ")")).expression (hsymbol .semicolon ";")
  have htested : TokenStream.TestedInside session.nextId source source' :=
    .mk w
      (by simp only [source, w, WhileStatement.tokens, List.cons_append, List.nil_append]
          with_unfolding_all rfl)
      (.head (hfunction _) (.cons (.statement (hcall _)) .nil))
      (.mk (hsymbol .whileWord "while") (hsymbol .leftParen "(") (hsymbol .trueWord "true")
        (hsymbol .rightParen ")") (hsymbol .leftBrace "\x7b") (hsymbol .ifWord "if")
        (hsymbol .leftParen "(") (hsymbol .bang "!") (hsymbol .leftParen "(")
        (hsymbol .rightParen ")") (hsymbol .rightParen ")") (hsymbol .breakWord "break")
        (hsymbol .semicolon ";") (hsymbol .rightBrace "\x7d"))
      (by simp only [source', w, List.cons_append, List.nil_append]
          with_unfolding_all rfl)
      (List.isEmpty_iff.1 (by decide +kernel))
  obtain ⟨-, htests⟩ := loops_test_inside (fun _ => 0) {} _ haccepted
  obtain ⟨haccepted', -, hends⟩ := htests source' htested
  have hended : session.Ends source .finished (session.run 24 false source).2.machine.output := by
    refine ⟨by simp, 24, ?_, rfl⟩
    exact Outcome.exitStatus_eq_zero_iff.1 (by decide +kernel)
  exact ⟨haccepted, htested, haccepted', _, by decide +kernel, hended, (hends _ _).1 hended⟩

end Session

end Lox
