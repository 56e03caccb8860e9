import Lox.Proofs.Evaluation.OwnMoments
import Lox.Proofs.Session.Braces
import Lox.Proofs.Session.Joining
import Lox.Proofs.Syntax.ByHand

/-!
# A `for` statement is what one would write by hand

In a source a `for` statement is replaced by a block with the initializer and a
`while` loop, whose body ends with the increment.  Occurrences of names in the
increment now come behind those in the body, so they are numbered in another order.
But the tree has the same shape and no number is given twice, so numbers correspond
by their places in it.  Scope analysis and the run then go the same way, step by step.
-/

namespace Lox

/-- In the second source, what is written by hand stands in the place of a `for`
statement of the first; all other tokens are the same, on whatever lines. -/
inductive TokenStream.ByHand (next : Nat) (source source' : String) : Prop where
  | mk {before after : List Token} {upper : Nat} {statements braced : List Stmt}
    (f : ForStatement) (htokens : (ofSource source).1.body = before ++ (f.tokens ++ after))
    (haround : Grammar.DeclarationsAround f.tokens next before after upper statements braced)
    (htokens' : Token.AllAlike (before ++ (f.byHand ++ after)) (ofSource source').1.body)
    (hlexical : (ofSource source').2 = [])

/-- The programs of both sources have the same shape. -/
theorem TokenStream.ByHand.ofSource {next : Nat} {source source' : String}
    (h : TokenStream.ByHand next source source') :
    ∃ upper' statements', Parsed.ofSource source' next = ⟨statements', [], upper'⟩ ∧
      List.Forall₂ (Stmt.Matches .shape) (Parsed.ofSource source next).statements statements' := by
  obtain ⟨f, htokens, haround, htokens', hlexical⟩ := h
  obtain ⟨before', _, hbody', hbefore, hbehind⟩ := Token.exists_of_append htokens'
  obtain ⟨inner', after', rfl, hinner, hafter⟩ := Token.exists_of_append hbehind
  obtain ⟨upper', statements', hderives, hmatches⟩ :=
    haround.exchanged (Grammar.exchanges_by_hand hinner) hbefore hafter next
  rw [← hbody'] at hderives
  refine ⟨upper', statements', ?_, ?_⟩
  · rw [Parsed.ofSource]
    dsimp only
    rw [hlexical, Parser.ofStream_of_declarations hderives]
    rfl
  · rwa [Parser.statements_of_declarations htokens haround.plain]

/-- Programs that end in the same way do so however their lines correspond. -/
theorem Outcome.Matches.shape {c : Correspondence} {outcome outcome' : Outcome}
    (h : outcome.Matches c outcome') : outcome.Matches .shape outcome' := by
  cases h with
  | finished => exact .finished
  | error _ cause => exact .error trivial cause
  | outputClosed => exact .outputClosed
  | outOfFuel => exact .outOfFuel

namespace Session

open Machine

variable {session : Session} {programs : List Program} {labels : List Region}
variable {source source' : String}

/-- The correspondence between the numbers of two sources that are read in a session. -/
abbrev renumbered (session : Session) (source source' : String) : Correspondence :=
  .paired (session.reading source).ids (session.reading source').ids session.nextId

theorem renumbered_unique (session : Session) (source source' : String) :
    (session.renumbered source source').Unique :=
  Correspondence.paired_unique (Parsed.ofSource_new source session.nextId).numbers.distinct
    (Parsed.ofSource_new source' session.nextId).numbers.distinct
    (fun id hid => (session.ids_reading source id hid).1)
    fun id hid => (session.ids_reading source' id hid).1

/-- What has been found about earlier numbers matches. -/
theorem Fresh.distances_renumbered (h : session.Fresh) (source source' : String) :
    Distances.Match (session.renumbered source source') session.machine.distances
      session.machine.distances := by
  rintro id id' (hmem | ⟨rfl, -⟩)
  · rw [h id (session.ids_reading source id (List.of_mem_zip hmem).1).1,
      h id' (session.ids_reading source' id' (List.of_mem_zip hmem).2).1]
  · rfl

/-- A source is accepted like one whose program has the same shape, and they run in
the same way. -/
theorem Sound.same_shape (h : session.Sound programs labels)
    (haccepted : session.rejects source = false) {statements' : List Stmt} {upper' : Nat}
    (hparsed : Parsed.ofSource source' session.nextId = ⟨statements', [], upper'⟩)
    (hshape : List.Forall₂ (Stmt.Matches .shape) (session.reading source).statements statements') :
    session.rejects source' = false ∧
      List.Forall₂ (Stmt.Matches (session.renumbered source source'))
        (session.reading source).statements (session.reading source').statements ∧
      ∀ (fuel : Nat) (echo : Bool),
        (session.run fuel echo source).1.Matches (session.renumbered source source')
            (session.run fuel echo source').1 ∧
          (session.run fuel echo source).2.machine.output =
            (session.run fuel echo source').2.machine.output := by
  have herrors := rejects_eq_false_iff.1 haccepted
  obtain rfl : (session.reading source').statements = statements' := by rw [reading, hparsed]
  have hmatches := Stmt.matchesAll_paired hshape session.nextId
  have hanalysis : (session.reading source).analysis.Matches (session.renumbered source source')
      (session.reading source').analysis :=
    Stmt.analyzeAll_matches (session.renumbered_unique source source') {} _ hmatches
      ⟨rfl, h.fresh.distances_renumbered source source', .nil⟩
  have herrors' : session.errors source' = [] := by
    have hlength := hanalysis.diagnostics.length_eq
    rw [(errors_eq_nil herrors).2] at hlength
    rw [errors, hparsed]
    exact List.length_eq_zero_iff.1 hlength.symm
  refine ⟨rejects_eq_false_iff.2 herrors', hmatches, fun fuel echo => ?_⟩
  have hstore : session.machine.store.Matches (session.renumbered source source')
      session.machine.store := by
    apply h.healthy.matches_self fun _ => trivial
    exact fun program hprogram id hid => .inr ⟨rfl, h.numbered program hprogram id hid⟩
  have hmachine : (session.read source).machine.Matches (session.renumbered source source')
      (session.read source').machine := by
    refine ⟨hstore, rfl, rfl, ?_, rfl, rfl, rfl⟩
    rw [distances_read_clean herrors, distances_read_clean herrors']
    exact hanalysis.distances
  rw [run_clean herrors, run_clean herrors']
  obtain ⟨houtcome, hafter⟩ := perform_matches hmachine trivial fuel echo hmatches
  exact ⟨houtcome, hafter.output⟩

/-- In a session after any history, a `for` statement of an accepted source is replaced
by what one would write by hand.  The new source is accepted, and its program is the
same up to the numbers of name occurrences, which correspond to each other one to
one.  With any fuel it writes the same output and ends in the same way, line numbers
aside.  All functions that one loop makes find its variable in the one frame that is
made for it, and a round that leaves the loop does not evaluate the increment. -/
theorem for_by_hand (clock : Nat → Float) (output : Output) (history : List Submission)
    {source source' : String}
    (haccepted : ((initial clock output).after history).rejects source = false)
    (hbyhand : TokenStream.ByHand ((initial clock output).after history).nextId source source') :
    let session := (initial clock output).after history
    session.rejects source' = false ∧
      (session.renumbered source source').Unique ∧
      List.Forall₂ (Stmt.Matches (session.renumbered source source'))
        (session.reading source).statements (session.reading source').statements ∧
      (∀ (fuel : Nat) (echo : Bool),
        (session.run fuel echo source).1.Matches .shape (session.run fuel echo source').1 ∧
          (session.run fuel echo source).2.machine.output =
            (session.run fuel echo source').2.machine.output) ∧
      (∀ (fuel : Nat) (name : Token) (initializer condition increment : Option Expr)
        (body : Stmt) (machine : Machine) (moment : Moment) (closure : Closure),
        moment ∈ ownMoments fuel
            (.stmt (.forLoop (some (.declare name initializer)) condition increment body)) machine →
          moment.Makes closure →
            closure.Finds moment.machine.store.frames name.lexeme machine.store.frames.size) ∧
      ∀ (fuel : Nat) (condition : Option Expr) (increment : Expr) (body : Stmt)
        (machine tested inside ended : Machine) (value : Value) (frame : FrameId) (line : Nat),
        evaluate (fuel + 2) (.forCondition condition) machine = .ok value tested →
          value.isTruthy → enterBlock tested = .ok frame inside →
            execute fuel body { inside with current := frame } = .ok (.left line) ended →
              execute (fuel + 4) (.forLoop none condition (some increment) body) machine =
                .ok .normal { ended with current := inside.current } := by
  intro session
  have hsound := ((sound_initial clock output).after history).session
  obtain ⟨_, _, hparsed, hshape⟩ := hbyhand.ofSource
  obtain ⟨haccepted', hmatches, hruns⟩ := hsound.same_shape haccepted hparsed hshape
  refine ⟨haccepted', session.renumbered_unique source source', hmatches, fun fuel echo => ?_,
    fun _ _ _ _ _ _ _ _ _ => finds_forLoop, fun _ _ _ _ _ _ _ _ _ _ _ => loop_left⟩
  exact ⟨(hruns fuel echo).1.shape, (hruns fuel echo).2⟩

/-- A loop that is the first part of a condition with an `else`. -/
theorem for_by_hand_in_branch :
    let session := initial (fun _ => 0) {}
    let source := "if (true) for (var a = true; a; a = false) print a; else print nil;"
    let source' :=
      "if (true) { var a = true; while (a) { print a; a = false; } } else print nil;"
    session.rejects source = false ∧ TokenStream.ByHand session.nextId source source' ∧
      session.rejects source' = false ∧
      (∀ (fuel : Nat) (echo : Bool),
        (session.run fuel echo source).1.Matches .shape (session.run fuel echo source').1 ∧
          (session.run fuel echo source).2.machine.output =
            (session.run fuel echo source').2.machine.output) ∧
      (session.run 16 false source').2.machine.output.bytes = "true\n".toUTF8 := by
  intro session source source'
  have haccepted : session.rejects source = false := by decide +kernel
  have hsymbol (symbol : Symbol) (lexeme : String) :
      (Token.mk (.symbol symbol) lexeme 1).is symbol := Grammar.is_of_kind rfl
  have hliteral (value : Literal) (lexeme : String) (next : Nat) :
      Grammar.Expression next [⟨value.kind, lexeme, 1⟩] next (.literal value) :=
    Grammar.Call.expression (.literal rfl)
  have hname (next : Nat) : Grammar.Expression next [⟨.symbol .identifier, "a", 1⟩] (next + 1)
      (.reference next _) :=
    Grammar.Call.expression (.reference (hsymbol .identifier "a"))
  have hstart := Grammar.ForInitializer.variableDecl (hsymbol .varWord "var")
    (.initialized (hsymbol .identifier "a") (hsymbol .equal "=") (hliteral (.truth true) "true" 0)
      (hsymbol .semicolon ";"))
  have hstep := Grammar.Expression.assign (hsymbol .identifier "a") (hsymbol .equal "=")
    (hliteral (.truth false) "false" 2)
  have hbody := Grammar.Statement.print (hsymbol .printWord "print") (hname 3)
    (hsymbol .semicolon ";")
  let f : ForStatement := ⟨_, _, _, _, _, _, _,
    [⟨.symbol .printWord, "print", 1⟩, ⟨.symbol .identifier, "a", 1⟩, ⟨.symbol .semicolon, ";", 1⟩],
    hsymbol .forWord "for", hsymbol .leftParen "(", ⟨_, _, _, hstart⟩,
    ⟨_, _, _, .some (hname 0)⟩, hsymbol .semicolon ";", ⟨_, _, _, .some hstep⟩,
    hsymbol .rightParen ")"⟩
  have hfor : Grammar.Statement false 0 f.tokens 4 _ :=
    .forLoop f.isFor f.opens hstart (.some (hname 0)) f.separates (.some hstep) f.closes hbody
  have hprint := Grammar.Statement.print (hsymbol .printWord "print") (hliteral .nil "nil" 4)
    (hsymbol .semicolon ";")
  have hbranch := Grammar.StatementAround.branchThen (hsymbol .ifWord "if")
    (hsymbol .leftParen "(") (hliteral (.truth true) "true" 0) (hsymbol .rightParen ")")
    (.here hfor) (hsymbol .elseWord "else") hprint
  have hbyhand : TokenStream.ByHand session.nextId source source' :=
    .mk f
      (by simp only [source, f, ForStatement.tokens, List.cons_append, List.nil_append,
            Literal.kind]
          with_unfolding_all rfl)
      (.head (.statement hbranch) .nil)
      (Token.allAlike_of_map <| by
        simp only [source', f, ForStatement.byHand, ForStatement.loop, ForStatement.round,
          List.cons_append, List.nil_append, Literal.kind]
        with_unfolding_all rfl)
      (List.isEmpty_iff.1 (by decide +kernel))
  obtain ⟨haccepted', -, -, hruns, -, -⟩ := for_by_hand (fun _ => 0) {} [] haccepted hbyhand
  have hwritten := congrArg Output.bytes (hruns 16 false).2
  exact ⟨haccepted, hbyhand, haccepted', hruns, hwritten.symm.trans (by decide +kernel)⟩

end Session

end Lox
