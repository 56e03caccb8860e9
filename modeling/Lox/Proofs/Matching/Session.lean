import Lox.Proofs.Matching.Evaluation
import Lox.Proofs.Matching.Reading.Statement
import Lox.Proofs.Matching.Reflexive
import Lox.Proofs.Session.Acceptance

/-!
# Matching sessions

Two sessions match if their machines do and the numbers that are free in them
correspond to each other in their order.  Whatever source is given to both, it
is rejected with the same errors or its runs end in the same way, and the
sessions match again.  So no history tells them apart.
-/

namespace Lox

/-- The lines of both texts are the same, the numbers below `next` are those of
both, and the numbers from `next` on correspond to those from `next'` on. -/
def Correspondence.shift (next next' : Nat) : Correspondence where
  ids id id' := id < next ∧ id = id' ∨ ∃ count, id = next + count ∧ id' = next' + count
  lines := Eq

namespace Correspondence

variable {next next' : Nat}

theorem shift_free (count : Nat) : (shift next next').ids (next + count) (next' + count) :=
  .inr ⟨count, rfl, rfl⟩

theorem shift_unique (h : next ≤ next') : (shift next next').Unique := by
  rintro i i' j j' (⟨hi, rfl⟩ | ⟨m, rfl, rfl⟩) (⟨hj, rfl⟩ | ⟨n, rfl, rfl⟩) <;> omega

end Correspondence

section SameLines

variable {c : Correspondence}

theorem Token.Matches.eq {token token' : Token} (hlines : c.lines = Eq)
    (h : token.Matches c token') : token = token' := by
  obtain ⟨kind, lexeme, line⟩ := token
  obtain ⟨hkind, hlexeme, hline⟩ := h
  rw [hlines] at hline
  subst hkind hlexeme hline
  rfl

theorem Diagnostic.Matches.eq {diagnostic diagnostic' : Diagnostic} (hlines : c.lines = Eq)
    (h : diagnostic.Matches c diagnostic') : diagnostic = diagnostic' := by
  cases h with
  | lexical error hline =>
      rw [hlines] at hline
      rw [hline]
  | syntactic error htoken => rw [htoken.eq hlines]
  | scoping error htoken => rw [htoken.eq hlines]

theorem Diagnostic.eq_of_matches {diagnostics diagnostics' : List Diagnostic}
    (hlines : c.lines = Eq) (h : List.Forall₂ (Diagnostic.Matches c) diagnostics diagnostics') :
    diagnostics = diagnostics' := by
  have hsame : List.Forall₂ Eq diagnostics diagnostics' := h.imp fun _ _ => Matches.eq hlines
  rwa [List.forall₂_eq_eq_eq] at hsame

end SameLines

/-! ## Reading -/

/-- The programs match, and as many numbers have been handed out since `next` as
since `next'`. -/
structure Parsed.Matches (c : Correspondence) (next next' : Nat) (parsed parsed' : Parsed) :
    Prop where
  statements : List.Forall₂ (Stmt.Matches c) parsed.statements parsed'.statements
  diagnostics : List.Forall₂ (Diagnostic.Matches c) parsed.diagnostics parsed'.diagnostics
  numbers : ∃ count, parsed.nextId = next + count ∧ parsed'.nextId = next' + count

namespace Parsed

variable {c : Correspondence} {next next' : Nat}

theorem ofStream_matches (hids : ∀ count, c.ids (next + count) (next' + count))
    {stream stream' : TokenStream} (h : stream.Matches c stream') :
    (ofStream stream next).Matches c next next' (ofStream stream' next') := by
  have hstart : Parser.State.Matches c next next' ⟨stream.body, stream.ending, next, #[]⟩
      ⟨stream'.body, stream'.ending, next', #[]⟩ := ⟨h.body, h.ending, ⟨0, rfl, rfl⟩, .nil⟩
  have hfuel : fuel stream = fuel stream' := by rw [fuel, h.body.length_eq, fuel]
  have hprogram := Parser.program_inStep hids (fuel stream) _ _ hstart
  simp only [ofStream, ← hfuel]
  generalize Parser.program (fuel stream) ⟨_, _, next, _⟩ = result at hprogram ⊢
  generalize Parser.program (fuel stream) ⟨_, _, next', _⟩ = result' at hprogram ⊢
  cases hprogram with
  | ok hstatements hstate => exact ⟨hstatements, hstate.diagnostics, hstate.numbers⟩
  | error _ hstate => exact ⟨.nil, hstate.diagnostics, hstate.numbers⟩

theorem ofSource_matches (hlines : ∀ line, c.lines line line)
    (hids : ∀ count, c.ids (next + count) (next' + count)) (source : String) :
    (ofSource source next).Matches c next next' (ofSource source next') := by
  have hstream := ofStream_matches hids ((TokenStream.ofSource source).1.matches_self hlines)
  have hlexical : List.Forall₂ (Diagnostic.Matches c) (TokenStream.ofSource source).2
      (TokenStream.ofSource source).2 :=
    List.forall₂_same.2 fun diagnostic _ => diagnostic.matches_self hlines
  exact ⟨hstream.statements, List.rel_append hlexical hstream.diagnostics, hstream.numbers⟩

end Parsed

/-! ## Sessions -/

/-- Two programs end in the same way, at corresponding lines. -/
inductive Outcome.Matches (c : Correspondence) : Outcome → Outcome → Prop where
  | finished : Matches c .finished .finished
  | error {line line' : Nat} (hline : c.lines line line') (cause : RuntimeError) :
    Matches c (.failed (.error line cause)) (.failed (.error line' cause))
  | outputClosed : Matches c (.failed .outputClosed) (.failed .outputClosed)
  | outOfFuel : Matches c .outOfFuel .outOfFuel

theorem Outcome.Matches.eq {c : Correspondence} {outcome outcome' : Outcome}
    (hlines : c.lines = Eq) (h : outcome.Matches c outcome') : outcome = outcome' := by
  cases h with
  | error hline cause =>
      rw [hlines] at hline
      rw [hline]
  | finished | outputClosed | outOfFuel => rfl

/-- The machines match and the free numbers correspond to each other. -/
structure Session.Matches (c : Correspondence) (session session' : Session) : Prop where
  machine : session.machine.Matches c session'.machine
  free (count : Nat) : c.ids (session.nextId + count) (session'.nextId + count)

namespace Session

variable {c : Correspondence} {session session' : Session}

theorem Matches.parsed (h : session.Matches c session') (hlines : c.lines = Eq)
    (source : String) :
    (Parsed.ofSource source session.nextId).Matches c session.nextId session'.nextId
      (Parsed.ofSource source session'.nextId) :=
  Parsed.ofSource_matches (fun _ => hlines ▸ rfl) h.free source

theorem Matches.analysis (h : session.Matches c session') (hlines : c.lines = Eq)
    (hunique : c.Unique) (source : String) :
    (session.reading source).analysis.Matches c (session'.reading source).analysis :=
  Stmt.analyzeAll_matches hunique {} _ (h.parsed hlines source).statements
    ⟨rfl, h.machine.distances, .nil⟩

/-- A source has the same errors in matching sessions. -/
theorem Matches.errors (h : session.Matches c session') (hlines : c.lines = Eq)
    (hunique : c.Unique) (source : String) : session.errors source = session'.errors source := by
  have hanalysis := h.analysis hlines hunique source
  have hdiagnostics := Diagnostic.eq_of_matches hlines (h.parsed hlines source).diagnostics
  unfold Session.errors
  dsimp only
  rw [hdiagnostics]
  split
  · exact Diagnostic.eq_of_matches hlines hanalysis.diagnostics
  · rfl

theorem Matches.read (h : session.Matches c session') (hlines : c.lines = Eq)
    (hunique : c.Unique) (source : String) :
    (session.read source).Matches c (session'.read source) := by
  have hanalysis := h.analysis hlines hunique source
  have hparsed := h.parsed hlines source
  have hdiagnostics := Diagnostic.eq_of_matches hlines hparsed.diagnostics
  have hmachine := h.machine
  obtain ⟨used, hused, hused'⟩ := hparsed.numbers
  refine ⟨⟨hmachine.store, hmachine.globals, hmachine.current, ?_, hmachine.output,
    hmachine.clock, hmachine.readings⟩, fun count => ?_⟩
  · unfold Session.read
    dsimp only
    rw [hdiagnostics]
    split
    · exact hanalysis.distances
    · exact hmachine.distances
  · have hfree := h.free (used + count)
    unfold Session.read
    dsimp only
    rw [hused, hused', Nat.add_assoc, Nat.add_assoc]
    exact hfree

/-- Matching programs end in the same way if the machines they are run on match. -/
theorem perform_matches (h : session.machine.Matches c session'.machine)
    (hnowhere : c.lines 0 0) (fuel : Nat) (echo : Bool) {ss ss' : List Stmt}
    (hss : List.Forall₂ (Stmt.Matches c) ss ss') :
    (session.perform fuel echo ss).1.Matches c (session'.perform fuel echo ss').1 ∧
      (session.perform fuel echo ss).2.machine.Matches c
        (session'.perform fuel echo ss').2.machine := by
  have hrun := Machine.run_matches hnowhere fuel echo hss _ _ h
  simp only [Session.perform]
  generalize Machine.run fuel echo ss session.machine = result at hrun ⊢
  generalize Machine.run fuel echo ss' session'.machine = result' at hrun ⊢
  cases hrun with
  | ok _ hmachine => exact ⟨.finished, hmachine⟩
  | error hhalt hmachine =>
      cases hhalt with
      | error hline cause => exact ⟨.error hline cause, hmachine⟩
      | outputClosed => exact ⟨.outputClosed, hmachine⟩
      | outOfFuel => exact ⟨.outOfFuel, hmachine⟩

/-- Matching programs that are run in matching sessions end in the same way. -/
theorem Matches.perform (h : session.Matches c session') (hnowhere : c.lines 0 0) (fuel : Nat)
    (echo : Bool) {ss ss' : List Stmt} (hss : List.Forall₂ (Stmt.Matches c) ss ss') :
    (session.perform fuel echo ss).1.Matches c (session'.perform fuel echo ss').1 ∧
      (session.perform fuel echo ss).2.Matches c (session'.perform fuel echo ss').2 := by
  obtain ⟨houtcome, hmachine⟩ := perform_matches h.machine hnowhere fuel echo hss
  refine ⟨houtcome, hmachine, fun count => ?_⟩
  rw [perform_snd, perform_snd]
  exact h.free count

theorem Matches.submit (h : session.Matches c session') (hlines : c.lines = Eq)
    (hunique : c.Unique) (submission : Submission) :
    (session.submit submission).1 = (session'.submit submission).1 ∧
      (session.submit submission).2.Matches c (session'.submit submission).2 := by
  have hread := h.read hlines hunique submission.source
  have hstatements := (h.parsed hlines submission.source).statements
  have herrors := h.errors hlines hunique submission.source
  have haccept := session.accept_eq submission.source
  have haccept' := session'.accept_eq submission.source
  rw [herrors] at haccept
  cases hfound : session'.errors submission.source with
  | nil =>
      simp only [hfound, List.isEmpty_nil, if_true] at haccept haccept'
      rw [submit_ok haccept, submit_ok haccept']
      obtain ⟨houtcome, hnext⟩ :=
        hread.perform (hlines ▸ rfl) submission.fuel submission.echo hstatements
      exact ⟨houtcome.eq hlines, hnext⟩
  | cons error errors =>
      simp only [hfound, List.isEmpty_cons] at haccept haccept'
      rw [submit_error haccept, submit_error haccept']
      exact ⟨rfl, hread⟩

/-- No history tells matching sessions apart. -/
theorem Matches.outcomes (h : session.Matches c session') (hlines : c.lines = Eq)
    (hunique : c.Unique) (history : List Submission) :
    session.outcomes history = session'.outcomes history := by
  induction history generalizing session session' with
  | nil => rfl
  | cons submission history ih =>
      obtain ⟨houtcome, hnext⟩ := h.submit hlines hunique submission
      simp only [Session.outcomes, houtcome, hnext.machine.output, ih hnext]

end Session

end Lox
