import Lox.Session
import Lox.Proofs.Evaluation.Moments
import Lox.Proofs.Sequencing

/-!
# The history of a session

A history is what is given to a session, one source after another, whether it
is rejected, fails or runs to its end.  The moments of a session and the
programs that it has accepted are those of the sources of its history.
-/

namespace Lox

/-- A source with the fuel for its run. -/
structure Submission where
  source : String
  fuel : Nat
  /-- Whether the values of expression statements are printed. -/
  echo : Bool

namespace Session

/-- Runs a source that is given to the session. -/
def submit (session : Session) (submission : Submission) : Outcome × Session :=
  session.run submission.fuel submission.echo submission.source

/-- The session after a history. -/
def after (session : Session) : List Submission → Session
  | [] => session
  | submission :: history => (session.submit submission).2.after history

/-- What comes of the sources of a history: how each of them ends and what has
been written by then. -/
def outcomes (session : Session) : List Submission → List (Outcome × ByteArray)
  | [] => []
  | submission :: history =>
    let (outcome, next) := session.submit submission
    (outcome, next.machine.output.bytes) :: next.outcomes history

/-- The program of a source that is accepted. -/
def program? (session : Session) (submission : Submission) : Option Program :=
  match session.accept submission.source with
  | (.ok statements, _) => some ⟨session.machine.distances, statements⟩
  | (.error _, _) => none

/-- The programs that are accepted in a history. -/
def programs (session : Session) : List Submission → List Program
  | [] => []
  | submission :: history =>
    (session.program? submission).toList ++ (session.submit submission).2.programs history

/-- The moments of the run of a source; one that is rejected has none. -/
def sourceMoments (session : Session) (submission : Submission) : List Moment :=
  match session.accept submission.source with
  | (.ok statements, accepted) =>
    runMoments submission.fuel submission.echo statements accepted.machine
  | (.error _, _) => []

/-- The moments of a history. -/
def moments (session : Session) : List Submission → List Moment
  | [] => []
  | submission :: history =>
    session.sourceMoments submission ++ (session.submit submission).2.moments history

/-- Reading a source changes nothing in the machine but the distances. -/
theorem machine_accept (session : Session) (source : String) :
    ∃ distances, (session.accept source).2.machine =
      { session.machine with distances := distances } := by
  simp only [accept]
  split
  · exact ⟨_, rfl⟩
  · exact ⟨session.machine.distances, rfl⟩

theorem perform_snd (session : Session) (fuel : Nat) (echo : Bool) (ss : List Stmt) :
    (session.perform fuel echo ss).2 =
      { session with machine := finalState (Machine.run fuel echo ss session.machine) } := by
  rw [perform]
  cases hresult : Machine.run fuel echo ss session.machine with
  | ok value after => rfl
  | error halt after => cases halt <;> rfl

section Submit

variable {session accepted : Session} {submission : Submission}

theorem submit_ok {statements : List Stmt}
    (h : session.accept submission.source = (.ok statements, accepted)) :
    session.submit submission = accepted.perform submission.fuel submission.echo statements := by
  simp only [submit, run, h]

theorem submit_error {diagnostics : List Diagnostic}
    (h : session.accept submission.source = (.error diagnostics, accepted)) :
    session.submit submission = (.rejected diagnostics, accepted) := by
  simp only [submit, run, h]

end Submit

end Session

end Lox
