import Lox.Evaluation
import Lox.Scope.Analysis
import Lox.Syntax.Parser

/-!
# Sessions

A session runs one source after another on the same machine, so that a later
source can use what an earlier one has declared.  A source with an error in its
text is rejected before any of it runs.
-/

namespace Lox

structure Session where
  machine : Machine
  /-- The number of the next occurrence of a name; numbers are never used
  again, since functions of earlier sources still hold them. -/
  nextId : Nat

/-- How the run of a source ends. -/
inductive Outcome where
  | finished
  | rejected (diagnostics : List Diagnostic)
  | failed (failure : Failure)
  | outOfFuel

namespace Outcome

/-- What is reported of a run that did not finish. -/
def report? : Outcome → Option String
  | finished => none
  | rejected diagnostics => some ("\n".intercalate (diagnostics.map Diagnostic.display))
  | failed failure => some failure.display
  | outOfFuel => some "Out of fuel."

/-- The exit status of a rejected program. -/
def rejectedStatus : Nat := 65

/-- The exit status of a program that stopped at an error. -/
def failedStatus : Nat := 70

def exitStatus : Outcome → Nat
  | finished => 0
  | rejected _ => rejectedStatus
  | failed _ => failedStatus
  | outOfFuel => failedStatus

end Outcome

namespace Session

def initial (clock : Nat → Float) (output : Output) : Session where
  machine := .initial clock output
  nextId := 0

/-- Reads a source.  Scope analysis is for programs without errors only, and
the distances that it finds are kept whether or not it finds errors. -/
def accept (session : Session) (source : String) :
    Except (List Diagnostic) (List Stmt) × Session :=
  let parsed := Parsed.ofSource source session.nextId
  if parsed.diagnostics.isEmpty then
    let (distances, diagnostics) :=
      Analysis.ofProgram session.machine.distances parsed.statements
    (if diagnostics.isEmpty then .ok parsed.statements else .error diagnostics,
      ⟨{ session.machine with distances := distances }, parsed.nextId⟩)
  else (.error parsed.diagnostics, { session with nextId := parsed.nextId })

/-- Runs a program that has been accepted. -/
def perform (session : Session) (fuel : Nat) (echo : Bool) (statements : List Stmt) :
    Outcome × Session :=
  match Machine.run fuel echo statements session.machine with
  | .ok _ machine => (.finished, { session with machine := machine })
  | .error (.failed failure) machine => (.failed failure, { session with machine := machine })
  | .error .outOfFuel machine => (.outOfFuel, { session with machine := machine })

/-- Runs a source; if `echo` is set, the values of expression statements that
are not part of others are printed. -/
def run (session : Session) (fuel : Nat) (echo : Bool) (source : String) :
    Outcome × Session :=
  match session.accept source with
  | (.ok statements, session) => session.perform fuel echo statements
  | (.error diagnostics, session) => (.rejected diagnostics, session)

/-- What has been written since the last time. -/
def takeOutput (session : Session) : ByteArray × Session :=
  let (bytes, output) := session.machine.output.take
  (bytes, { session with machine := { session.machine with output := output } })

def global? (session : Session) (name : String) : Option Value :=
  session.machine.store.frames.get? session.machine.globals name

end Session

end Lox
