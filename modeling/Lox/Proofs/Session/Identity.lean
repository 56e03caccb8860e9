import Lox.Proofs.Evaluation.Steady
import Lox.Proofs.Session.Acceptance

/-!
# Identity of name occurrences

The number of a name occurrence identifies it among all that are ever read in a
session.  Within one tree this is what reading gives, whatever errors the tokens
have; between trees it follows from the next number, which no source lowers.
What has been recorded for a number stays, since a source records distances for
its own occurrences only and running one records none.
-/

namespace Lox.Session

variable {session : Session}

/-- Nothing but the reading of a source gives out numbers or records distances. -/
theorem submit_kept (session : Session) (submission : Submission) :
    (session.submit submission).2.nextId = (session.read submission.source).nextId ∧
      (session.submit submission).2.machine.distances =
        (session.read submission.source).machine.distances := by
  cases haccept : session.accept submission.source with
  | mk result accepted =>
      cases result with
      | error diagnostics =>
          obtain ⟨-, -, rfl⟩ := accept_error haccept
          rw [submit_error haccept]
          exact ⟨rfl, rfl⟩
      | ok statements =>
          obtain ⟨-, -, rfl⟩ := accept_ok haccept
          rw [submit_ok haccept, perform_snd]
          exact ⟨rfl, (Machine.steady_run submission.fuel submission.echo statements _).distances⟩

theorem nextId_le_submit (session : Session) (submission : Submission) :
    session.nextId ≤ (session.submit submission).2.nextId :=
  calc session.nextId
    _ ≤ (session.read submission.source).nextId := session.nextId_le_read submission.source
    _ = (session.submit submission).2.nextId := (session.submit_kept submission).1.symm

theorem nextId_le_after (session : Session) (history : List Submission) :
    session.nextId ≤ (session.after history).nextId := by
  induction history generalizing session with
  | nil => exact le_rfl
  | cons submission history ih => exact (session.nextId_le_submit submission).trans (ih _)

/-- What is recorded for the numbers that are used up stays through a history. -/
theorem distances_after (history : List Submission) {id : Nat} (h : id < session.nextId) :
    (session.after history).machine.distances[id]? = session.machine.distances[id]? := by
  induction history generalizing session with
  | nil => rfl
  | cons submission history ih =>
      let next := (session.submit submission).2
      calc (next.after history).machine.distances[id]?
        _ = next.machine.distances[id]? := ih (h.trans_le (session.nextId_le_submit submission))
        _ = (session.read submission.source).machine.distances[id]? := by
          rw [(session.submit_kept submission).2]
        _ = session.machine.distances[id]? := distances_read_old h

/-- The occurrences of a source have numbers below the next one of the session after it. -/
theorem ids_lt_submit (session : Session) (submission : Submission) {id : Nat}
    (h : id ∈ (session.reading submission.source).ids) :
    id < (session.submit submission).2.nextId := by
  rw [(session.submit_kept submission).1]
  exact (session.ids_reading submission.source id h).2

/-- Whatever tokens are read, correct or not, no two occurrences in what is read
share a number, and all numbers were given out for it.  So a number that occurs in
the tree of one source occurs in that of no later one, whether or not these are
accepted, and what has been recorded for it when its source was read stays. -/
theorem occurrences_identified :
    (∀ (tokens : List Token) (next : Nat),
      let parsed := Parsed.ofStream (.ofTokens tokens) next
      (Stmt.idsAll parsed.statements).Nodup ∧
        ∀ id ∈ Stmt.idsAll parsed.statements, next ≤ id ∧ id < parsed.nextId) ∧
    ∀ (session : Session) (submission : Submission) (history : List Submission),
      let ids := Stmt.idsAll (Parsed.ofSource submission.source session.nextId).statements
      let later := (session.submit submission).2.after history
      (∀ source : String,
        ids.Disjoint (Stmt.idsAll (Parsed.ofSource source later.nextId).statements)) ∧
      ∀ id ∈ ids, later.machine.distances[id]? =
        (session.accept submission.source).2.machine.distances[id]? := by
  refine ⟨fun tokens next => ?_, fun session submission history => ⟨fun source => ?_, ?_⟩⟩
  · have hnew := @Parsed.ofStream_new (fun _ => True) (.ofTokens tokens) next trivial
      fun _ _ => trivial
    exact ⟨hnew.numbers.distinct, hnew.numbers.bounded⟩
  · intro id hearlier hlater
    have hbelow := session.ids_lt_submit submission hearlier
    have hle := (session.submit submission).2.nextId_le_after history
    have habove := (((session.submit submission).2.after history).ids_reading source id hlater).1
    omega
  · intro id hid
    calc ((session.submit submission).2.after history).machine.distances[id]?
      _ = (session.submit submission).2.machine.distances[id]? :=
        distances_after history (session.ids_lt_submit submission hid)
      _ = (session.accept submission.source).2.machine.distances[id]? := by
        rw [(session.submit_kept submission).2, accept_eq]

end Lox.Session
