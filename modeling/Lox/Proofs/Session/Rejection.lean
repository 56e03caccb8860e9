import Lox.Proofs.Matching.Session
import Lox.Proofs.Session.Soundness

/-!
# Rejected sources

A source that is rejected uses up numbers of name occurrences and may leave
distances behind, and nothing else of it stays.  Since no function in the store
has any of these numbers and none is used again, nobody can tell afterwards
whether the source was given to the session at all.
-/

namespace Lox.Session

variable {session : Session} {source : String}

/-- Whether a source is rejected before any of it runs. -/
def rejects (session : Session) (source : String) : Bool :=
  match session.accept source with
  | (.ok _, _) => false
  | (.error _, _) => true

theorem exists_of_rejects (h : session.rejects source) :
    ∃ diagnostics ≠ [], session.accept source = (.error diagnostics, session.read source) := by
  unfold rejects at h
  split at h
  · cases h
  · rename_i diagnostics accepted haccept
    obtain ⟨-, hsome, rfl⟩ := accept_error haccept
    exact ⟨diagnostics, hsome, haccept⟩

/-- Reading changes nothing of the machine but the distances. -/
theorem machine_read (session : Session) (source : String) :
    (session.read source).machine =
      { session.machine with distances := (session.read source).machine.distances } := rfl

/-- Occurrences whose numbers are used in both sessions have kept their distances,
and those with corresponding free numbers have none. -/
theorem Fresh.distances_match (h : session.Fresh) (source : String) :
    Distances.Match (.shift session.nextId (session.read source).nextId)
      session.machine.distances (session.read source).machine.distances := by
  rintro id id' (⟨hid, rfl⟩ | ⟨count, rfl, rfl⟩)
  · exact (distances_read_old hid).symm
  · rw [h _ (Nat.le_add_right _ count), h.read source _ (Nat.le_add_right _ count)]

/-- A sound session matches itself after a source has been read but not run. -/
theorem Sound.matches_read {programs : List Program} {labels : List Region}
    (h : session.Sound programs labels) (source : String) :
    session.Matches (.shift session.nextId (session.read source).nextId)
      (session.read source) where
  machine := by
    have hstore : session.machine.store.Matches
        (.shift session.nextId (session.read source).nextId) session.machine.store := by
      apply h.healthy.matches_self (fun _ => rfl)
      intro program hprogram id hid
      exact .inl ⟨h.numbered program hprogram id hid, rfl⟩
    exact ⟨hstore, rfl, rfl, h.fresh.distances_match source, rfl, rfl, rfl⟩
  free := Correspondence.shift_free

/-- A source that is rejected has errors and leaves a session as it was, up to
the distances of its own occurrences; and whatever is given to the session
afterwards, its outcomes are those that it would have had without the source. -/
theorem rejected_inert (clock : Nat → Float) (output : Output) (history : List Submission)
    (submission : Submission)
    (hrejected : ((initial clock output).after history).rejects submission.source) :
    let session := (initial clock output).after history
    let next := (session.submit submission).2
    (∃ diagnostics, (session.submit submission).1 = .rejected diagnostics ∧ diagnostics ≠ []) ∧
      next.machine = { session.machine with distances := next.machine.distances } ∧
      ∀ later : List Submission, next.outcomes later = session.outcomes later := by
  intro session next
  have hsound := ((sound_initial clock output).after history).session
  obtain ⟨diagnostics, hsome, haccept⟩ := exists_of_rejects hrejected
  have hsubmit : session.submit submission =
      (.rejected diagnostics, session.read submission.source) := submit_error haccept
  have hnext : next = session.read submission.source := congrArg Prod.snd hsubmit
  refine ⟨⟨diagnostics, congrArg Prod.fst hsubmit, hsome⟩, ?_, fun later => ?_⟩
  · rw [hnext]
    exact machine_read ..
  · have hunique := Correspondence.shift_unique (session.nextId_le_read submission.source)
    rw [hnext]
    exact ((hsound.matches_read submission.source).outcomes rfl hunique later).symm

/-- A source that declares a local name twice has its distance recorded before it
is rejected. -/
theorem rejected_inert_in_block :
    let session := (initial (fun _ => 0) {}).after
      [⟨"fun f() { var a = nil; return a; }", 8, false⟩]
    let submission : Submission := ⟨"{ var a; print a; var a; }", 8, false⟩
    let next := (session.submit submission).2
    session.rejects submission.source ∧
      session.machine.distances.size = 1 ∧ next.machine.distances.size = 2 ∧
      next.outcomes [⟨"print f();", 32, false⟩] = session.outcomes [⟨"print f();", 32, false⟩] := by
  intro session submission next
  have hrejected : session.rejects submission.source := by decide +kernel
  have hsizes : session.machine.distances.size = 1 ∧ next.machine.distances.size = 2 := by
    decide +kernel
  obtain ⟨-, -, hlater⟩ := rejected_inert (fun _ => 0) {}
    [⟨"fun f() { var a = nil; return a; }", 8, false⟩] submission hrejected
  exact ⟨hrejected, hsizes.1, hsizes.2, hlater _⟩

end Lox.Session
