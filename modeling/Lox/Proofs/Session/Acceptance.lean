import Lox.Proofs.Scope.Settled
import Lox.Proofs.Session.History
import Lox.Proofs.Syntax.Numbering.Statement

/-!
# Acceptance

What reading a source does to a session.  Numbers of name occurrences are only
used up, and distances are recorded for numbers that were used up by the same
source; nothing else of the session changes.  A program that is accepted is
settled as long as the numbers that are still free have no distances.
-/

namespace Lox

/-- A source is read into a formed program, whose name occurrences have distinct
numbers that were free before. -/
theorem Parsed.ofSource_new (source : String) (next : Nat) :
    Parser.New next (ofSource source next).nextId
      (Stmt.FormedAll Token.Spelled (ofSource source next).statements)
      (Stmt.idsAll (ofSource source next).statements) := by
  obtain ⟨hending, hbody⟩ := TokenStream.spelled_ofSource source
  exact ofStream_new next hending hbody

namespace Program

/-- What the analysis of the program comes to. -/
def analysis (program : Program) : Analysis :=
  Stmt.analyzeAll {} program.statements program.site.analysis

/-- Only the distances of its own occurrences count for a program. -/
theorem Accepted.of_agree {program : Program} {distances distances' : Distances}
    (h : program.Accepted distances)
    (hagree : ∀ id ∈ program.ids, distances'[id]? = distances[id]?) :
    program.Accepted distances' :=
  ⟨⟨h.settled.distinct, h.settled.unknown, h.settled.clean, fun id hid =>
    (hagree id hid).trans (h.settled.kept id hid)⟩, h.formed⟩

theorem analysis_other (program : Program) {id : Nat} (h : id ∉ program.ids) :
    program.analysis.distances[id]? = program.distances[id]? :=
  (Stmt.touchesAll {} program.statements).other program.site.analysis id h

end Program

namespace Session

variable {session accepted : Session} {source : String}

/-- The program that a source is read into. -/
def reading (session : Session) (source : String) : Program :=
  ⟨session.machine.distances, (Parsed.ofSource source session.nextId).statements⟩

/-- The session after a source has been read. -/
def read (session : Session) (source : String) : Session :=
  let parsed := Parsed.ofSource source session.nextId
  ⟨{ session.machine with
      distances :=
        if parsed.diagnostics.isEmpty then (session.reading source).analysis.distances
        else session.machine.distances },
    parsed.nextId⟩

/-- The errors in the text of a source, and if there are none, those that scope
analysis finds. -/
def errors (session : Session) (source : String) : List Diagnostic :=
  let parsed := Parsed.ofSource source session.nextId
  if parsed.diagnostics.isEmpty then (session.reading source).analysis.diagnostics.toList
  else parsed.diagnostics

theorem errors_eq_nil (h : session.errors source = []) :
    (Parsed.ofSource source session.nextId).diagnostics = [] ∧
      (session.reading source).analysis.diagnostics = #[] := by
  cases hparsed : (Parsed.ofSource source session.nextId).diagnostics with
  | nil => exact ⟨rfl, Array.toList_eq_nil_iff.1 (by simpa [errors, hparsed] using h)⟩
  | cons diagnostic diagnostics => simp [errors, hparsed] at h

/-- The distances of a source without errors are those that its analysis finds. -/
theorem distances_read_clean (h : session.errors source = []) :
    (session.read source).machine.distances = (session.reading source).analysis.distances := by
  simp [Session.read, (errors_eq_nil h).1]

theorem accept_eq (session : Session) (source : String) :
    session.accept source =
      (if (session.errors source).isEmpty then .ok (session.reading source).statements
        else .error (session.errors source), session.read source) := by
  cases hparsed : (Parsed.ofSource source session.nextId).diagnostics.isEmpty with
  | true => simp only [accept, errors, read, hparsed, if_true]; rfl
  | false => simp [accept, errors, read, hparsed]

theorem accept_ok {statements : List Stmt}
    (h : session.accept source = (.ok statements, accepted)) :
    session.errors source = [] ∧ statements = (session.reading source).statements ∧
      accepted = session.read source := by
  rw [accept_eq] at h
  cases herrors : session.errors source with
  | nil =>
      simp only [herrors, List.isEmpty_nil, if_true, Prod.mk.injEq, Except.ok.injEq] at h
      exact ⟨rfl, h.1.symm, h.2.symm⟩
  | cons error errors => simp [herrors] at h

theorem accept_error {diagnostics : List Diagnostic}
    (h : session.accept source = (.error diagnostics, accepted)) :
    diagnostics = session.errors source ∧ diagnostics ≠ [] ∧
      accepted = session.read source := by
  rw [accept_eq] at h
  cases herrors : session.errors source with
  | nil => simp [herrors] at h
  | cons error errors =>
      simp only [herrors, List.isEmpty_cons, Prod.mk.injEq] at h
      obtain ⟨hdiagnostics, rfl⟩ := h
      obtain rfl := Except.error.inj hdiagnostics
      exact ⟨rfl, by simp, rfl⟩

/-! ## Free numbers -/

/-- The numbers that are still free have no distances. -/
def Fresh (session : Session) : Prop :=
  ∀ id, session.nextId ≤ id → session.machine.distances[id]? = none

theorem nextId_le_read (session : Session) (source : String) :
    session.nextId ≤ (session.read source).nextId :=
  (Parsed.ofSource_new source session.nextId).numbers.ordered

theorem ids_reading (session : Session) (source : String) :
    ∀ id ∈ (session.reading source).ids,
      session.nextId ≤ id ∧ id < (session.read source).nextId :=
  (Parsed.ofSource_new source session.nextId).numbers.bounded

/-- The distances of other numbers than those of the source stay. -/
theorem distances_read {id : Nat} (h : id ∉ (session.reading source).ids) :
    (session.read source).machine.distances[id]? = session.machine.distances[id]? := by
  rw [read]
  dsimp only
  split
  · exact (session.reading source).analysis_other h
  · rfl

/-- The distances of numbers that were used up before stay. -/
theorem distances_read_old {id : Nat} (h : id < session.nextId) :
    (session.read source).machine.distances[id]? = session.machine.distances[id]? := by
  apply distances_read
  intro hid
  have := (session.ids_reading source id hid).1
  omega

theorem Fresh.read (h : session.Fresh) (source : String) : (session.read source).Fresh := by
  intro id hid
  rw [distances_read, h id ((session.nextId_le_read source).trans hid)]
  intro hmem
  have := (session.ids_reading source id hmem).2
  omega

/-- A source without errors is read into an accepted program. -/
theorem Fresh.accepted_reading (h : session.Fresh) (herrors : session.errors source = []) :
    (session.reading source).Accepted (session.read source).machine.distances := by
  have hnew := Parsed.ofSource_new source session.nextId
  refine ⟨⟨hnew.numbers.distinct, fun id hid => h id (hnew.numbers.bounded id hid).1,
    (errors_eq_nil herrors).2, fun id _ => ?_⟩, hnew.formed⟩
  rw [distances_read_clean herrors]
  rfl

end Session

end Lox
