import Lox.Proofs.Evaluation.Truncation
import Lox.Proofs.Session.History

/-!
# Sources with a limited output

Where the output accepts only so many bytes in total, a source is read as it is
without the limit and runs as it does without it, up to the write that does not
fit.  That write ends the run.
-/

namespace Lox.Session

/-- The session with an output that accepts `limit` bytes in total. -/
def limited (limit : Nat) (session : Session) : Session :=
  { session with machine := session.machine.limited limit }

theorem accept_limited (session : Session) (limit : Nat) (source : String) :
    (session.limited limit).accept source =
      ((session.accept source).1, (session.accept source).2.limited limit) := by
  have hdistances : (session.limited limit).machine.distances = session.machine.distances := rfl
  have hnext : (session.limited limit).nextId = session.nextId := rfl
  simp only [accept, hdistances, hnext]
  by_cases hparsed : (Parsed.ofSource source session.nextId).diagnostics.isEmpty
  · simp only [if_pos hparsed]
    rfl
  · simp only [if_neg hparsed]
    rfl

variable {session : Session} {limit : Nat}

theorem perform_limited_of_le {fuel : Nat} {echo : Bool} {statements : List Stmt}
    (hroom : session.machine.output.room = none)
    (hlimit : session.machine.output.bytes.size ≤ limit)
    (hfits : (session.perform fuel echo statements).2.machine.output.bytes.size ≤ limit) :
    (session.limited limit).perform fuel echo statements =
      ((session.perform fuel echo statements).1,
        (session.perform fuel echo statements).2.limited limit) := by
  have hcut := (Machine.truncates_run fuel echo statements session.machine hroom).2 limit hlimit
  rw [perform_snd] at hfits
  have hmachine : (session.limited limit).machine = session.machine.limited limit := rfl
  simp only [perform, hmachine]
  generalize Machine.run fuel echo statements (session.machine.limited limit) = result at hcut ⊢
  cases hcut with
  | closed hclosed => exact absurd hfits (Nat.not_le_of_lt hclosed)
  | fits =>
      cases Machine.run fuel echo statements session.machine with
      | ok _ after => rfl
      | error halt after => cases halt <;> rfl

theorem perform_limited_of_lt {fuel : Nat} {echo : Bool} {statements : List Stmt}
    (hroom : session.machine.output.room = none)
    (hlimit : session.machine.output.bytes.size ≤ limit)
    (hclosed : limit < (session.perform fuel echo statements).2.machine.output.bytes.size) :
    ((session.limited limit).perform fuel echo statements).1 = .failed .outputClosed ∧
      ((session.limited limit).perform fuel echo statements).2.machine.output.bytes =
        (session.perform fuel echo statements).2.machine.output.bytes.extract 0 limit := by
  have hcut := (Machine.truncates_run fuel echo statements session.machine hroom).2 limit hlimit
  have hmachine : (session.limited limit).machine = session.machine.limited limit := rfl
  rw [perform_snd] at hclosed
  rw [perform_snd session]
  simp only [perform, hmachine]
  generalize Machine.run fuel echo statements (session.machine.limited limit) = result at hcut ⊢
  cases hcut with
  | fits hfits => exact absurd hfits (Nat.not_le_of_lt hclosed)
  | closed _ hbytes => exact ⟨rfl, hbytes⟩

/-- With a limit that the output does not reach, a source runs as without. -/
theorem run_limited_of_le {fuel : Nat} {echo : Bool} {source : String}
    (hroom : session.machine.output.room = none)
    (hlimit : session.machine.output.bytes.size ≤ limit)
    (hfits : (session.run fuel echo source).2.machine.output.bytes.size ≤ limit) :
    (session.limited limit).run fuel echo source =
      ((session.run fuel echo source).1, (session.run fuel echo source).2.limited limit) := by
  obtain ⟨distances, hmachine⟩ := session.machine_accept source
  have houtput : (session.accept source).2.machine.output = session.machine.output := by
    rw [hmachine]
  rw [← houtput] at hroom hlimit
  revert hfits
  simp only [run, accept_limited]
  generalize session.accept source = reading at hroom hlimit
  rcases reading with ⟨_ | statements, accepted⟩
  · exact fun _ => rfl
  · exact perform_limited_of_le hroom hlimit

/-- With any other limit it stops at the write that does not fit. -/
theorem run_limited_of_lt {fuel : Nat} {echo : Bool} {source : String}
    (hroom : session.machine.output.room = none)
    (hlimit : session.machine.output.bytes.size ≤ limit)
    (hclosed : limit < (session.run fuel echo source).2.machine.output.bytes.size) :
    ((session.limited limit).run fuel echo source).1 = .failed .outputClosed ∧
      ((session.limited limit).run fuel echo source).2.machine.output.bytes =
        (session.run fuel echo source).2.machine.output.bytes.extract 0 limit := by
  obtain ⟨distances, hmachine⟩ := session.machine_accept source
  have houtput : (session.accept source).2.machine.output = session.machine.output := by
    rw [hmachine]
  rw [← houtput] at hroom hlimit
  revert hclosed
  simp only [run, accept_limited]
  generalize session.accept source = reading at hroom hlimit
  rcases reading with ⟨_ | statements, accepted⟩
  · exact fun hclosed => absurd hlimit (Nat.not_le_of_lt hclosed)
  · exact perform_limited_of_lt hroom hlimit

/-- An output that accepts `limit` bytes only truncates: if the output without a
limit is no longer, it is the same and so is the outcome; otherwise its first
`limit` bytes are written and the run fails since the output is closed.  It makes
no difference that the text of a value, lists inside lists included, is written
piece by piece. -/
theorem limited_output_truncates (clock : Nat → Float) (fuel : Nat) (echo : Bool)
    (source : String) (limit : Nat) :
    let whole := (initial clock {}).run fuel echo source
    let cut := (initial clock { room := some limit }).run fuel echo source
    let written := whole.2.machine.output.bytes
    let received := cut.2.machine.output.bytes
    (if written.size ≤ limit then cut.1 = whole.1 ∧ received = written
      else cut.1 = .failed .outputClosed ∧ cut.1.exitStatus = 70 ∧
        received = written.extract 0 limit) ∧
      Machine.printPieces = Machine.printLine := by
  have hinitial : initial clock { room := some limit } = (initial clock {}).limited limit := rfl
  have hroom : (initial clock {}).machine.output.room = none := rfl
  have hlimit : (initial clock {}).machine.output.bytes.size ≤ limit := Nat.zero_le limit
  rw [hinitial]
  generalize initial clock {} = session at hroom hlimit
  refine ⟨?_, Machine.printPieces_eq⟩
  split
  case isTrue hfits =>
    rw [run_limited_of_le hroom hlimit hfits]
    exact ⟨rfl, rfl⟩
  case isFalse hclosed =>
    obtain ⟨houtcome, hbytes⟩ := run_limited_of_lt hroom hlimit (Nat.lt_of_not_le hclosed)
    exact ⟨houtcome, congrArg Outcome.exitStatus houtcome, hbytes⟩

end Lox.Session
