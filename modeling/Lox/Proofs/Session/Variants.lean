import Lox.Proofs.Session.Frames
import Lox.Proofs.Variant.Analysis
import Lox.Proofs.Variant.Evaluation
import Lox.Proofs.Variant.Replacement

/-!
# Running a variant

Where a program has been accepted, its variants are accepted and run like it: what
earlier sources have left in the store varies from itself.
-/

namespace Lox

/-- The same outcome, but for a name in use that is undefined. -/
inductive Outcome.Varies (naming : Naming) : Outcome → Outcome → Prop where
  | same (outcome : Outcome) : Varies naming outcome outcome
  | undefined (line : Nat) {name : String} (hused : naming.Used name) :
    Varies naming (.failed (.error line (.undefinedVariable name)))
      (.failed (.error line (.undefinedVariable (naming.change name))))

theorem Outcome.Varies.eq {outcome outcome' : Outcome} (h : outcome.Varies .same outcome') :
    outcome = outcome' := by
  cases h with
  | same outcome => rfl
  | undefined line _ => rfl

/-- Of two runs, either both have come to the same end with the same output, or one
that need not have fuel enough is out of it. -/
inductive Variant.Concludes (r : Variant) : Outcome × Session → Outcome × Session → Prop where
  | ended {outcome outcome' : Outcome} {after after' : Session}
    (houtcome : outcome.Varies r.naming outcome')
    (houtput : after.machine.output = after'.machine.output) :
    Concludes r (outcome, after) (outcome', after')
  | behind (hpace : r.pace.Leads) (after : Session) (run' : Outcome × Session) :
    Concludes r (.outOfFuel, after) run'
  | ahead (hpace : r.pace = .back) (run : Outcome × Session) (after' : Session) :
    Concludes r run (.outOfFuel, after')

namespace Session

variable {r : Variant} {session session' accepted : Session} {source : String}
variable {statements statements' : List Stmt}

theorem perform_concludes {world : World}
    (h : session.machine.Vary r world .plain session'.machine)
    (hss : Stmt.VaryAll r.variation .plain statements statements') {fuel fuel' : Nat}
    (hfuel : r.pace.Enough fuel fuel') {echo : Bool} (hecho : echo → r.pace = .same) :
    r.Concludes (session.perform fuel echo statements)
      (session'.perform fuel' echo statements') := by
  have hrun := Machine.run_vary hfuel hecho hss _ _ h
  simp only [perform]
  generalize Machine.run fuel echo statements session.machine = result at hrun ⊢
  generalize Machine.run fuel' echo statements' session'.machine = result' at hrun ⊢
  cases hrun with
  | ok _ _ hafter => exact .ended (.same _) hafter.output
  | behind hpace => exact .behind hpace _ _
  | ahead hpace => exact .ahead hpace _ _
  | @stopped halt _ _ _ hhalt houtput =>
      cases hhalt with
      | undefined line hused => exact .ended (.undefined line hused) houtput
      | same =>
          cases halt with
          | failed failure => exact .ended (.same _) houtput
          | outOfFuel => exact .ended (.same _) houtput

variable {programs : List Program} {labels : List Region}

theorem accept_formed (h : session.accept source = (.ok statements, accepted)) :
    Stmt.FormedAll Token.Spelled statements := by
  obtain ⟨-, rfl, -⟩ := accept_ok h
  exact (Parsed.ofSource_new source session.nextId).formed

theorem accept_clean (h : session.accept source = (.ok statements, accepted)) :
    Stmt.CleanAll statements := by
  obtain ⟨herrors, rfl, -⟩ := accept_ok h
  have hclean : (Analysis.ofProgram session.machine.distances
      (session.reading source).statements).2 = [] :=
    Array.toList_eq_nil_iff.2 (errors_eq_nil herrors).2
  exact ⟨[], [], (Analysis.ofProgram_clean_iff _ _).1 hclean⟩

theorem accept_machine (h : session.accept source = (.ok statements, accepted)) :
    accepted.machine = { session.machine with distances := accepted.machine.distances } := by
  obtain ⟨-, -, rfl⟩ := accept_ok h
  rfl

/-- A program that is accepted, and a variant of it. -/
theorem Sound.written (h : session.Sound programs labels)
    (haccept : session.accept source = (.ok statements, accepted))
    (hdistances : r.distances = accepted.machine.distances)
    (hformed : Stmt.FormedAll r.Used statements)
    (hvary : Stmt.VaryAll r.written .plain statements statements') :
    r.Written session.machine.distances statements statements' := by
  obtain ⟨herrors, rfl, rfl⟩ := accept_ok haccept
  exact {
    formed := hformed
    distinct := (Parsed.ofSource_new source session.nextId).numbers.distinct
    fresh := fun id hid => h.fresh id (session.ids_reading source id hid).1
    clean := Array.toList_eq_nil_iff.2 (errors_eq_nil herrors).2
    distances := hdistances.trans (distances_read_clean herrors)
    vary := hvary }

/-- Instead of the program its variant is run, with the distances recorded for it. -/
theorem Sound.concludes (h : session.Sound programs labels) (hrooted : session.Rooted)
    (haccept : session.accept source = (.ok statements, accepted))
    (hdistances : r.distances = accepted.machine.distances)
    (hwritten : r.Written session.machine.distances statements statements')
    (hdistances' : r.distances' = (Analysis.ofProgram session.machine.distances statements').1)
    {variant : Session} (hvariant : variant.machine = { session.machine with
      distances := (Analysis.ofProgram session.machine.distances statements').1 })
    {fuel fuel' : Nat} (hfuel : r.pace.Enough fuel fuel') {echo : Bool}
    (hecho : echo → r.pace = .same) :
    r.Concludes (accepted.perform fuel echo statements)
      (variant.perform fuel' echo statements') := by
  obtain ⟨herrors, rfl, rfl⟩ := accept_ok haccept
  have hids : ∀ program ∈ programs, ∀ id ∈ program.ids,
      r.distances'[id]? = r.distances[id]? := by
    intro program hprogram id hid
    have hold := h.numbered program hprogram id hid
    have hother : id ∉ Stmt.idsAll (session.reading source).statements := fun hnew =>
      Nat.not_le_of_lt hold (session.ids_reading source id hnew).1
    rw [hdistances', hwritten.distances'_other hother, hdistances, distances_read_old hold]
  have hmachine := h.healthy.varies_self hids hrooted.machine
  rw [hdistances, hdistances', ← hvariant] at hmachine
  exact perform_concludes hmachine (hwritten.varies hdistances') hfuel hecho

end Session

end Lox
