import Lox.Proofs.Evaluation.Rooted
import Lox.Proofs.Evaluation.Steady
import Lox.Proofs.Session.Addressing

/-!
# The discipline of frames

Whatever is run, and however it ends, the machine is back in the frame in which
it began; no frame is attached anew or loses a name on the way.  In every state
that a session comes to, the frames around the current one and around that of
every function are finitely many and end with the globals.
-/

namespace Lox

open Machine

namespace Task

/-- The machine after a task that is carried out with the given fuel, however it
ends. -/
def finish (fuel : Nat) : Task → Machine → Machine
  | expr e, machine => finalState (evaluate fuel e machine)
  | exprs es, machine => finalState (evaluateAll fuel es machine)
  | call function line arguments, machine =>
    finalState (Machine.call fuel function line arguments machine)
  | bind method this, machine => finalState (withStore (·.bind method this) machine)
  | invoke closure arguments, machine => finalState (Machine.invoke fuel closure arguments machine)
  | stmt s, machine => finalState (execute fuel s machine)
  | stmts ss, machine => finalState (executeAll fuel ss machine)
  | loop condition body, machine => finalState (Machine.loop fuel condition body machine)

theorem keeps_finish (fuel : Nat) (task : Task) (machine : Machine) :
    machine.Keeps (some machine.current) (task.finish fuel machine) := by
  cases task with
  | expr e => exact ((steadyRuns fuel).evaluate e machine).widen
  | exprs es => exact ((steadyRuns fuel).evaluateAll es machine).widen
  | call function line arguments =>
      exact ((steadyRuns fuel).call function line arguments machine).widen
  | bind method this =>
      have hbind : Exec.Steady false (withStore (·.bind method this)) :=
        steady_withStore fun store => store.keeps_bind method this
      exact (hbind machine).widen
  | invoke closure arguments => exact ((steadyRuns fuel).invoke closure arguments machine).widen
  | stmt s => exact (steadyRuns fuel).execute s machine
  | stmts ss => exact (steadyRuns fuel).executeAll ss machine
  | loop condition body => exact (steadyRuns fuel).loop condition body machine

theorem rooted_finish (fuel : Nat) {task : Task} {machine : Machine} (h : machine.Rooted)
    (htask : task.Rooted machine.store.frames.size) : (task.finish fuel machine).Rooted := by
  cases task with
  | expr e => exact ((rootedRuns fuel).evaluate e h).machine
  | exprs es => exact ((rootedRuns fuel).evaluateAll es h).machine
  | call function line arguments => exact ((rootedRuns fuel).call h htask.1 htask.2).machine
  | bind method this => exact (h.bind htask.1 htask.2).1
  | invoke closure arguments => exact ((rootedRuns fuel).invoke h htask.1 htask.2).machine
  | stmt s => exact ((rootedRuns fuel).execute s h).machine
  | stmts ss => exact ((rootedRuns fuel).executeAll ss h).machine
  | loop condition body => exact ((rootedRuns fuel).loop condition body h).machine

end Task

/-- Outwards from any frame the frames become older, up to the globals. -/
theorem Frames.Rooted.path {frames : Frames} (h : frames.Rooted) (frame : FrameId)
    (hlt : frame < frames.size) : ∃ path, frames.Path frame path := by
  induction frame using Nat.strongRecOn with
  | ind frame ih =>
      cases frame with
      | zero => exact ⟨[], .globals⟩
      | succ previous =>
          obtain ⟨outer, houter, henclosing⟩ := h.inside _ (Nat.succ_pos previous) hlt
          obtain ⟨path, hpath⟩ := ih outer houter (houter.trans hlt)
          exact ⟨_, .inside henclosing hpath⟩

/-- The frames around every frame are finitely many and end with that of the
globals, which is inside no other.  The current frame is such a frame, and so are
those of all functions in the store. -/
structure Machine.Chained (machine : Machine) : Prop where
  globals : machine.globals = 0
  outermost : machine.store.frames.enclosing? machine.globals = none
  chains (frame : FrameId) (hlt : frame < machine.store.frames.size) :
    ∃ path, machine.store.frames.Path frame path
  current : machine.current < machine.store.frames.size
  functions : machine.store.All (Value.Rooted machine.store.frames.size)

theorem Machine.Rooted.chained {machine : Machine} (h : machine.Rooted) : machine.Chained where
  globals := h.globals
  outermost := h.globals ▸ h.frames.outermost
  chains := h.frames.path
  current := h.current
  functions := h.values

namespace Session

/-- The states that a session comes to: those between its sources, those at the
moments of its runs, and those after anything that is carried out in such a
state. -/
inductive Reaches (session : Session) : Machine → Prop where
  | between (history : List Submission) : Reaches session (session.after history).machine
  | moment {history : List Submission} {moment : Moment} (h : moment ∈ session.moments history) :
    Reaches session moment.machine
  | finish {machine : Machine} {task : Task} (h : Reaches session machine)
    (htask : task.Rooted machine.store.frames.size) (fuel : Nat) :
    Reaches session (task.finish fuel machine)

/-- Between two sources the machine is rooted and in the frame of the globals. -/
structure Rooted (session : Session) : Prop where
  machine : session.machine.Rooted
  current : session.machine.current = session.machine.globals

theorem rooted_initial (clock : Nat → Float) (output : Output) :
    (initial clock output).Rooted := by
  refine ⟨⟨(Frames.Rooted.root.define ..).define .., rfl, Nat.one_pos, ?_⟩, rfl⟩
  have hempty : ({ frames := Frames.root, nextIdentity := 2 } : Store).All (Value.Rooted 1) := by
    refine ⟨fun frame name value h => ?_, fun list elements h => ?_, fun id name value h => ?_⟩
    · have hlt := Frames.lt_size_of_binds (Option.isSome_of_eq_some h)
      obtain rfl : frame = 0 := Nat.lt_one_iff.1 hlt
      simp [Frames.get?, Frames.root] at h
    · simp at h
    · simp [Store.field?] at h
  have hclock : (Value.native { identity := 0, builtin := .clock }).Rooted 1 := trivial
  have hlist : (Value.native { identity := 1, builtin := .newList }).Rooted 1 := trivial
  exact (hempty.define 0 _ hclock).define 0 _ hlist

variable {session : Session}

/-- Whatever comes of a source, its moments are rooted and so is the session
after it. -/
theorem Rooted.submit (h : session.Rooted) (submission : Submission) :
    (∀ moment ∈ session.sourceMoments submission, moment.Rooted) ∧
      (session.submit submission).2.Rooted ∧
      session.machine.store.frames.Keeps (some session.machine.globals)
        (session.submit submission).2.machine.store.frames ∧
      (session.submit submission).2.machine.globals = session.machine.globals := by
  obtain ⟨distances, hmachine⟩ := session.machine_accept submission.source
  cases haccept : session.accept submission.source with
  | mk result accepted =>
      rw [haccept] at hmachine
      have haccepted : accepted.machine.Rooted := by
        rw [show accepted.machine = _ from hmachine]
        exact ⟨h.machine.frames, h.machine.globals, h.machine.current, h.machine.values⟩
      have hframes : accepted.machine.store = session.machine.store ∧
          accepted.machine.current = session.machine.current ∧
          accepted.machine.globals = session.machine.globals := by
        rw [show accepted.machine = _ from hmachine]
        exact ⟨rfl, rfl, rfl⟩
      obtain ⟨hstore, hcurrent, hglobals⟩ := hframes
      cases result with
      | error diagnostics =>
          rw [submit_error haccept]
          refine ⟨by simp [sourceMoments, haccept], ⟨haccepted, ?_⟩, ?_, hglobals⟩
          · rw [hcurrent, hglobals]
            exact h.current
          · rw [hstore]
            exact .refl _
      | ok statements =>
          have hrun := run_rooted submission.fuel submission.echo statements haccepted
          have hkeeps := steady_run submission.fuel submission.echo statements accepted.machine
          have hglobals' := hkeeps.globals.trans hglobals
          have hcurrent' := hkeeps.current.trans hcurrent
          rw [submit_ok haccept, ← hstore]
          refine ⟨?_, ⟨?_, ?_⟩, ?_, ?_⟩
          · simp only [sourceMoments, haccept]
            exact hrun.moments
          all_goals rw [perform_snd]
          · exact hrun.machine
          · exact hcurrent'.trans (h.current.trans hglobals'.symm)
          · have hgaining := hkeeps.frames
            rwa [show accepted.machine.gaining? true = some session.machine.globals from
              congrArg some (hcurrent.trans h.current)] at hgaining
          · exact hglobals'

theorem Rooted.after (h : session.Rooted) (history : List Submission) :
    (∀ moment ∈ session.moments history, moment.Rooted) ∧ (session.after history).Rooted ∧
      session.machine.store.frames.Keeps (some session.machine.globals)
        (session.after history).machine.store.frames := by
  induction history generalizing session with
  | nil => exact ⟨by simp [moments], h, .refl _⟩
  | cons submission history ih =>
      obtain ⟨hmoments, hsubmitted, hkeeps, hglobals⟩ := h.submit submission
      obtain ⟨hmoments', hafter, hkeeps'⟩ := ih hsubmitted
      refine ⟨?_, hafter, hkeeps.trans (hglobals ▸ hkeeps')⟩
      rw [moments, List.forall_mem_append]
      exact ⟨hmoments, hmoments'⟩

theorem Reaches.rooted {machine : Machine} (h : session.Reaches machine)
    (hsession : session.Rooted) : machine.Rooted := by
  induction h with
  | between history => exact (hsession.after history).2.1.machine
  | @moment history moment hmoment => exact ((hsession.after history).1 moment hmoment).machine
  | finish _ htask fuel ih => exact Task.rooted_finish fuel ih htask

/-- Between sources the machine is in the frame of the globals, and later sources
keep the frames of earlier ones.  In every state that a session comes to, all
chains of frames end with the globals.  Whatever is carried out there, with values
of that state, ends in the frame in which it began, attaches no frame anew and
takes no name from one; only the current frame can gain names.  The tasks of a run
are among these. -/
theorem frames_disciplined (clock : Nat → Float) (output : Output) :
    (∀ history : List Submission,
      let session := (initial clock output).after history
      session.machine.current = session.machine.globals ∧
        ∀ more, session.machine.store.frames.Keeps (some session.machine.globals)
          (session.after more).machine.store.frames) ∧
      (∀ history, ∀ moment ∈ (initial clock output).moments history,
        moment.task.Rooted moment.machine.store.frames.size) ∧
      ∀ machine, (initial clock output).Reaches machine →
        machine.Chained ∧ ∀ (fuel : Nat) (task : Task),
          task.Rooted machine.store.frames.size →
            machine.Keeps (some machine.current) (task.finish fuel machine) ∧
              (task.finish fuel machine).Chained := by
  have hinitial := rooted_initial clock output
  refine ⟨fun history => ?_, fun history moment hmoment => ?_, fun machine hreached => ?_⟩
  · have hsession := (hinitial.after history).2.1
    exact ⟨hsession.current, fun more => (hsession.after more).2.2⟩
  · exact ((hinitial.after history).1 moment hmoment).task
  · have hrooted := hreached.rooted hinitial
    refine ⟨hrooted.chained, fun fuel task htask => ?_⟩
    exact ⟨task.keeps_finish fuel machine, (Task.rooted_finish fuel hrooted htask).chained⟩

end Session

end Lox
