import Lox.Proofs.Session.Soundness

/-!
# Safety of sessions

What is ruled out before a program runs does not happen while it runs.  The
operators are those that the parser knows; a loop or function is left from
inside only, as the analysis has checked; a built-in function has its list and
all of its arguments; and the frame of an initializer has its receiver.
-/

namespace Lox

open Machine

/-- Whatever the body of an initializer does, a call gives what is bound to its
receiver. -/
theorem Machine.invoke_initializer {fuel : Nat} {closure : Closure} {arguments : List Value}
    {machine after : Machine} {value : Value} (hinitializer : closure.isInitializer)
    (hresult : invoke fuel closure arguments machine = .ok value after) :
    value = (after.store.frames.get? closure.frame "this").getD .nil := by
  cases fuel with
  | zero => cases hresult
  | succ fuel =>
      rw [invoke, bind_of_ok (enter_eq closure arguments machine)] at hresult
      simp only [hinitializer, if_true] at hresult
      obtain ⟨flow, middle, -, hvalue⟩ := exists_of_bind_ok hresult
      cases hvalue
      rfl

/-- Whether an initializer is called and, with the given fuel, comes to its end. -/
def Moment.initializes (fuel : Nat) (moment : Moment) : Bool :=
  match moment.task with
  | .invoke closure arguments =>
    closure.isInitializer &&
      match invoke fuel closure arguments moment.machine with
      | .ok _ _ => true
      | .error _ _ => false
  | _ => false

theorem Moment.initializes_iff {fuel : Nat} {moment : Moment} :
    moment.initializes fuel ↔ ∃ closure arguments value after,
      moment.task = .invoke closure arguments ∧ closure.isInitializer ∧
        invoke fuel closure arguments moment.machine = .ok value after := by
  rw [initializes]
  constructor
  · intro h
    split at h
    · rename_i closure arguments htask
      obtain ⟨hinitializer, hended⟩ := (Bool.and_eq_true _ _).mp h
      split at hended
      · rename_i value after hresult
        exact ⟨closure, arguments, value, after, htask, hinitializer, hresult⟩
      · cases hended
    · cases h
  · rintro ⟨closure, arguments, value, after, htask, hinitializer, hresult⟩
    simp [htask, hinitializer, hresult]

namespace Session

/-- No source of a session ends with an internal error, and every initializer
that is called and comes to its end gives the receiver that its frame has. -/
theorem no_internal_error (clock : Nat → Float) (output : Output) (history : List Submission)
    (submission : Submission) :
    (∀ line cause,
        (((initial clock output).after history).submit submission).1 =
          .failed (.error line cause) → cause.isInternal = false) ∧
      ∀ moment ∈ (initial clock output).moments (history ++ [submission]),
        ∀ closure arguments, moment.task = .invoke closure arguments → closure.isInitializer →
          ∀ fuel value after, invoke fuel closure arguments moment.machine = .ok value after →
            after.store.frames.get? closure.frame "this" = some value := by
  refine ⟨?_, ?_⟩
  · have hsound := (sound_initial clock output).after history
    exact (hsound.session.submit submission).2
  · intro moment hmoment closure arguments htask hinitializer fuel value after hresult
    have hsound := (sound_initial clock output).after (history ++ [submission])
    obtain ⟨known, -, -, htaskSound⟩ := hsound.sound moment hmoment
    rw [htask] at htaskSound
    obtain ⟨⟨program, -, site, -, -, hthis⟩, -⟩ := htaskSound
    have hkeeps := ((steadyRuns fuel).invoke closure arguments).ok hresult
    have hbinds := hkeeps.frames.binds closure.frame "this" (hthis hinitializer)
    obtain ⟨this, hget⟩ := Option.isSome_iff_exists.1 hbinds
    have hvalue := invoke_initializer hinitializer hresult
    rw [hget] at hvalue
    rw [hget, hvalue]
    rfl

/-- The initializer of a class is called and gives the new instance. -/
theorem no_internal_error_in_initializer :
    let history := [⟨"class A { init() { } } A();", 8, false⟩]
    ∃ moment ∈ (initial (fun _ => 0) {}).moments history, ∃ closure arguments value after,
      moment.task = .invoke closure arguments ∧ closure.isInitializer ∧
        invoke 6 closure arguments moment.machine = .ok value after ∧
        after.store.frames.get? closure.frame "this" = some value := by
  intro history
  have hany : ((initial (fun _ => 0) {}).moments history).any (·.initializes 6) := by
    decide +kernel
  obtain ⟨moment, hmoment, hinitializes⟩ := List.any_eq_true.1 hany
  obtain ⟨closure, arguments, value, after, htask, hinitializer, hresult⟩ :=
    Moment.initializes_iff.1 hinitializes
  obtain ⟨-, hthis⟩ := no_internal_error (fun _ => 0) {} []
    ⟨"class A { init() { } } A();", 8, false⟩
  exact ⟨moment, hmoment, closure, arguments, value, after, htask, hinitializer, hresult,
    hthis moment hmoment closure arguments htask hinitializer 6 value after hresult⟩

end Session

end Lox
