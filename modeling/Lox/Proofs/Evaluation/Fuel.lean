import Lox.Evaluation
import Lox.Proofs.Sequencing

/-!
# More fuel

Fuel decides nothing but how long a run may go on.  With more of it every run
that has not run out ends as before, in the same machine.
-/

namespace Lox

/-- The second computation does what the first does, where that does not run out
of fuel. -/
def Exec.Extends {α : Type} (part more : Exec α) : Prop :=
  ∀ machine, part machine = more machine ∨ ∃ after, part machine = .error .outOfFuel after

namespace Exec.Extends

variable {α β : Type} {part more : Exec α} {rest further : α → Exec β}

theorem refl (part : Exec α) : part.Extends part :=
  fun _ => .inl rfl

theorem outOfFuel (more : Exec α) : Exec.Extends (throw .outOfFuel) more :=
  fun machine => .inr ⟨machine, rfl⟩

theorem trans {most : Exec α} (h : part.Extends more) (h' : more.Extends most) :
    part.Extends most := by
  intro machine
  rcases h machine with hsame | hout
  · rw [hsame]
    exact h' machine
  · exact .inr hout

theorem bind (h : part.Extends more) (hrest : ∀ result, (rest result).Extends (further result)) :
    (part >>= rest).Extends (more >>= further) := by
  intro machine
  rcases h machine with hsame | ⟨after, hout⟩
  · cases hresult : part machine with
    | ok result after =>
        rw [bind_of_ok hresult, bind_of_ok (hsame.symm.trans hresult)]
        exact hrest result after
    | error halt after =>
        rw [bind_of_error hresult, bind_of_error (hsame.symm.trans hresult)]
        exact .inl rfl
  · exact .inr ⟨after, bind_of_error hout⟩

theorem within (frame : FrameId) (h : part.Extends more) :
    (Machine.within frame part).Extends (Machine.within frame more) := by
  intro machine
  rcases h { machine with current := frame } with hsame | ⟨after, hout⟩
  · left
    simp only [Machine.within, hsame]
  · right
    simp only [Machine.within, hout]
    exact ⟨_, rfl⟩

end Exec.Extends

namespace Machine

open Exec

/-- One more step of fuel extends whatever is run with the given fuel. -/
structure ExtendedRuns (fuel : Nat) : Prop where
  evaluate (e : Expr) : Extends (evaluate fuel e) (evaluate (fuel + 1) e)
  evaluateAll (es : List Expr) : Extends (evaluateAll fuel es) (evaluateAll (fuel + 1) es)
  call (function : Value) (line : Nat) (arguments : List Value) :
    Extends (call fuel function line arguments) (call (fuel + 1) function line arguments)
  invoke (closure : Closure) (arguments : List Value) :
    Extends (invoke fuel closure arguments) (invoke (fuel + 1) closure arguments)
  execute (s : Stmt) : Extends (execute fuel s) (execute (fuel + 1) s)
  executeAll (ss : List Stmt) : Extends (executeAll fuel ss) (executeAll (fuel + 1) ss)
  loop (condition : Expr) (body : Stmt) :
    Extends (loop fuel condition body) (loop (fuel + 1) condition body)

theorem extendedRuns_zero : ExtendedRuns 0 where
  evaluate _ := .outOfFuel _
  evaluateAll _ := .outOfFuel _
  call _ _ _ := .outOfFuel _
  invoke _ _ := .outOfFuel _
  execute _ := .outOfFuel _
  executeAll _ := .outOfFuel _
  loop _ _ := .outOfFuel _

section Step

variable {fuel : Nat} (ih : ExtendedRuns fuel)
include ih

theorem evaluate_extends (e : Expr) :
    Extends (evaluate (fuel + 1) e) (evaluate (fuel + 2) e) := by
  cases e with
  | literal value => exact .refl _
  | grouping inner => exact ih.evaluate inner
  | unary operator operand =>
      rw [evaluate, evaluate]
      exact (ih.evaluate operand).bind fun _ => .refl _
  | binary left operator right =>
      rw [evaluate, evaluate]
      apply (ih.evaluate left).bind
      intro leftValue
      exact (ih.evaluate right).bind fun _ => .refl _
  | logical left operator right =>
      rw [evaluate, evaluate]
      apply (ih.evaluate left).bind
      intro leftValue
      split
      · exact .refl _
      · exact ih.evaluate right
  | reference id name => exact .refl _
  | receiver id keyword => exact .refl _
  | assign id name value =>
      rw [evaluate, evaluate]
      exact (ih.evaluate value).bind fun _ => .refl _
  | get object name =>
      rw [evaluate, evaluate]
      exact (ih.evaluate object).bind fun _ => .refl _
  | set object name value =>
      rw [evaluate, evaluate]
      apply (ih.evaluate object).bind
      intro result
      split
      · exact (ih.evaluate value).bind fun _ => .refl _
      · exact .refl _
  | call callee closing arguments =>
      rw [evaluate, evaluate]
      apply (ih.evaluate callee).bind
      intro function
      exact (ih.evaluateAll arguments).bind fun values => ih.call function closing.line values
  | list closing elements =>
      rw [evaluate, evaluate]
      exact (ih.evaluateAll elements).bind fun _ => .refl _

theorem evaluateAll_extends (es : List Expr) :
    Extends (evaluateAll (fuel + 1) es) (evaluateAll (fuel + 2) es) := by
  cases es with
  | nil => exact .refl _
  | cons e es =>
      rw [evaluateAll, evaluateAll]
      apply (ih.evaluate e).bind
      intro value
      exact (ih.evaluateAll es).bind fun _ => .refl _

theorem call_extends (function : Value) (line : Nat) (arguments : List Value) :
    Extends (call (fuel + 1) function line arguments)
      (call (fuel + 2) function line arguments) := by
  cases function with
  | function closure =>
      rw [call, call]
      exact (Extends.refl _).bind fun _ => ih.invoke closure arguments
  | classValue cls =>
      rw [call, call]
      apply (Extends.refl _).bind
      intro _
      apply (Extends.refl _).bind
      intro object
      split
      · apply (Extends.refl _).bind
        intro initializer
        exact (ih.invoke initializer arguments).bind fun _ => .refl _
      · exact .refl _
  | native _ | nil | truth _ | number _ | text _ | object _ _ | list _ => exact .refl _

theorem invoke_extends (closure : Closure) (arguments : List Value) :
    Extends (invoke (fuel + 1) closure arguments) (invoke (fuel + 2) closure arguments) := by
  rw [invoke, invoke]
  apply (Extends.refl _).bind
  intro frame
  exact ((ih.executeAll _).within frame).bind fun _ => .refl _

theorem execute_extends (s : Stmt) :
    Extends (execute (fuel + 1) s) (execute (fuel + 2) s) := by
  rcases s with value | value | ⟨name, _ | initializer⟩ | body |
    ⟨condition, thenBranch, _ | elseBranch⟩ | ⟨condition, body⟩ | keyword | declaration |
    ⟨keyword, _ | value⟩ | ⟨name, methods⟩ <;>
    rw [execute, execute]
  case expression => exact (ih.evaluate value).bind fun _ => .refl _
  case print => exact (ih.evaluate value).bind fun _ => .refl _
  case declare.none => exact .refl _
  case declare.some => exact (ih.evaluate initializer).bind fun _ => .refl _
  case block => exact (Extends.refl _).bind fun frame => (ih.executeAll body).within frame
  case branch.none =>
    apply (ih.evaluate condition).bind
    intro value
    split
    · exact ih.execute thenBranch
    · exact .refl _
  case branch.some =>
    apply (ih.evaluate condition).bind
    intro value
    split
    · exact ih.execute thenBranch
    · exact ih.execute elseBranch
  case loop => exact ih.loop condition body
  case leave => exact .refl _
  case function => exact .refl _
  case giveBack.none => exact .refl _
  case giveBack.some => exact (ih.evaluate value).bind fun _ => .refl _
  case classDecl => exact .refl _

theorem executeAll_extends (ss : List Stmt) :
    Extends (executeAll (fuel + 1) ss) (executeAll (fuel + 2) ss) := by
  cases ss with
  | nil => exact .refl _
  | cons s ss =>
      rw [executeAll, executeAll]
      apply (ih.execute s).bind
      intro flow
      cases flow with
      | normal => exact ih.executeAll ss
      | returned value => exact .refl _
      | left line => exact .refl _

theorem loop_extends (condition : Expr) (body : Stmt) :
    Extends (loop (fuel + 1) condition body) (loop (fuel + 2) condition body) := by
  rw [loop, loop]
  apply (ih.evaluate condition).bind
  intro value
  split
  · apply (ih.execute body).bind
    intro flow
    cases flow with
    | normal => exact ih.loop condition body
    | returned value => exact .refl _
    | left line => exact .refl _
  · exact .refl _

end Step

theorem extendedRuns (fuel : Nat) : ExtendedRuns fuel := by
  induction fuel with
  | zero => exact extendedRuns_zero
  | succ fuel ih =>
      exact {
        evaluate := evaluate_extends ih
        evaluateAll := evaluateAll_extends ih
        call := call_extends ih
        invoke := invoke_extends ih
        execute := execute_extends ih
        executeAll := executeAll_extends ih
        loop := loop_extends ih }

theorem executeTop_extends (fuel : Nat) (echo : Bool) (s : Stmt) :
    Extends (executeTop fuel echo s) (executeTop (fuel + 1) echo s) := by
  have hexecute := (extendedRuns fuel).execute s
  cases s with
  | expression value =>
      cases echo with
      | false => exact hexecute
      | true => exact ((extendedRuns fuel).evaluate value).bind fun _ => .refl _
  | print _ | declare _ _ | block _ | branch _ _ _ | loop _ _ | leave _ | function _
  | giveBack _ _ | classDecl _ _ => exact hexecute

/-- A program that does not run out of fuel runs in the same way with more. -/
theorem run_extends {fuel more : Nat} (h : fuel ≤ more) (echo : Bool) (ss : List Stmt) :
    Extends (run fuel echo ss) (run more echo ss) := by
  induction h with
  | refl => exact .refl _
  | @step more _ ih =>
      apply ih.trans
      clear ih
      induction ss with
      | nil => exact .refl _
      | cons s ss ih =>
          rw [run, run]
          apply (executeTop_extends more echo s).bind
          intro flow
          cases flow with
          | normal => exact ih
          | returned value => exact .refl _
          | left line => exact .refl _

end Machine

end Lox
