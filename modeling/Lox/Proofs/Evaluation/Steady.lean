import Lox.Evaluation
import Lox.Proofs.Machine.Steady

/-!
# Evaluation is steady

Evaluating an expression or calling a value gives no name to any frame that was
there before; running a statement gives names to the current frame alone.
Whatever way they end, they end in the frame in which they began.
-/

namespace Lox.Machine

open Exec

/-- Everything that is run with the given fuel is steady. -/
structure SteadyRuns (fuel : Nat) : Prop where
  evaluate (e : Expr) : Steady false (evaluate fuel e)
  evaluateAll (es : List Expr) : Steady false (evaluateAll fuel es)
  call (function : Value) (line : Nat) (arguments : List Value) :
    Steady false (call fuel function line arguments)
  invoke (closure : Closure) (arguments : List Value) :
    Steady false (invoke fuel closure arguments)
  execute (s : Stmt) : Steady true (execute fuel s)
  executeAll (ss : List Stmt) : Steady true (executeAll fuel ss)
  loop (condition : Expr) (body : Stmt) : Steady true (loop fuel condition body)

theorem steadyRuns_zero : SteadyRuns 0 where
  evaluate _ := .throw _
  evaluateAll _ := .throw _
  call _ _ _ := .throw _
  invoke _ _ := .throw _
  execute _ := .throw _
  executeAll _ := .throw _
  loop _ _ := .throw _

section Step

variable {fuel : Nat} (ih : SteadyRuns fuel)
include ih

theorem evaluate_steady (e : Expr) : Steady false (evaluate (fuel + 1) e) := by
  cases e with
  | literal value =>
      rw [evaluate]
      exact .pure _
  | grouping inner =>
      rw [evaluate]
      exact ih.evaluate inner
  | unary operator operand =>
      rw [evaluate]
      exact (ih.evaluate operand).bind fun value => steady_ofExcept _ _
  | binary left operator right =>
      rw [evaluate]
      apply (ih.evaluate left).bind
      intro leftValue
      exact (ih.evaluate right).bind fun rightValue => steady_ofExcept _ _
  | logical left operator right =>
      rw [evaluate]
      apply (ih.evaluate left).bind
      intro leftValue
      split
      · exact .pure _
      · exact ih.evaluate right
  | reference id name =>
      rw [evaluate]
      exact steady_lookup id name
  | receiver id keyword =>
      rw [evaluate]
      exact steady_lookup id keyword
  | assign id name value =>
      rw [evaluate]
      apply (ih.evaluate value).bind
      intro result
      exact (steady_assign id name result).bind fun _ => .pure _
  | get object name =>
      rw [evaluate]
      exact (ih.evaluate object).bind fun result => steady_property result name
  | set object name value =>
      rw [evaluate]
      apply (ih.evaluate object).bind
      intro result
      split
      · apply (ih.evaluate value).bind
        intro field
        exact (steady_withStore fun _ => .refl _).bind fun _ => .pure _
      · exact steady_fail _ _
  | call callee closing arguments =>
      rw [evaluate]
      apply (ih.evaluate callee).bind
      intro function
      exact (ih.evaluateAll arguments).bind fun values => ih.call function closing.line values
  | list closing elements =>
      rw [evaluate]
      exact (ih.evaluateAll elements).bind fun values => steady_withStore fun _ => .refl _

theorem evaluateAll_steady (es : List Expr) : Steady false (evaluateAll (fuel + 1) es) := by
  cases es with
  | nil =>
      rw [evaluateAll]
      exact .pure _
  | cons e es =>
      rw [evaluateAll]
      apply (ih.evaluate e).bind
      intro value
      exact (ih.evaluateAll es).bind fun values => .pure _

theorem call_steady (function : Value) (line : Nat) (arguments : List Value) :
    Steady false (call (fuel + 1) function line arguments) := by
  cases function with
  | function closure =>
      rw [call]
      exact (steady_checkArity _ _ _).bind fun _ => ih.invoke closure arguments
  | native native =>
      rw [call]
      exact (steady_checkArity _ _ _).bind fun _ => steady_callNative line native arguments
  | classValue cls =>
      rw [call]
      apply (steady_checkArity _ _ _).bind
      intro _
      apply (steady_withStore fun _ => .refl _).bind
      intro object
      split
      · apply (steady_withStore fun store => store.keeps_bind _ object).bind
        intro initializer
        exact (ih.invoke initializer arguments).bind fun _ => .pure _
      · exact .pure _
  | nil | truth _ | number _ | text _ | object _ _ | list _ =>
      rw [call]
      · exact steady_fail _ _
      all_goals simp

theorem invoke_steady (closure : Closure) (arguments : List Value) :
    Steady false (invoke (fuel + 1) closure arguments) := by
  rw [invoke, ← bind_assoc]
  apply (steady_enter closure arguments (ih.executeAll _)).bind
  intro flow
  split
  · exact fun machine => .refl machine
  · cases flow with
    | normal => exact .pure _
    | returned value => exact .pure _
    | left line => exact steady_fail _ _

theorem execute_steady (s : Stmt) : Steady true (execute (fuel + 1) s) := by
  rcases s with value | value | ⟨name, _ | initializer⟩ | body |
    ⟨condition, thenBranch, _ | elseBranch⟩ | ⟨condition, body⟩ | keyword | declaration |
    ⟨keyword, _ | value⟩ | ⟨name, methods⟩ <;>
    rw [execute]
  case expression =>
    exact (ih.evaluate value).widen.bind fun _ => .pure _
  case print =>
    apply (ih.evaluate value).widen.bind
    intro result
    exact (steady_printLine result).bind fun _ => .pure _
  case declare.none =>
    exact (steady_define _ _).bind fun _ => .pure _
  case declare.some =>
    apply (ih.evaluate initializer).widen.bind
    intro value
    exact (steady_define _ _).bind fun _ => .pure _
  case block =>
    exact steady_enterBlock (ih.executeAll body)
  case branch.none =>
    apply (ih.evaluate condition).widen.bind
    intro value
    split
    · exact ih.execute thenBranch
    · exact .pure _
  case branch.some =>
    apply (ih.evaluate condition).widen.bind
    intro value
    split
    · exact ih.execute thenBranch
    · exact ih.execute elseBranch
  case loop => exact ih.loop condition body
  case leave => exact .pure _
  case function =>
    apply Steady.bind (fun machine => .refl machine)
    intro machine
    apply (steady_withStore fun _ => .refl _).bind
    intro closure
    exact (steady_define _ _).bind fun _ => .pure _
  case giveBack.none => exact .pure _
  case giveBack.some => exact (ih.evaluate value).widen.bind fun _ => .pure _
  case classDecl =>
    apply Steady.bind (fun machine => .refl machine)
    intro machine
    refine (steady_withStore fun store => ?_).bind fun cls => ?_
    · rw [Store.frames_newClass]
      exact .refl _
    · exact (steady_define _ _).bind fun _ => .pure _

theorem executeAll_steady (ss : List Stmt) : Steady true (executeAll (fuel + 1) ss) := by
  cases ss with
  | nil =>
      rw [executeAll]
      exact .pure _
  | cons s ss =>
      rw [executeAll]
      apply (ih.execute s).bind
      intro flow
      cases flow with
      | normal => exact ih.executeAll ss
      | returned value => exact .pure _
      | left line => exact .pure _

theorem loop_steady (condition : Expr) (body : Stmt) :
    Steady true (loop (fuel + 1) condition body) := by
  rw [loop]
  apply (ih.evaluate condition).widen.bind
  intro value
  split
  · apply (ih.execute body).bind
    intro flow
    cases flow with
    | normal => exact ih.loop condition body
    | returned value => exact .pure _
    | left line => exact .pure _
  · exact .pure _

end Step

theorem steadyRuns (fuel : Nat) : SteadyRuns fuel := by
  induction fuel with
  | zero => exact steadyRuns_zero
  | succ fuel ih =>
      exact {
        evaluate := evaluate_steady ih
        evaluateAll := evaluateAll_steady ih
        call := call_steady ih
        invoke := invoke_steady ih
        execute := execute_steady ih
        executeAll := executeAll_steady ih
        loop := loop_steady ih }

/-- A statement of a program is steady, also if its value is printed. -/
theorem steady_executeTop (fuel : Nat) (echo : Bool) (s : Stmt) :
    Steady true (executeTop fuel echo s) := by
  have hexecute := (steadyRuns fuel).execute s
  cases s with
  | expression value =>
      cases echo with
      | false => exact hexecute
      | true =>
          apply ((steadyRuns fuel).evaluate value).widen.bind
          intro result
          exact (steady_printLine result).bind fun _ => .pure _
  | print _ | declare _ _ | block _ | branch _ _ _ | loop _ _ | leave _ | function _
  | giveBack _ _ | classDecl _ _ => exact hexecute

/-- The run of a program gives names to the frame in which it begins alone. -/
theorem steady_run (fuel : Nat) (echo : Bool) (ss : List Stmt) :
    Steady true (run fuel echo ss) := by
  induction ss with
  | nil => exact .pure ()
  | cons s ss ih =>
      apply (steady_executeTop fuel echo s).bind
      intro flow
      cases flow with
      | normal => exact ih
      | returned value => exact steady_fail _ _
      | left line => exact steady_fail _ _

end Lox.Machine
