import Lox.Evaluation
import Lox.Proofs.Frame
import Lox.Proofs.Scope.Site

/-!
# The moments of a run

A run goes through moments: each is something that the machine begins to do,
with its state at that time.  They are listed in the order in which they come.
Every frame but that of the globals is made at a moment of one of three kinds,
and is labelled with the region of the program that it is made for; the labels
of a run are listed in the order in which the frames are made, which is the
order of their numbers.
-/

namespace Lox

/-- What the machine can begin to do. -/
inductive Task where
  | expr (e : Expr)
  | exprs (es : List Expr)
  | call (function : Value) (line : Nat) (arguments : List Value)
  | bind (method : Closure) (this : Value)
  | invoke (closure : Closure) (arguments : List Value)
  | stmt (s : Stmt)
  | stmts (ss : List Stmt)
  | loop (condition : Expr) (body : Stmt)

/-- What the machine begins to do with the given fuel, and its state then. -/
structure Moment where
  fuel : Nat
  task : Task
  machine : Machine

namespace Moment

/-- The region for which a frame is made at this moment. -/
def region? (moment : Moment) : Option Region :=
  match moment.task with
  | .stmt (.block body) => some (.block body)
  | .invoke closure _ => some (.function closure.declaration)
  | .bind method _ => some (.classBody method.declaration)
  | _ => none

/-- The labels of the frames that are made at the moments. -/
def labels (moments : List Moment) : List Region :=
  moments.filterMap region?

/-- The number of the frame that is made at this moment, if one is. -/
def frame (moment : Moment) : FrameId :=
  moment.machine.store.frames.size

/-- The frames that are made at the moments have consecutive numbers. -/
def Numbered : FrameId → List Moment → Prop
  | _, [] => True
  | next, moment :: moments =>
    (moment.region?.isSome → moment.frame = next) ∧
      Numbered (next + moment.region?.toList.length) moments

theorem numbered_append {next : FrameId} {first second : List Moment} :
    Numbered next (first ++ second) ↔
      Numbered next first ∧ Numbered (next + (labels first).length) second := by
  induction first generalizing next with
  | nil => simp [Numbered, labels]
  | cons moment first ih =>
      have hlength : (labels (moment :: first)).length =
          moment.region?.toList.length + (labels first).length := by
        cases hregion : moment.region? <;> simp [labels, hregion, Nat.add_comm]
      rw [hlength, List.cons_append, Numbered, Numbered, ih, and_assoc, Nat.add_assoc]

end Moment

/-- The label of a frame; that of the globals, which is number 0, has none. -/
def labelOf (labels : List Region) : FrameId → Option Region
  | 0 => none
  | frame + 1 => labels[frame]?

namespace Machine

variable {α : Type}

/-- The moments after a computation, which there are only if it succeeds. -/
def following (result : EStateM.Result Halt Machine α) (next : α → Machine → List Moment) :
    List Moment :=
  match result with
  | .ok value machine => next value machine
  | .error _ _ => []

/-- The moment at which a property is bound to its object, if it is a method. -/
def binding (fuel : Nat) (object : Value) (name : String) (machine : Machine) : List Moment :=
  match object with
  | .object cls id =>
    match machine.store.field? id name, cls.methods[name]? with
    | none, some method => [⟨fuel, .bind method object, machine⟩]
    | _, _ => []
  | _ => []

end Machine

open Machine

/-- The moments inside a task that is carried out with one more than the given
fuel; `inner` lists those of the tasks that it consists of. -/
def Task.inside (fuel : Nat) (inner : Task → Machine → List Moment) :
    Task → Machine → List Moment
  | expr (.literal _), _ | expr (.reference _ _), _ | expr (.receiver _ _), _ => []
  | expr (.grouping e), machine => inner (expr e) machine
  | expr (.unary _ operand), machine => inner (expr operand) machine
  | expr (.binary left _ right), machine =>
    inner (expr left) machine ++
      following (evaluate fuel left machine) fun _ machine => inner (expr right) machine
  | expr (.logical left operator right), machine =>
    inner (expr left) machine ++
      following (evaluate fuel left machine) fun value machine =>
        if value.isTruthy == operator.is .orWord then [] else inner (expr right) machine
  | expr (.assign _ _ value), machine => inner (expr value) machine
  | expr (.get object name), machine =>
    inner (expr object) machine ++
      following (evaluate fuel object machine) fun value machine =>
        binding fuel value name.lexeme machine
  | expr (.set object _ value), machine =>
    inner (expr object) machine ++
      following (evaluate fuel object machine) fun target machine =>
        match target with
        | .object _ _ => inner (expr value) machine
        | _ => []
  | expr (.call callee closing arguments), machine =>
    inner (expr callee) machine ++
      following (evaluate fuel callee machine) fun function machine =>
        inner (exprs arguments) machine ++
          following (evaluateAll fuel arguments machine) fun values machine =>
            inner (call function closing.line values) machine
  | expr (.list _ elements), machine => inner (exprs elements) machine
  | exprs [], _ => []
  | exprs (e :: es), machine =>
    inner (expr e) machine ++
      following (evaluate fuel e machine) fun _ machine => inner (exprs es) machine
  | call (.function closure) line arguments, machine =>
    following (checkArity line closure.arity arguments.length machine) fun _ machine =>
      inner (invoke closure arguments) machine
  | call (.classValue cls) line arguments, machine =>
    following (checkArity line cls.arity arguments.length machine) fun _ machine =>
      following (withStore (·.newInstance cls) machine) fun object machine =>
        match cls.initializer? with
        | some method =>
          ⟨fuel, bind method object, machine⟩ ::
            following (withStore (·.bind method object) machine) fun initializer machine =>
              inner (invoke initializer arguments) machine
        | none => []
  | call _ _ _, _ => []
  | bind _ _, _ => []
  | invoke closure arguments, machine =>
    following (enter closure arguments machine) fun frame machine =>
      inner (stmts closure.declaration.body) { machine with current := frame }
  | stmt (.expression value), machine => inner (expr value) machine
  | stmt (.print value), machine => inner (expr value) machine
  | stmt (.declare _ none), _ => []
  | stmt (.declare _ (some initializer)), machine => inner (expr initializer) machine
  | stmt (.block body), machine =>
    following (enterBlock machine) fun frame machine =>
      inner (stmts body) { machine with current := frame }
  | stmt (.branch condition thenBranch elseBranch), machine =>
    inner (expr condition) machine ++
      following (evaluate fuel condition machine) fun value machine =>
        if value.isTruthy then inner (stmt thenBranch) machine
        else
          match elseBranch with
          | some s => inner (stmt s) machine
          | none => []
  | stmt (.loop condition body), machine => inner (loop condition body) machine
  | stmt (.leave _), _ | stmt (.function _), _ | stmt (.classDecl _ _), _ => []
  | stmt (.giveBack _ none), _ => []
  | stmt (.giveBack _ (some value)), machine => inner (expr value) machine
  | stmts [], _ => []
  | stmts (s :: ss), machine =>
    inner (stmt s) machine ++
      following (execute fuel s machine) fun flow machine =>
        match flow with
        | .normal => inner (stmts ss) machine
        | _ => []
  | loop condition body, machine =>
    inner (expr condition) machine ++
      following (evaluate fuel condition machine) fun value machine =>
        if value.isTruthy then
          inner (stmt body) machine ++
            following (execute fuel body machine) fun flow machine =>
              match flow with
              | .normal => inner (loop condition body) machine
              | _ => []
        else []

/-- The moments of a task, itself the first; without fuel it is not begun. -/
def moments : Nat → Task → Machine → List Moment
  | 0, _, _ => []
  | fuel + 1, task, machine =>
    ⟨fuel + 1, task, machine⟩ :: task.inside fuel (moments fuel) machine

/-- The moments of a statement of a program. -/
def topMoments (fuel : Nat) (echo : Bool) (s : Stmt) (machine : Machine) : List Moment :=
  match s with
  | .expression e =>
    if echo then moments fuel (.expr e) machine
    else moments fuel (.stmt (.expression e)) machine
  | s => moments fuel (.stmt s) machine

/-- The moments of the run of a program. -/
def runMoments (fuel : Nat) (echo : Bool) : List Stmt → Machine → List Moment
  | [], _ => []
  | s :: ss, machine =>
    topMoments fuel echo s machine ++
      following (executeTop fuel echo s machine) fun flow machine =>
        match flow with
        | .normal => runMoments fuel echo ss machine
        | _ => []

end Lox
