import Lox.Proofs.Evaluation.Moments
import Lox.Proofs.Evaluation.Steady

/-!
# The moments of a statement itself

Some moments of a statement belong to functions that it calls; its own moments are
those at which the statements that it consists of begin.  At each of them the machine
is in a frame inside the one in which the statement has begun.  A function that is
made then finds the names of that frame at a fixed distance from its own, whatever
the machine does afterwards.
-/

namespace Lox

namespace Frames

variable {before middle after frames : Frames} {frame outer : FrameId}

/-- Frames may have been added and names given values, but all that was there is. -/
structure Grows (before after : Frames) : Prop where
  size : before.size ≤ after.size
  enclosing? (frame : FrameId) (h : frame < before.size) :
    after.enclosing? frame = before.enclosing? frame
  binds (frame : FrameId) (name : String) (h : before.Binds frame name) : after.Binds frame name

theorem Keeps.grows {gaining? : Option FrameId} (h : Keeps gaining? before after) :
    Grows before after :=
  ⟨h.size, h.enclosing?, h.binds⟩

namespace Grows

theorem refl (frames : Frames) : Grows frames frames :=
  ⟨le_rfl, fun _ _ => rfl, fun _ _ h => h⟩

theorem trans (hfirst : Grows before middle) (hsecond : Grows middle after) :
    Grows before after where
  size := Nat.le_trans hfirst.size hsecond.size
  enclosing? frame h :=
    (hsecond.enclosing? frame (Nat.lt_of_lt_of_le h hfirst.size)).trans (hfirst.enclosing? frame h)
  binds frame name h := hsecond.binds frame name (hfirst.binds frame name h)

/-- What is around a frame stays around it. -/
theorem ancestor? (h : Grows before after) {distance : Nat}
    (hancestor : before.ancestor? distance frame = some outer) :
    after.ancestor? distance frame = some outer := by
  induction distance generalizing frame with
  | zero => exact hancestor
  | succ distance ih =>
      obtain ⟨around, henclosing, hancestor⟩ := Option.bind_eq_some_iff.1 hancestor
      have hsame := h.enclosing? frame (lt_size_of_enclosing? henclosing)
      rw [Frames.ancestor?, hsame, henclosing]
      exact ih hancestor

end Grows

/-- From the second frame one gets to the first along the frames around it. -/
def Inside (frames : Frames) (outer frame : FrameId) : Prop :=
  ∃ distance, frames.ancestor? distance frame = some outer

theorem Inside.refl (frames : Frames) (frame : FrameId) : frames.Inside frame frame :=
  ⟨0, rfl⟩

theorem Inside.trans {around : FrameId} (houter : frames.Inside outer around)
    (hframe : frames.Inside around frame) : frames.Inside outer frame := by
  obtain ⟨rest, houter⟩ := houter
  obtain ⟨distance, hframe⟩ := hframe
  refine ⟨distance + rest, ?_⟩
  rw [ancestor?_add, hframe]
  exact houter

theorem Inside.grow (h : frames.Inside outer frame) (hgrows : Grows frames after) :
    after.Inside outer frame :=
  h.imp fun _ => hgrows.ancestor?

theorem inside_child (frames : Frames) (frame : FrameId) :
    (frames.child frame).2.Inside frame frames.size := by
  refine ⟨1, ?_⟩
  rw [ancestor?, enclosing?_child, if_pos rfl]
  rfl

end Frames

/-! ## Inside a frame -/

/-- The machine has come to a frame inside the one in which it was. -/
structure Machine.Around (before after : Machine) : Prop where
  frames : before.store.frames.Grows after.store.frames
  inside : after.store.frames.Inside before.current after.current

namespace Machine.Around

variable {before middle after : Machine}

theorem refl (machine : Machine) : machine.Around machine :=
  ⟨.refl _, .refl _ _⟩

theorem trans (hfirst : before.Around middle) (hsecond : middle.Around after) :
    before.Around after :=
  ⟨hfirst.frames.trans hsecond.frames, (hfirst.inside.grow hsecond.frames).trans hsecond.inside⟩

theorem of_keeps {gaining? : Option FrameId} (h : before.Keeps gaining? after) :
    before.Around after :=
  ⟨h.frames.grows, h.current ▸ .refl _ _⟩

theorem of_steady {α : Type} {declares : Bool} {part : Exec α} {result : α}
    (h : Exec.Steady declares part) (hresult : part before = .ok result after) :
    before.Around after := by
  have hkeeps := h before
  rw [hresult] at hkeeps
  exact .of_keeps hkeeps

theorem block (machine : Machine) :
    machine.Around { machine with
      store.frames := (machine.store.frames.child machine.current).2,
      current := machine.store.frames.size } :=
  ⟨(Frames.keeps_child _ _).grows, Frames.inside_child _ _⟩

end Machine.Around

/-! ## Own moments -/

open Machine

/-- Whether statements are run by the task. -/
def Task.isStatement : Task → Bool
  | stmt _ | stmts _ | loop _ _ => true
  | _ => false

/-- The moments at which the statements begin that a task consists of. -/
def ownMoments : Nat → Task → Machine → List Moment
  | 0, _, _ => []
  | fuel + 1, task, machine =>
    if task.isStatement then
      ⟨fuel + 1, task, machine⟩ :: task.inside fuel (ownMoments fuel) machine
    else []

@[simp]
theorem ownMoments_expr (fuel : Nat) (e : Expr) (machine : Machine) :
    ownMoments fuel (.expr e) machine = [] := by
  cases fuel <;> rfl

theorem mem_following {α : Type} {result : EStateM.Result Halt Machine α}
    {next : α → Machine → List Moment} {moment : Moment} :
    moment ∈ following result next ↔
      ∃ value after, result = .ok value after ∧ moment ∈ next value after := by
  cases result <;> simp [following]

/-- What a statement begins is begun in a frame inside that of the statement; it is
the same whichever moments of it are listed. -/
theorem Task.mem_inside {task : Task} (hstatement : task.isStatement) {fuel : Nat}
    {inner : Task → Machine → List Moment} {machine : Machine} {moment : Moment}
    (h : moment ∈ task.inside fuel inner machine) :
    ∃ (task' : Task) (machine' : Machine), machine.Around machine' ∧
      moment ∈ inner task' machine' ∧
      ∀ inner' : Task → Machine → List Moment,
        inner' task' machine' ⊆ task.inside fuel inner' machine := by
  have hsteady := steadyRuns fuel
  rcases task with e | es | _ | _ | _ | s | ss | ⟨condition, body⟩
  case stmt =>
    rcases s with value | value | ⟨name, _ | initializer⟩ | body |
      ⟨condition, thenBranch, elseBranch⟩ | ⟨condition, body⟩ | keyword | declaration |
      ⟨keyword, _ | value⟩ | ⟨name, methods⟩
    case expression | print | declare.some | giveBack.some | loop =>
      exact ⟨_, _, .refl machine, h, fun _ => List.Subset.refl _⟩
    case declare.none | leave | function | giveBack.none | classDecl => cases h
    case block =>
      exact ⟨_, _, .block machine, h, fun _ => List.Subset.refl _⟩
    case branch =>
      rcases List.mem_append.1 h with h | h
      · exact ⟨_, _, .refl machine, h, fun _ => List.subset_append_left _ _⟩
      obtain ⟨value, after, hvalue, h⟩ := mem_following.1 h
      have haround := Around.of_steady (hsteady.evaluate condition) hvalue
      simp only [Task.inside, hvalue, following]
      split at h
      · rename_i htruthy
        refine ⟨_, _, haround, h, fun _ => ?_⟩
        rw [if_pos htruthy]
        exact List.subset_append_right _ _
      · rename_i htruthy
        cases elseBranch with
        | none => cases h
        | some s =>
            refine ⟨_, _, haround, h, fun _ => ?_⟩
            rw [if_neg htruthy]
            exact List.subset_append_right _ _
  case stmts =>
    cases ss with
    | nil => cases h
    | cons s ss =>
        rcases List.mem_append.1 h with h | h
        · exact ⟨_, _, .refl machine, h, fun _ => List.subset_append_left _ _⟩
        obtain ⟨flow, after, hflow, h⟩ := mem_following.1 h
        simp only [Task.inside, hflow, following]
        cases flow with
        | normal =>
            exact ⟨_, _, .of_steady (hsteady.execute s) hflow, h,
              fun _ => List.subset_append_right _ _⟩
        | returned _ | left _ => cases h
  case loop =>
    rcases List.mem_append.1 h with h | h
    · exact ⟨_, _, .refl machine, h, fun _ => List.subset_append_left _ _⟩
    obtain ⟨value, tested, hvalue, h⟩ := mem_following.1 h
    have haround := Around.of_steady (hsteady.evaluate condition) hvalue
    simp only [Task.inside, hvalue, following]
    split at h
    · rename_i htruthy
      simp only [htruthy, if_true]
      rcases List.mem_append.1 h with h | h
      · exact ⟨_, _, haround, h, fun _ => List.Subset.trans (List.subset_append_left _ _)
          (List.subset_append_right _ _)⟩
      obtain ⟨flow, after, hflow, h⟩ := mem_following.1 h
      simp only [hflow]
      cases flow with
      | normal =>
          exact ⟨_, _, haround.trans (.of_steady (hsteady.execute body) hflow), h,
            fun _ => List.Subset.trans (List.subset_append_right _ _)
              (List.subset_append_right _ _)⟩
      | returned _ | left _ => cases h
    · cases h
  all_goals cases hstatement

section OwnMoments

variable {fuel : Nat} {task : Task} {machine : Machine} {moment : Moment}

theorem ownMoments_around (h : moment ∈ ownMoments fuel task machine) :
    machine.Around moment.machine := by
  induction fuel generalizing task machine with
  | zero => cases h
  | succ fuel ih =>
      rw [ownMoments] at h
      split at h
      · rename_i hstatement
        rcases List.mem_cons.1 h with rfl | h
        · exact .refl machine
        · obtain ⟨_, _, haround, h, -⟩ := Task.mem_inside hstatement h
          exact haround.trans (ih h)
      · cases h

/-- A statement goes through its own moments. -/
theorem ownMoments_subset : ownMoments fuel task machine ⊆ moments fuel task machine := by
  intro moment h
  induction fuel generalizing task machine with
  | zero => cases h
  | succ fuel ih =>
      rw [ownMoments] at h
      split at h
      · rename_i hstatement
        rcases List.mem_cons.1 h with rfl | h
        · exact List.mem_cons_self
        · obtain ⟨_, _, -, h, hsubset⟩ := Task.mem_inside hstatement h
          exact List.mem_cons_of_mem _ (hsubset _ (ih h))
      · cases h

end OwnMoments

/-! ## Functions that are made -/

/-- The function is made at this moment: it is declared then, or it is a method of a
class that is declared then. -/
inductive Moment.Makes : Moment → Closure → Prop where
  | function (fuel : Nat) (declaration : FunctionDecl) (machine : Machine) :
    Makes ⟨fuel, .stmt (.function declaration), machine⟩
      (machine.store.newClosure declaration machine.current false).1
  | method {name : Token} {methods : List FunctionDecl} {key : String} {method : Closure}
    (fuel : Nat) (machine : Machine)
    (h : (machine.store.newClass name.lexeme methods machine.current).1.methods[key]? =
      some method) :
    Makes ⟨fuel, .stmt (.classDecl name methods), machine⟩ method

theorem Moment.Makes.frame {moment : Moment} {closure : Closure} (h : moment.Makes closure) :
    closure.frame = moment.machine.current := by
  cases h with
  | function => rfl
  | method _ _ h =>
      obtain ⟨-, -, -, hframe, -⟩ := Store.methods_newClass h
      exact hframe

/-- At a fixed distance from its own frame the function finds the name in the frame
`owner`, in these frames and in all that come of them. -/
def Closure.Finds (closure : Closure) (frames : Frames) (name : String) (owner : FrameId) :
    Prop :=
  ∃ distance, ∀ later : Frames, frames.Grows later →
    (later.get? owner name).isSome ∧
      later.getAt? closure.frame distance name = later.get? owner name ∧
        ∀ value, later.assignAt closure.frame distance name value =
          (true, later.define owner name value)

theorem Closure.finds {closure : Closure} {frames : Frames} {name : String} {owner : FrameId}
    (hinside : frames.Inside owner closure.frame) (hbinds : frames.Binds owner name) :
    closure.Finds frames name owner := by
  obtain ⟨distance, hancestor⟩ := hinside
  refine ⟨distance, fun later hgrows => ?_⟩
  have hbound := hgrows.binds owner name hbinds
  have hsame := hgrows.ancestor? hancestor
  refine ⟨hbound, ?_, fun value => ?_⟩
  · rw [Frames.getAt?, hsame]
    rfl
  · rw [Frames.assignAt, hsame]
    exact if_pos hbound

/-! ## Loops -/

namespace Machine

variable {fuel : Nat} {machine after : Machine}

/-- A declaration goes on with the next statement, and the current frame has the
name. -/
theorem execute_declare {name : Token} {initializer : Option Expr} {flow : Flow}
    (hcurrent : machine.current < machine.store.frames.size)
    (h : execute fuel (.declare name initializer) machine = .ok flow after) :
    after.current = machine.current ∧ after.store.frames.Binds machine.current name.lexeme := by
  have hkeeps := (steadyRuns fuel).execute (.declare name initializer) machine
  rw [h] at hkeeps
  refine ⟨hkeeps.current, ?_⟩
  have hdefined (before : Machine) (value : Value)
      (hlt : before.current < before.store.frames.size)
      (h : (do define name.lexeme value; return Flow.normal : Exec Flow) before = .ok flow after) :
      after.store.frames.Binds before.current name.lexeme := by
    cases h
    simp [Frames.Binds, Frames.get?_define, hlt]
  cases fuel with
  | zero => cases h
  | succ fuel =>
      cases initializer with
      | none => exact hdefined machine .nil hcurrent h
      | some e =>
          rw [execute] at h
          obtain ⟨value, valued, hvalue, h⟩ := exists_of_bind_ok h
          have hsame := (steadyRuns fuel).evaluate e machine
          rw [hvalue] at hsame
          have hlt := Nat.lt_of_lt_of_le hcurrent hsame.frames.size
          rw [← show valued.current = machine.current from hsame.current] at hlt ⊢
          exact hdefined valued value hlt h

/-- A declaration of a variable makes no function itself. -/
theorem not_makes_declare {name : Token} {initializer : Option Expr} {moment : Moment}
    {closure : Closure} (h : moment ∈ ownMoments fuel (.stmt (.declare name initializer)) machine) :
    ¬ moment.Makes closure := by
  intro hmakes
  cases fuel with
  | zero => cases h
  | succ fuel =>
      rcases List.mem_cons.1 h with rfl | h
      · cases hmakes
      · cases initializer with
        | none => cases h
        | some e => simp [Task.inside] at h

/-- All functions that are made by a loop with a variable of its own find the variable
in the one frame that the loop has made for it. -/
theorem finds_forLoop {name : Token} {initializer : Option Expr} {condition : Option Expr}
    {increment : Option Expr} {body : Stmt} {moment : Moment} {closure : Closure}
    (hmoment : moment ∈ ownMoments fuel
      (.stmt (.forLoop (some (.declare name initializer)) condition increment body)) machine)
    (hmakes : moment.Makes closure) :
    closure.Finds moment.machine.store.frames name.lexeme machine.store.frames.size := by
  cases fuel with
  | zero => cases hmoment
  | succ fuel =>
      rcases List.mem_cons.1 hmoment with rfl | hmoment
      · cases hmakes
      -- The frame of the block is made; in it come the declaration and then the loop.
      simp only [Stmt.forLoop, Task.inside, enterBlock_eq, following] at hmoment
      cases fuel with
      | zero => cases hmoment
      | succ fuel =>
          rcases List.mem_cons.1 hmoment with rfl | hmoment
          · cases hmakes
          rcases List.mem_append.1 hmoment with hmoment | hmoment
          · exact absurd hmakes (not_makes_declare hmoment)
          · obtain ⟨flow, declared, hdeclared, hmoment⟩ := mem_following.1 hmoment
            obtain ⟨hcurrent, hbinds⟩ := execute_declare (by simp) hdeclared
            have haround : declared.Around moment.machine := by
              cases flow with
              | normal => exact ownMoments_around hmoment
              | returned _ | left _ => cases hmoment
            refine Closure.finds ?_ (haround.frames.binds _ _ hbinds)
            rw [hmakes.frame, ← show declared.current = machine.store.frames.size from hcurrent]
            exact haround.inside

/-- A function that is declared in the first round is made at a moment of the loop. -/
example (name : Token) (declaration : FunctionDecl) :
    ∃ moment ∈ ownMoments 9 (.stmt (.forLoop (some (.declare name none)) none none
      (.block [.function declaration]))) (.initial (fun _ => 0) {}),
      ∃ closure, moment.Makes closure := by
  have hmoment : (ownMoments 9 (.stmt (.forLoop (some (.declare name none)) none none
      (.block [.function declaration]))) (.initial (fun _ => 0) {}))[8]? =
      some ⟨2, .stmt (.function declaration), _⟩ := rfl
  exact ⟨_, List.mem_of_getElem? hmoment, _, .function _ _ _⟩

/-- A loop whose body is a block is left by its first statement: the others are not
run. -/
theorem loop_left {condition : Expr} {s : Stmt} {ss : List Stmt} {value : Value}
    {tested inside ended : Machine} {frame : FrameId} {line : Nat}
    (hcondition : evaluate (fuel + 2) condition machine = .ok value tested)
    (htruthy : value.isTruthy) (hinside : enterBlock tested = .ok frame inside)
    (hleft : execute fuel s { inside with current := frame } = .ok (.left line) ended) :
    loop (fuel + 3) condition (.block (s :: ss)) machine =
      .ok .normal { ended with current := inside.current } := by
  have hstatements : executeAll (fuel + 1) (s :: ss) { inside with current := frame } =
      .ok (.left line) ended := by
    rw [executeAll, bind_of_ok hleft]
    rfl
  have hblock : execute (fuel + 2) (.block (s :: ss)) tested =
      .ok (.left line) { ended with current := inside.current } := by
    rw [execute, bind_of_ok hinside, within, hstatements]
  rw [loop, bind_of_ok hcondition, if_pos htruthy, bind_of_ok hblock]
  rfl

end Machine

end Lox
