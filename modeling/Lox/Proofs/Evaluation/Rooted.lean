import Lox.Proofs.Machine.Rooted

/-!
# Evaluation keeps machines rooted

Whatever tree a rooted machine runs, and however the run ends, every moment on
the way is that of a rooted machine, and so is the machine in the end.
-/

namespace Lox

open Machine

variable {machine : Machine} {size : Nat}

/-- What a statement gives back belongs to the machine. -/
def Flow.Rooted (size : Nat) : Flow → Prop
  | returned value => value.Rooted size
  | _ => True

theorem Value.applyUnary_rooted {operator : Kind} {operand value : Value}
    (h : operand.applyUnary operator = .ok value) : value.Rooted size := by
  unfold Value.applyUnary at h
  repeat' split at h
  all_goals first
    | cases h; trivial
    | cases h

theorem Value.applyBinary_rooted {operator : Kind} {left right value : Value}
    (h : left.applyBinary operator right = .ok value) : value.Rooted size := by
  unfold Value.applyBinary Value.add Value.onNumbers at h
  repeat' split at h
  all_goals first
    | cases h; trivial
    | cases h

/-! ## New frames -/

namespace Machine.Rooted

/-- Binding a method makes a frame inside that of the method. -/
theorem bind {method : Closure} {this : Value} (h : machine.Rooted)
    (hmethod : method.frame < machine.store.frames.size)
    (hthis : this.Rooted machine.store.frames.size) :
    ({ machine with store := (machine.store.bind method this).2 } : Machine).Rooted ∧
      (machine.store.bind method this).2.frames.size = machine.store.frames.size + 1 := by
  have hsize : (machine.store.bind method this).2.frames.size =
      machine.store.frames.size + 1 := by
    simp [Store.frames_bind]
  have hvalues := (h.values.mono fun value hvalue => hvalue.mono (Nat.le_succ _)).bind method
    (hthis.mono (Nat.le_succ _))
  refine ⟨⟨?_, h.globals, ?_, ?_⟩, hsize⟩
  · exact (h.frames.child hmethod).define ..
  · rw [hsize]
    exact Nat.lt_succ_of_lt h.current
  · rw [hsize]
    exact hvalues

/-- A block has a frame inside the current one. -/
theorem enterBlock (h : machine.Rooted) :
    ({ machine with
      store.frames := (machine.store.frames.child machine.current).2
      current := machine.store.frames.size } : Machine).Rooted := by
  have hsize := Frames.size_child machine.store.frames machine.current
  refine ⟨h.frames.child h.current, h.globals, ?_, ?_⟩
  · rw [hsize]
    exact Nat.lt_succ_self _
  · rw [hsize]
    exact (h.values.mono fun value hvalue => hvalue.mono (Nat.le_succ _)).newFrame machine.current

/-- A call has a frame inside that of the function. -/
theorem enter {closure : Closure} {arguments : List Value} (h : machine.Rooted)
    (hclosure : closure.frame < machine.store.frames.size)
    (harguments : Value.AllRooted machine.store.frames.size arguments) :
    ({ machine with
      store.frames := bindAll machine.store.frames.size closure.declaration.parameters arguments
        (machine.store.frames.child closure.frame).2
      current := machine.store.frames.size } : Machine).Rooted := by
  have hsize : (bindAll machine.store.frames.size closure.declaration.parameters arguments
      (machine.store.frames.child closure.frame).2).size = machine.store.frames.size + 1 := by
    rw [size_bindAll, Frames.size_child]
  have hvalues := (h.values.mono fun value hvalue => hvalue.mono (Nat.le_succ _)).newFrame
    closure.frame
  refine ⟨(h.frames.child hclosure).bindAll, h.globals, ?_, ?_⟩
  · rw [hsize]
    exact Nat.lt_succ_self _
  · rw [hsize]
    exact all_bindAll (harguments.mono (Nat.le_succ _)) hvalues

theorem newClosure (declaration : FunctionDecl) (h : machine.Rooted) :
    let made := machine.store.newClosure declaration machine.current false
    ({ machine with store := made.2 } : Machine).Rooted ∧
      (Value.function made.1).Rooted made.2.frames.size :=
  ⟨⟨h.frames, h.globals, h.current, h.values.frames, h.values.lists, h.values.fields⟩, h.current⟩

/-- The methods of a class belong to the current frame. -/
theorem newClass (name : String) (declarations : List FunctionDecl) (h : machine.Rooted) :
    let made := machine.store.newClass name declarations machine.current
    ({ machine with store := made.2 } : Machine).Rooted ∧
      (Value.classValue made.1).Rooted made.2.frames.size := by
  intro made
  have hframes : made.2.frames = machine.store.frames := Store.frames_newClass ..
  have hvalues : made.2.All (Value.Rooted machine.store.frames.size) := h.values.newClass ..
  refine ⟨⟨hframes ▸ h.frames, h.globals, hframes ▸ h.current, hframes ▸ hvalues⟩, ?_⟩
  intro methodName method hmethod
  obtain ⟨-, -, -, hframe, -⟩ := Store.methods_newClass hmethod
  rw [hframe, hframes]
  exact h.current

end Machine.Rooted

/-- A property that is a method is bound to its object at a moment of its own. -/
theorem Machine.Roots.property {fuel : Nat} {object : Value} {name : Token} (h : machine.Rooted)
    (hobject : object.Rooted machine.store.frames.size) :
    Roots machine.store.frames.size Value.Rooted (binding fuel object name.lexeme machine)
      (property object name machine) := by
  cases object with
  | object cls id =>
      rw [property_eq name machine (.inl ⟨cls, id, rfl⟩)]
      cases hfield : machine.store.field? id name.lexeme with
      | some value =>
          rw [Store.property_field hfield]
          simp only [binding, hfield]
          exact .ok h le_rfl (h.values.fields id name.lexeme value hfield)
      | none =>
          cases hmethod : cls.methods[name.lexeme]? with
          | none =>
              rw [Store.property_missing hfield hmethod]
              simp only [binding, hfield, hmethod]
              exact .error h le_rfl
          | some method =>
              rw [Store.property_method hfield hmethod]
              simp only [binding, hfield, hmethod]
              have hframe := hobject name.lexeme method hmethod
              obtain ⟨hafter, hsize⟩ := h.bind hframe hobject
              refine .cons ⟨h, hframe, hobject⟩ (.ok hafter ?_ ?_)
              · rw [hsize]
                exact Nat.le_succ _
              · rw [hsize]
                exact Nat.lt_succ_self _
  | list id =>
      rw [property_eq name machine (.inr ⟨id, rfl⟩)]
      simp only [Store.property]
      cases Builtin.listMethod? name.lexeme with
      | none => exact .error h le_rfl
      | some builtin =>
          refine .ok ⟨h.frames, h.globals, h.current, ?_⟩ le_rfl trivial
          exact ⟨h.values.frames, h.values.lists, h.values.fields⟩
  | nil | truth _ | number _ | text _ | function _ | native _ | classValue _ =>
      exact .error h le_rfl

/-! ## Runs -/

/-- Everything that a rooted machine runs with the given fuel keeps it rooted. -/
structure RootedRuns (fuel : Nat) : Prop where
  evaluate {machine : Machine} (e : Expr) (h : machine.Rooted) :
    Roots machine.store.frames.size Value.Rooted (moments fuel (.expr e) machine)
      (evaluate fuel e machine)
  evaluateAll {machine : Machine} (es : List Expr) (h : machine.Rooted) :
    Roots machine.store.frames.size Value.AllRooted (moments fuel (.exprs es) machine)
      (evaluateAll fuel es machine)
  call {machine : Machine} {function : Value} {line : Nat} {arguments : List Value}
    (h : machine.Rooted) (hfunction : function.Rooted machine.store.frames.size)
    (harguments : Value.AllRooted machine.store.frames.size arguments) :
    Roots machine.store.frames.size Value.Rooted
      (moments fuel (.call function line arguments) machine)
      (call fuel function line arguments machine)
  invoke {machine : Machine} {closure : Closure} {arguments : List Value} (h : machine.Rooted)
    (hclosure : closure.frame < machine.store.frames.size)
    (harguments : Value.AllRooted machine.store.frames.size arguments) :
    Roots machine.store.frames.size Value.Rooted
      (moments fuel (.invoke closure arguments) machine) (invoke fuel closure arguments machine)
  execute {machine : Machine} (s : Stmt) (h : machine.Rooted) :
    Roots machine.store.frames.size Flow.Rooted (moments fuel (.stmt s) machine)
      (execute fuel s machine)
  executeAll {machine : Machine} (ss : List Stmt) (h : machine.Rooted) :
    Roots machine.store.frames.size Flow.Rooted (moments fuel (.stmts ss) machine)
      (executeAll fuel ss machine)
  loop {machine : Machine} (condition : Expr) (body : Stmt) (h : machine.Rooted) :
    Roots machine.store.frames.size Flow.Rooted (moments fuel (.loop condition body) machine)
      (loop fuel condition body machine)

theorem rootedRuns_zero : RootedRuns 0 where
  evaluate _ h := .error h le_rfl
  evaluateAll _ h := .error h le_rfl
  call h _ _ := .error h le_rfl
  invoke h _ _ := .error h le_rfl
  execute _ h := .error h le_rfl
  executeAll _ h := .error h le_rfl
  loop _ _ h := .error h le_rfl

section Step

variable {fuel : Nat} (ih : RootedRuns fuel)
include ih

theorem evaluate_rooted (e : Expr) (h : machine.Rooted) :
    Roots machine.store.frames.size Value.Rooted (moments (fuel + 1) (.expr e) machine)
      (evaluate (fuel + 1) e machine) := by
  refine .cons ⟨h, trivial⟩ ?_
  cases e with
  | literal value =>
      refine .ok h le_rfl ?_
      cases value <;> trivial
  | grouping inner => exact ih.evaluate inner h
  | unary operator operand =>
      rw [evaluate]
      apply (ih.evaluate operand h).bind_step
      intro value after h' _ _
      exact .ofExcept h' fun _ hvalue => Value.applyUnary_rooted hvalue
  | binary left operator right =>
      rw [evaluate]
      apply (ih.evaluate left h).bind
      intro leftValue after h' _ _
      apply (ih.evaluate right h').bind_step
      intro rightValue after' h'' _ _
      exact .ofExcept h'' fun _ hvalue => Value.applyBinary_rooted hvalue
  | logical left operator right =>
      rw [evaluate]
      apply (ih.evaluate left h).bind
      intro value after h' _ hvalue
      by_cases hshort : value.isTruthy == operator.is .orWord
      · simp only [hshort, if_true]
        exact .ok h' le_rfl hvalue
      · simp only [hshort]
        exact ih.evaluate right h'
  | reference id name => exact .lookup id name h
  | receiver id keyword => exact .lookup id keyword h
  | assign id name value =>
      rw [evaluate]
      apply (ih.evaluate value h).bind_step
      intro result after h' _ hresult
      apply (Roots.assign h' hresult).bind_step
      intro _ after' h'' hgrows _
      exact .ok h'' le_rfl (hresult.mono hgrows)
  | get object name =>
      rw [evaluate]
      apply (ih.evaluate object h).bind
      intro value after h' _ hvalue
      exact .property h' hvalue
  | set object name value =>
      rw [evaluate]
      apply (ih.evaluate object h).bind
      intro target after h' _ _
      cases target with
      | object cls id =>
          apply (ih.evaluate value h').bind_step
          intro field after' h'' _ hfield
          have hstored : Roots after'.store.frames.size (fun _ _ => True) []
              (withStore (fun store => ((), store.setField id name.lexeme field)) after') :=
            .withStore h'' rfl (h''.values.setField id name.lexeme hfield) trivial
          apply hstored.bind_step
          intro _ after'' hlast hgrows _
          exact .ok hlast le_rfl (hfield.mono hgrows)
      | nil | truth _ | number _ | text _ | function _ | native _ | classValue _ | list _ =>
          exact .error h' le_rfl
  | call callee closing arguments =>
      rw [evaluate]
      apply (ih.evaluate callee h).bind
      intro function after h' _ hfunction
      apply (ih.evaluateAll arguments h').bind
      intro values after' h'' hgrows hvalues
      exact ih.call h'' (hfunction.mono hgrows) hvalues
  | list closing elements =>
      rw [evaluate]
      apply (ih.evaluateAll elements h).bind_step
      intro values after h' _ hvalues
      have helements : ∀ value ∈ values.toArray, value.Rooted after.store.frames.size :=
        fun value hvalue => hvalues value (by simpa using hvalue)
      exact .withStore h' rfl (h'.values.newList helements) trivial

theorem evaluateAll_rooted (es : List Expr) (h : machine.Rooted) :
    Roots machine.store.frames.size Value.AllRooted (moments (fuel + 1) (.exprs es) machine)
      (evaluateAll (fuel + 1) es machine) := by
  refine .cons ⟨h, trivial⟩ ?_
  cases es with
  | nil => exact .ok h le_rfl (List.forall_mem_nil _)
  | cons e es =>
      rw [evaluateAll]
      apply (ih.evaluate e h).bind
      intro value after h' _ hvalue
      apply (ih.evaluateAll es h').bind_step
      intro values after' h'' hgrows hvalues
      exact .ok h'' le_rfl (List.forall_mem_cons.2 ⟨hvalue.mono hgrows, hvalues⟩)

theorem call_rooted {function : Value} {line : Nat} {arguments : List Value}
    (h : machine.Rooted) (hfunction : function.Rooted machine.store.frames.size)
    (harguments : Value.AllRooted machine.store.frames.size arguments) :
    Roots machine.store.frames.size Value.Rooted
      (moments (fuel + 1) (.call function line arguments) machine)
      (call (fuel + 1) function line arguments machine) := by
  refine .cons ⟨h, hfunction, harguments⟩ ?_
  cases function with
  | function closure =>
      rw [call]
      apply (Roots.checkArity h).step_bind
      intro _ after h' hgrows _
      exact ih.invoke h' (Nat.lt_of_lt_of_le hfunction hgrows) (harguments.mono hgrows)
  | native native =>
      rw [call]
      apply (Roots.checkArity h).bind_step
      intro _ after h' hgrows _
      exact .callNative h' (harguments.mono hgrows)
  | classValue cls =>
      rw [call]
      apply (Roots.checkArity h).step_bind
      intro _ checked h' hgrows _
      have hcls := Value.Rooted.mono hfunction hgrows
      have hcreated : Roots checked.store.frames.size
          (fun size object => object.Rooted size ∧ (Value.classValue cls).Rooted size ∧
            Value.AllRooted size arguments)
          [] (withStore (·.newInstance cls) checked) :=
        .withStore h' rfl (h'.values.newInstance cls) ⟨hcls, hcls, harguments.mono hgrows⟩
      apply hcreated.step_bind
      rintro object after h'' - ⟨hobject, hcls', harguments'⟩
      cases hinitializer : cls.initializer? with
      | none => exact .ok h'' le_rfl hobject
      | some method =>
          have hmethod := hcls' _ method hinitializer
          obtain ⟨hbound, hsize⟩ := h''.bind hmethod hobject
          have hmore : after.store.frames.size ≤
              (after.store.bind method object).2.frames.size := by
            rw [hsize]
            exact Nat.le_succ _
          have hclosure : (after.store.bind method object).1.frame <
              (after.store.bind method object).2.frames.size := by
            rw [hsize]
            exact Nat.lt_succ_self _
          refine .cons ⟨h'', hmethod, hobject⟩ ?_
          refine ((ih.invoke hbound hclosure (harguments'.mono hmore)).widen hmore).bind_step ?_
          intro _ after' hlast hgrows' _
          exact .ok hlast le_rfl (hobject.mono hgrows')
  | nil | truth _ | number _ | text _ | object _ _ | list _ => exact .error h le_rfl

theorem invoke_rooted {closure : Closure} {arguments : List Value} (h : machine.Rooted)
    (hclosure : closure.frame < machine.store.frames.size)
    (harguments : Value.AllRooted machine.store.frames.size arguments) :
    Roots machine.store.frames.size Value.Rooted
      (moments (fuel + 1) (.invoke closure arguments) machine)
      (invoke (fuel + 1) closure arguments machine) := by
  refine .cons ⟨h, hclosure, harguments⟩ ?_
  have hentered := h.enter hclosure harguments
  have hmore : machine.store.frames.size ≤
      (bindAll machine.store.frames.size closure.declaration.parameters arguments
        (machine.store.frames.child closure.frame).2).size := by
    rw [size_bindAll, Frames.size_child]
    exact Nat.le_succ _
  let entered : Machine := { machine with
    store.frames := bindAll machine.store.frames.size closure.declaration.parameters arguments
      (machine.store.frames.child closure.frame).2 }
  have hbody : Roots machine.store.frames.size Flow.Rooted _
      (within machine.store.frames.size (executeAll fuel closure.declaration.body) entered) :=
    .within h.current ((ih.executeAll closure.declaration.body hentered).widen hmore)
  rw [invoke, bind_of_ok (enter_eq closure arguments machine)]
  apply hbody.bind_step
  intro flow after h' _ hflow
  split
  · refine .ok h' le_rfl ?_
    cases hthis : after.store.frames.get? closure.frame "this" with
    | none => trivial
    | some this => exact h'.values.frames _ _ this hthis
  · cases flow with
    | normal => exact .ok h' le_rfl trivial
    | returned value => exact .ok h' le_rfl hflow
    | left line => exact .error h' le_rfl

theorem block_rooted (body : List Stmt) (h : machine.Rooted) :
    Roots machine.store.frames.size Flow.Rooted (moments fuel (.stmts body)
      { machine with
        store.frames := (machine.store.frames.child machine.current).2
        current := machine.store.frames.size })
      ((enterBlock >>= fun frame => within frame (executeAll fuel body)) machine) := by
  have hmore : machine.store.frames.size ≤
      (machine.store.frames.child machine.current).2.size := by
    rw [Frames.size_child]
    exact Nat.le_succ _
  rw [bind_of_ok (enterBlock_eq machine)]
  exact .within h.current ((ih.executeAll body h.enterBlock).widen hmore)

theorem execute_rooted (s : Stmt) (h : machine.Rooted) :
    Roots machine.store.frames.size Flow.Rooted (moments (fuel + 1) (.stmt s) machine)
      (execute (fuel + 1) s machine) := by
  refine .cons ⟨h, trivial⟩ ?_
  rcases s with value | value | ⟨name, _ | initializer⟩ | body |
    ⟨condition, thenBranch, _ | elseBranch⟩ | ⟨condition, body⟩ | keyword | declaration |
    ⟨keyword, _ | value⟩ | ⟨name, declarations⟩ <;>
    rw [execute]
  case expression =>
    apply (ih.evaluate value h).bind_step
    intro _ after h' _ _
    exact .ok h' le_rfl trivial
  case print =>
    apply (ih.evaluate value h).bind_step
    intro result after h' _ _
    apply (Roots.printLine h').bind_step
    intro _ after' h'' _ _
    exact .ok h'' le_rfl trivial
  case declare.none =>
    have hnil : Value.nil.Rooted machine.store.frames.size := trivial
    apply (Roots.define h hnil).bind_step
    intro _ after h' _ _
    exact .ok h' le_rfl trivial
  case declare.some =>
    apply (ih.evaluate initializer h).bind_step
    intro value after h' _ hvalue
    apply (Roots.define h' hvalue).bind_step
    intro _ after' h'' _ _
    exact .ok h'' le_rfl trivial
  case block => exact block_rooted ih body h
  case branch.none =>
    apply (ih.evaluate condition h).bind
    intro value after h' _ _
    by_cases htruthy : value.isTruthy
    · simp only [htruthy, if_true]
      exact ih.execute thenBranch h'
    · simp only [htruthy]
      exact .ok h' le_rfl trivial
  case branch.some =>
    apply (ih.evaluate condition h).bind
    intro value after h' _ _
    by_cases htruthy : value.isTruthy
    · simp only [htruthy, if_true]
      exact ih.execute thenBranch h'
    · simp only [htruthy]
      exact ih.execute elseBranch h'
  case loop => exact ih.loop condition body h
  case leave => exact .ok h le_rfl trivial
  case function =>
    obtain ⟨hmade, hclosure⟩ := h.newClosure declaration
    exact (Roots.define hmade hclosure).bind_step fun _ _ h' _ _ => .ok h' le_rfl trivial
  case giveBack.none => exact .ok h le_rfl trivial
  case giveBack.some =>
    apply (ih.evaluate value h).bind_step
    intro result after h' _ hresult
    exact .ok h' le_rfl hresult
  case classDecl =>
    obtain ⟨hmade, hcls⟩ := h.newClass name.lexeme declarations
    have hframes : (machine.store.newClass name.lexeme declarations machine.current).2.frames =
        machine.store.frames := Store.frames_newClass ..
    exact ((Roots.define hmade hcls).widen (congrArg Frames.size hframes).ge).bind_step
      fun _ _ h' _ _ => .ok h' le_rfl trivial

theorem executeAll_rooted (ss : List Stmt) (h : machine.Rooted) :
    Roots machine.store.frames.size Flow.Rooted (moments (fuel + 1) (.stmts ss) machine)
      (executeAll (fuel + 1) ss machine) := by
  refine .cons ⟨h, trivial⟩ ?_
  cases ss with
  | nil => exact .ok h le_rfl trivial
  | cons s ss =>
      rw [executeAll]
      apply (ih.execute s h).bind
      intro flow after h' _ hflow
      cases flow with
      | normal => exact ih.executeAll ss h'
      | returned value => exact .ok h' le_rfl hflow
      | left line => exact .ok h' le_rfl trivial

theorem loop_rooted (condition : Expr) (body : Stmt) (h : machine.Rooted) :
    Roots machine.store.frames.size Flow.Rooted (moments (fuel + 1) (.loop condition body) machine)
      (loop (fuel + 1) condition body machine) := by
  refine .cons ⟨h, trivial⟩ ?_
  rw [loop]
  apply (ih.evaluate condition h).bind
  intro value after h' _ _
  by_cases htruthy : value.isTruthy
  · simp only [htruthy, if_true]
    apply (ih.execute body h').bind
    intro flow after' h'' _ hflow
    cases flow with
    | normal => exact ih.loop condition body h''
    | returned result => exact .ok h'' le_rfl hflow
    | left line => exact .ok h'' le_rfl trivial
  · simp only [htruthy]
    exact .ok h' le_rfl trivial

end Step

theorem rootedRuns (fuel : Nat) : RootedRuns fuel := by
  induction fuel with
  | zero => exact rootedRuns_zero
  | succ fuel ih =>
      exact {
        evaluate := evaluate_rooted ih
        evaluateAll := evaluateAll_rooted ih
        call := call_rooted ih
        invoke := invoke_rooted ih
        execute := execute_rooted ih
        executeAll := executeAll_rooted ih
        loop := loop_rooted ih }

theorem executeTop_rooted (fuel : Nat) (echo : Bool) (s : Stmt) (h : machine.Rooted) :
    Roots machine.store.frames.size Flow.Rooted (topMoments fuel echo s machine)
      (executeTop fuel echo s machine) := by
  have hexecute := (rootedRuns fuel).execute s h
  cases s with
  | expression value =>
      cases echo with
      | false => exact hexecute
      | true =>
          apply ((rootedRuns fuel).evaluate value h).bind_step
          intro result after h' _ _
          apply (Roots.printLine h').bind_step
          intro _ after' h'' _ _
          exact .ok h'' le_rfl trivial
  | print _ | declare _ _ | block _ | branch _ _ _ | loop _ _ | leave _ | function _
  | giveBack _ _ | classDecl _ _ => exact hexecute

theorem run_rooted (fuel : Nat) (echo : Bool) (ss : List Stmt) (h : machine.Rooted) :
    Roots machine.store.frames.size (fun _ _ => True) (runMoments fuel echo ss machine)
      (run fuel echo ss machine) := by
  induction ss generalizing machine with
  | nil => exact .ok h le_rfl trivial
  | cons s ss ih =>
      rw [run]
      apply (executeTop_rooted fuel echo s h).bind
      intro flow after h' _ _
      cases flow with
      | normal => exact ih h'
      | left line => exact .error h' le_rfl
      | returned value => exact .error h' le_rfl

end Lox
