import Lox.Proofs.Machine.Enduring

/-!
# What endures while a program runs

Whatever a machine runs, and however the run ends, no instance is met before it is
made, and all frames that were there at a moment keep their receivers.
-/

namespace Lox

open Machine

variable {given : Prop} {machine : Machine} {count : Nat}

/-- What a statement gives back has been made. -/
def Flow.Made (count : Nat) : Flow → Prop
  | returned value => value.Made count
  | _ => True

theorem Value.applyUnary_made {operator : Kind} {operand value : Value}
    (h : operand.applyUnary operator = .ok value) : value.Made count := by
  unfold Value.applyUnary at h
  repeat' split at h
  all_goals first
    | cases h; trivial
    | cases h

theorem Value.applyBinary_made {operator : Kind} {left right value : Value}
    (h : left.applyBinary operator right = .ok value) : value.Made count := by
  unfold Value.applyBinary Value.add Value.onNumbers at h
  repeat' split at h
  all_goals first
    | cases h; trivial
    | cases h

/-! ## Properties -/

/-- A property that is a method is bound to its object at a moment of its own. -/
theorem Machine.Endures.property {fuel : Nat} {object : Value} {name : Token} (h : machine.Made)
    (hobject : object.Made machine.store.fields.size) :
    Endures given machine.store Value.Made (binding fuel object name.lexeme machine)
      (property object name machine) := by
  cases object with
  | object cls id =>
      rw [property_eq name machine (.inl ⟨cls, id, rfl⟩)]
      cases hfield : machine.store.field? id name.lexeme with
      | some value =>
          rw [Store.property_field hfield]
          simp only [binding, hfield]
          exact .value_now h (h.fields id name.lexeme value hfield)
      | none =>
          cases hmethod : cls.methods[name.lexeme]? with
          | none =>
              rw [Store.property_missing hfield hmethod]
              simp only [binding, hfield, hmethod]
              exact .error_now h
          | some method =>
              rw [Store.property_method hfield hmethod]
              simp only [binding, hfield, hmethod]
              have hbound : ({ machine with
                  store := (machine.store.bind method (.object cls id)).2 } : Machine).Made :=
                Store.All.bind h method hobject
              exact .cons_bind h hobject (.value_now hbound trivial)
  | list id =>
      rw [property_eq name machine (.inr ⟨id, rfl⟩)]
      simp only [Store.property]
      cases Builtin.listMethod? name.lexeme with
      | none => exact .error_now h
      | some builtin =>
          exact .ok ⟨h.frames, h.lists, h.fields⟩ le_rfl (fun _ => .refl _) trivial
  | nil | truth _ | number _ | text _ | function _ | native _ | classValue _ =>
      exact .error_now h

/-! ## Runs -/

/-- What endures in everything that is run with the given fuel. -/
structure EnduringRuns (fuel : Nat) : Prop where
  evaluate {given : Prop} {machine : Machine} (e : Expr) (h : machine.Made) :
    Endures given machine.store Value.Made (moments fuel (.expr e) machine)
      (evaluate fuel e machine)
  evaluateAll {given : Prop} {machine : Machine} (es : List Expr) (h : machine.Made) :
    Endures given machine.store Value.AllMade (moments fuel (.exprs es) machine)
      (evaluateAll fuel es machine)
  call {given : Prop} {machine : Machine} {function : Value} {line : Nat} {arguments : List Value}
    (h : machine.Made) (hfunction : function.Made machine.store.fields.size)
    (harguments : Value.AllMade machine.store.fields.size arguments) :
    Endures given machine.store Value.Made (moments fuel (.call function line arguments) machine)
      (call fuel function line arguments machine)
  invoke {given : Prop} {machine : Machine} {closure : Closure} {arguments : List Value}
    (h : machine.Made) (harguments : Value.AllMade machine.store.fields.size arguments) :
    Endures given machine.store Value.Made (moments fuel (.invoke closure arguments) machine)
      (invoke fuel closure arguments machine)
  execute {given : Prop} {machine : Machine} (s : Stmt) (h : machine.Made) :
    Endures given machine.store Flow.Made (moments fuel (.stmt s) machine)
      (execute fuel s machine)
  executeAll {given : Prop} {machine : Machine} (ss : List Stmt) (h : machine.Made) :
    Endures given machine.store Flow.Made (moments fuel (.stmts ss) machine)
      (executeAll fuel ss machine)
  loop {given : Prop} {machine : Machine} (condition : Expr) (body : Stmt) (h : machine.Made) :
    Endures given machine.store Flow.Made (moments fuel (.loop condition body) machine)
      (loop fuel condition body machine)

theorem enduringRuns_zero : EnduringRuns 0 where
  evaluate _ h := .error_now h
  evaluateAll _ h := .error_now h
  call h _ _ := .error_now h
  invoke h _ := .error_now h
  execute _ h := .error_now h
  executeAll _ h := .error_now h
  loop _ _ h := .error_now h

section Step

variable {fuel : Nat} (ih : EnduringRuns fuel)
include ih

theorem evaluate_enduring (e : Expr) (h : machine.Made) :
    Endures given machine.store Value.Made (moments (fuel + 1) (.expr e) machine)
      (evaluate (fuel + 1) e machine) := by
  refine .cons_task ⟨h, trivial⟩ trivial ?_
  cases e with
  | literal value =>
      refine .value_now h ?_
      cases value <;> trivial
  | grouping inner => exact ih.evaluate inner h
  | unary operator operand =>
      rw [evaluate]
      apply (ih.evaluate operand h).bind_step
      intro value after h' _ _
      exact .ofExcept h' fun _ hvalue => Value.applyUnary_made hvalue
  | binary left operator right =>
      rw [evaluate]
      apply (ih.evaluate left h).bind
      intro leftValue after h' _ _
      apply (ih.evaluate right h').bind_step
      intro rightValue after' h'' _ _
      exact .ofExcept h'' fun _ hvalue => Value.applyBinary_made hvalue
  | logical left operator right =>
      rw [evaluate]
      apply (ih.evaluate left h).bind
      intro value after h' _ hvalue
      by_cases hshort : value.isTruthy == operator.is .orWord
      · simp only [hshort, if_true]
        exact .value_now h' hvalue
      · simp only [hshort]
        exact ih.evaluate right h'
  | reference id name => exact .lookup id name h
  | receiver id keyword => exact .lookup id keyword h
  | assign id name value =>
      rw [evaluate]
      apply (ih.evaluate value h).bind_step
      intro result after h' _ hresult
      apply (Endures.assign h' (fun hgiven => hgiven.2.ne_this rfl) hresult).bind_step
      intro _ after' h'' _ hresult'
      exact .value_now h'' hresult'
  | get object name =>
      rw [evaluate]
      apply (ih.evaluate object h).bind
      intro value after h' _ hvalue
      exact .property h' hvalue
  | set object name value =>
      rw [evaluate]
      apply (ih.evaluate object h).bind
      intro target after h' _ _
      cases target with
      | object cls id =>
          apply (ih.evaluate value h').bind_step
          intro field after' h'' _ hfield
          have hsize : (after'.store.setField id name.lexeme field).fields.size =
              after'.store.fields.size := Array.size_modify
          have hstored {given : Prop} :
              Endures given after'.store (fun count _ => field.Made count) []
                (withStore (fun store => ((), store.setField id name.lexeme field)) after') :=
            .withStore rfl hsize.ge (hsize ▸ h''.setField id name.lexeme hfield) (hsize ▸ hfield)
          apply hstored.bind_step
          intro _ after'' hlast _ hfield'
          exact .value_now hlast hfield'
      | nil | truth _ | number _ | text _ | function _ | native _ | classValue _ | list _ =>
          exact .error_now h'
  | call callee closing arguments =>
      rw [evaluate]
      apply (ih.evaluate callee h).bind
      intro function after h' _ hfunction
      apply (ih.evaluateAll arguments h').bind
      intro values after' h'' hgrows hvalues
      exact ih.call h'' (hfunction.mono hgrows) hvalues
  | list closing elements =>
      rw [evaluate]
      apply (ih.evaluateAll elements h).bind_step
      intro values after h' _ hvalues
      have helements : ∀ value ∈ values.toArray, value.Made after.store.fields.size :=
        fun value hvalue => hvalues value (by simpa using hvalue)
      exact .withStore rfl le_rfl (h'.newList helements) trivial

theorem evaluateAll_enduring (es : List Expr) (h : machine.Made) :
    Endures given machine.store Value.AllMade (moments (fuel + 1) (.exprs es) machine)
      (evaluateAll (fuel + 1) es machine) := by
  refine .cons_task ⟨h, trivial⟩ trivial ?_
  cases es with
  | nil => exact .value_now h (List.forall_mem_nil _)
  | cons e es =>
      rw [evaluateAll]
      apply (ih.evaluate e h).bind
      intro value after h' _ hvalue
      apply (ih.evaluateAll es h').bind_step
      intro values after' h'' hgrows hvalues
      exact .value_now h'' (List.forall_mem_cons.2 ⟨hvalue.mono hgrows, hvalues⟩)

theorem call_enduring {function : Value} {line : Nat} {arguments : List Value}
    (h : machine.Made) (hfunction : function.Made machine.store.fields.size)
    (harguments : Value.AllMade machine.store.fields.size arguments) :
    Endures given machine.store Value.Made
      (moments (fuel + 1) (.call function line arguments) machine)
      (call (fuel + 1) function line arguments machine) := by
  refine .cons_task ⟨h, hfunction, harguments⟩ trivial ?_
  cases function with
  | function closure =>
      rw [call]
      apply (Endures.checkArity h).step_bind
      intro _ after h' hgrows _
      exact ih.invoke h' (harguments.mono hgrows)
  | native native =>
      rw [call]
      apply (Endures.checkArity h).bind_step
      intro _ after h' hgrows _
      exact .callNative h' (harguments.mono hgrows)
  | classValue cls =>
      rw [call]
      apply (Endures.checkArity h).step_bind
      intro _ checked h' hgrows _
      have hsize : (checked.store.newInstance cls).2.fields.size =
          checked.store.fields.size + 1 := Array.size_push ..
      have hmore : checked.store.fields.size ≤ (checked.store.newInstance cls).2.fields.size := by
        rw [hsize]
        exact Nat.le_succ _
      have hcreated {given : Prop} : Endures given checked.store
          (fun count object => object.Made count ∧ Value.AllMade count arguments)
          [] (withStore (·.newInstance cls) checked) := by
        refine .withStore rfl hmore ?_ ⟨⟨?_, hfunction⟩, harguments.mono (hgrows.trans hmore)⟩
        · exact (Store.All.newInstance h' cls).mono fun _ hvalue => hvalue.mono hmore
        · rw [hsize]
          exact Nat.lt_succ_self _
      apply hcreated.step_bind
      rintro object after h'' - ⟨hobject, harguments'⟩
      cases hinitializer : cls.initializer? with
      | none => exact .value_now h'' hobject
      | some method =>
          let bound : Machine := { after with store := (after.store.bind method object).2 }
          have hbound : bound.Made := Store.All.bind h'' method hobject
          refine .cons_bind h'' hobject ?_
          apply (ih.invoke hbound harguments').bind_step
          intro _ after' hlast hgrows' _
          exact .value_now hlast (hobject.mono hgrows')
  | nil | truth _ | number _ | text _ | object _ _ | list _ => exact .error_now h

theorem invoke_enduring {closure : Closure} {arguments : List Value} (h : machine.Made)
    (harguments : Value.AllMade machine.store.fields.size arguments) :
    Endures given machine.store Value.Made
      (moments (fuel + 1) (.invoke closure arguments) machine)
      (invoke (fuel + 1) closure arguments machine) := by
  let frames := bindAll machine.store.frames.size closure.declaration.parameters arguments
    (machine.store.frames.child closure.frame).2
  let entered : Machine := { machine with store.frames := frames }
  have hinside : ({ entered with current := machine.store.frames.size } : Machine).Made :=
    all_bindAll harguments (h.newFrame closure.frame)
  have hgrows : machine.store.fields.size ≤ entered.store.fields.size := le_rfl
  have hretains : machine.store.frames.Retains entered.store.frames :=
    (Frames.Retains.child ..).bindAll le_rfl
  have hopens : entered.store.frames.enclosing? machine.store.frames.size =
      some closure.frame := by
    rw [enclosing?_bindAll, Frames.enclosing?_child, if_pos rfl]
  rw [invoke, bind_of_ok (enter_eq closure arguments machine)]
  have hmoment : Moment.Made ⟨fuel + 1, .invoke closure arguments, machine⟩ := ⟨h, harguments⟩
  refine .cons hmoment (List.Subset.refl _) hgrows hretains hopens ?_
  have hbody {given : Prop} : Endures given entered.store Flow.Made _
      (within machine.store.frames.size (executeAll fuel closure.declaration.body) entered) :=
    .within (ih.executeAll closure.declaration.body hinside)
  apply hbody.bind_step
  intro flow after h' _ hflow
  split
  · refine .value_now h' ?_
    cases hthis : after.store.frames.get? closure.frame "this" with
    | none => trivial
    | some this => exact h'.frames _ _ this hthis
  · cases flow with
    | normal => exact .value_now h' trivial
    | returned value => exact .value_now h' hflow
    | left line => exact .error_now h'

theorem block_enduring (body : List Stmt) (h : machine.Made) :
    Endures given machine.store Flow.Made (moments (fuel + 1) (.stmt (.block body)) machine)
      (execute (fuel + 1) (.block body) machine) := by
  let entered : Machine := { machine with
    store.frames := (machine.store.frames.child machine.current).2 }
  have hinside : ({ entered with current := machine.store.frames.size } : Machine).Made :=
    h.newFrame machine.current
  have hgrows : machine.store.fields.size ≤ entered.store.fields.size := le_rfl
  have hretains : machine.store.frames.Retains entered.store.frames := .child ..
  have hopens : entered.store.frames.enclosing? machine.store.frames.size =
      some machine.current := by
    rw [Frames.enclosing?_child, if_pos rfl]
  rw [execute, bind_of_ok (enterBlock_eq machine)]
  have hmoment : Moment.Made ⟨fuel + 1, .stmt (.block body), machine⟩ := ⟨h, trivial⟩
  refine .cons hmoment (List.Subset.refl _) hgrows hretains hopens ?_
  exact .within (ih.executeAll body hinside)

theorem execute_enduring (s : Stmt) (h : machine.Made) :
    Endures given machine.store Flow.Made (moments (fuel + 1) (.stmt s) machine)
      (execute (fuel + 1) s machine) := by
  rcases s with value | value | ⟨name, _ | initializer⟩ | body |
    ⟨condition, thenBranch, _ | elseBranch⟩ | ⟨condition, body⟩ | keyword | declaration |
    ⟨keyword, _ | value⟩ | ⟨name, declarations⟩
  case block => exact block_enduring ih body h
  all_goals
    refine .cons_task ⟨h, trivial⟩ trivial ?_
    rw [execute]
  case expression =>
    apply (ih.evaluate value h).bind_step
    intro _ after h' _ _
    exact .value_now h' trivial
  case print =>
    apply (ih.evaluate value h).bind_step
    intro result after h' _ _
    apply (Endures.printLine h').bind_step
    intro _ after' h'' _ _
    exact .value_now h'' trivial
  case declare.none =>
    have hnil : Value.nil.Made machine.store.fields.size := trivial
    apply (Endures.define h (fun hgiven => hgiven.2.ne_this rfl) hnil).bind_step
    intro _ after h' _ _
    exact .value_now h' trivial
  case declare.some =>
    apply (ih.evaluate initializer h).bind_step
    intro value after h' _ hvalue
    apply (Endures.define h' (fun hgiven => hgiven.2.ne_this rfl) hvalue).bind_step
    intro _ after' h'' _ _
    exact .value_now h'' trivial
  case branch.none =>
    apply (ih.evaluate condition h).bind
    intro value after h' _ _
    by_cases htruthy : value.isTruthy
    · simp only [htruthy, if_true]
      exact ih.execute thenBranch h'
    · simp only [htruthy]
      exact .value_now h' trivial
  case branch.some =>
    apply (ih.evaluate condition h).bind
    intro value after h' _ _
    by_cases htruthy : value.isTruthy
    · simp only [htruthy, if_true]
      exact ih.execute thenBranch h'
    · simp only [htruthy]
      exact ih.execute elseBranch h'
  case loop => exact ih.loop condition body h
  case leave => exact .value_now h trivial
  case function =>
    let made := machine.store.newClosure declaration machine.current false
    have hmade : ({ machine with store := made.2 } : Machine).Made :=
      ⟨h.frames, h.lists, h.fields⟩
    have hclosure : (Value.function made.1).Made made.2.fields.size := trivial
    have hname : given ∧ Moment.Plain ⟨fuel + 1, .stmt (.function declaration), machine⟩ →
        declaration.name.lexeme ≠ "this" := fun hgiven => hgiven.2.ne_this rfl
    have hdefined := Endures.define hmade hname hclosure
    have hgrows : machine.store.fields.size ≤ made.2.fields.size := le_rfl
    exact (hdefined.since hgrows fun _ => .refl _).bind_step
      fun _ _ h' _ _ => .value_now h' trivial
  case giveBack.none => exact .value_now h trivial
  case giveBack.some =>
    apply (ih.evaluate value h).bind_step
    intro result after h' _ hresult
    exact .value_now h' hresult
  case classDecl =>
    let made := machine.store.newClass name.lexeme declarations machine.current
    have hframes : made.2.frames = machine.store.frames := Store.frames_newClass ..
    have hfields : made.2.fields.size = machine.store.fields.size :=
      congrArg Array.size (Store.fields_newClass ..)
    have hmade : ({ machine with store := made.2 } : Machine).Made :=
      (Store.All.newClass h name.lexeme declarations machine.current).mono
        fun _ hvalue => hvalue.mono hfields.ge
    have hcls : (Value.classValue made.1).Made made.2.fields.size :=
      machine.store.named_newClass name.lexeme declarations machine.current
    have hname : given ∧ Moment.Plain ⟨fuel + 1, .stmt (.classDecl name declarations), machine⟩ →
        name.lexeme ≠ "this" := fun hgiven => hgiven.2.ne_this rfl
    have hdefined := Endures.define hmade hname hcls
    exact (hdefined.since hfields.ge fun _ => hframes ▸ .refl _).bind_step
      fun _ _ h' _ _ => .value_now h' trivial

theorem executeAll_enduring (ss : List Stmt) (h : machine.Made) :
    Endures given machine.store Flow.Made (moments (fuel + 1) (.stmts ss) machine)
      (executeAll (fuel + 1) ss machine) := by
  refine .cons_task ⟨h, trivial⟩ trivial ?_
  cases ss with
  | nil => exact .value_now h trivial
  | cons s ss =>
      rw [executeAll]
      apply (ih.execute s h).bind
      intro flow after h' _ hflow
      cases flow with
      | normal => exact ih.executeAll ss h'
      | returned value => exact .value_now h' hflow
      | left line => exact .value_now h' trivial

theorem loop_enduring (condition : Expr) (body : Stmt) (h : machine.Made) :
    Endures given machine.store Flow.Made (moments (fuel + 1) (.loop condition body) machine)
      (loop (fuel + 1) condition body machine) := by
  refine .cons_task ⟨h, trivial⟩ trivial ?_
  rw [loop]
  apply (ih.evaluate condition h).bind
  intro value after h' _ _
  by_cases htruthy : value.isTruthy
  · simp only [htruthy, if_true]
    apply (ih.execute body h').bind
    intro flow after' h'' _ hflow
    cases flow with
    | normal => exact ih.loop condition body h''
    | returned result => exact .value_now h'' hflow
    | left line => exact .value_now h'' trivial
  · simp only [htruthy]
    exact .value_now h' trivial

end Step

theorem enduringRuns (fuel : Nat) : EnduringRuns fuel := by
  induction fuel with
  | zero => exact enduringRuns_zero
  | succ fuel ih =>
      exact {
        evaluate := evaluate_enduring ih
        evaluateAll := evaluateAll_enduring ih
        call := call_enduring ih
        invoke := invoke_enduring ih
        execute := execute_enduring ih
        executeAll := executeAll_enduring ih
        loop := loop_enduring ih }

theorem executeTop_enduring (fuel : Nat) (echo : Bool) (s : Stmt) (h : machine.Made) :
    Endures given machine.store Flow.Made (topMoments fuel echo s machine)
      (executeTop fuel echo s machine) := by
  have hexecute {given : Prop} : Endures given machine.store Flow.Made _ _ :=
    (enduringRuns fuel).execute s h
  cases s with
  | expression value =>
      cases echo with
      | false => exact hexecute
      | true =>
          apply ((enduringRuns fuel).evaluate value h).bind_step
          intro result after h' _ _
          apply (Endures.printLine h').bind_step
          intro _ after' h'' _ _
          exact .value_now h'' trivial
  | print _ | declare _ _ | block _ | branch _ _ _ | loop _ _ | leave _ | function _
  | giveBack _ _ | classDecl _ _ => exact hexecute

theorem run_enduring (fuel : Nat) (echo : Bool) (ss : List Stmt) (h : machine.Made) :
    Endures given machine.store (fun _ _ => True) (runMoments fuel echo ss machine)
      (run fuel echo ss machine) := by
  induction ss generalizing machine with
  | nil => exact .value_now h trivial
  | cons s ss ih =>
      rw [run]
      apply (executeTop_enduring fuel echo s h).bind
      intro flow after h' _ _
      cases flow with
      | normal => exact ih h'
      | left line => exact .error_now h'
      | returned value => exact .error_now h'

end Lox
