import Lox.Proofs.Evaluation.Steps

/-!
# Soundness of evaluation

Whatever a healthy machine runs at a place that the analysis has come to leaves
it healthy and within the scopes that the analysis has open there, and every
moment on the way is sound.  The induction is on the fuel; closures that are
called are sound because the store is.
-/

namespace Lox

open Machine

variable {programs : List Program} {labels : List Region} {machine : Machine}

/-- How a statement leaves the machine: within the given scopes, and in a way
that is allowed by what encloses it. -/
def Leaves (programs : List Program) (around : Surroundings) (regions : List Region)
    (scopes : List Scope) (labels : List Region) (flow : Flow) (machine : Machine) : Prop :=
  flow.Allowed programs machine.store.frames labels around ∧
    machine.Within labels regions scopes

/-- What everything ensures that is run with the given fuel. -/
structure SoundRuns (programs : List Program) (fuel : Nat) : Prop where
  evaluate {labels : List Region} {machine : Machine} {e : Expr} {site : Site}
    (hhealthy : machine.Healthy programs labels)
    (hplaced : machine.Placed programs labels (.expr e) site) :
    Ensures programs labels (Gives programs) (moments fuel (.expr e) machine)
      (evaluate fuel e machine)
  evaluateAll {labels : List Region} {machine : Machine} {es : List Expr} {site : Site}
    (hhealthy : machine.Healthy programs labels)
    (hplaced : machine.Placed programs labels (.exprs es) site) :
    Ensures programs labels (GivesAll programs) (moments fuel (.exprs es) machine)
      (evaluateAll fuel es machine)
  call {labels : List Region} {machine : Machine} {function : Value} {line : Nat}
    {arguments : List Value} (hhealthy : machine.Healthy programs labels)
    (hfunction : function.Sound programs machine.store.frames labels)
    (harguments : ∀ v ∈ arguments, v.Sound programs machine.store.frames labels) :
    Ensures programs labels (Gives programs)
      (moments fuel (.call function line arguments) machine)
      (call fuel function line arguments machine)
  invoke {labels : List Region} {machine : Machine} {closure : Closure}
    {arguments : List Value} (hhealthy : machine.Healthy programs labels)
    (hclosure : closure.Sound programs machine.store.frames labels)
    (harity : closure.arity = arguments.length)
    (harguments : ∀ v ∈ arguments, v.Sound programs machine.store.frames labels) :
    Ensures programs labels (Gives programs) (moments fuel (.invoke closure arguments) machine)
      (invoke fuel closure arguments machine)
  execute {labels : List Region} {machine : Machine} {s : Stmt} {site : Site}
    (hhealthy : machine.Healthy programs labels)
    (hplaced : machine.Placed programs labels (.stmt s) site) :
    Ensures programs labels
      (Leaves programs site.around site.regions (site.analysis.scopesAfter s.declared?))
      (moments fuel (.stmt s) machine) (execute fuel s machine)
  executeAll {labels : List Region} {machine : Machine} {ss : List Stmt} {site : Site}
    (hhealthy : machine.Healthy programs labels)
    (hplaced : machine.Placed programs labels (.stmts ss) site) :
    Ensures programs labels
      (fun labels flow after => flow.Allowed programs after.store.frames labels site.around)
      (moments fuel (.stmts ss) machine) (executeAll fuel ss machine)
  loop {labels : List Region} {machine : Machine} {condition : Expr} {body : Stmt}
    {site : Site} (hhealthy : machine.Healthy programs labels)
    (hplaced : machine.Placed programs labels (.stmt (.loop condition body)) site) :
    Ensures programs labels (Leaves programs site.around site.regions site.scopes)
      (moments fuel (.loop condition body) machine) (loop fuel condition body machine)

theorem soundRuns_zero : SoundRuns programs 0 where
  evaluate hhealthy _ := .error hhealthy trivial
  evaluateAll hhealthy _ := .error hhealthy trivial
  call hhealthy _ _ := .error hhealthy trivial
  invoke hhealthy _ _ _ := .error hhealthy trivial
  execute hhealthy _ := .error hhealthy trivial
  executeAll hhealthy _ := .error hhealthy trivial
  loop hhealthy _ := .error hhealthy trivial

/-! ## Operators -/

theorem Token.exists_symbol {token : Token} {symbols : List Symbol} (h : token.isAny symbols) :
    ∃ symbol ∈ symbols, token.kind = .symbol symbol := by
  obtain ⟨symbol, hmem, his⟩ := List.any_eq_true.1 h
  refine ⟨symbol, hmem, ?_⟩
  unfold Token.is at his
  split at his
  · rename_i other hother
    rw [hother, eq_of_beq his]
  · cases his

/-- The prefix operators that are parsed are known at run time. -/
theorem Value.applyUnary_sound {operator : Token} {operand : Value}
    (hoperator : operator.isAny Parser.negations) :
    (∀ value, operand.applyUnary operator.kind = .ok value →
        value.Sound programs machine.store.frames labels) ∧
      ∀ error, operand.applyUnary operator.kind = .error error → error.isInternal = false := by
  obtain ⟨symbol, hmem, hkind⟩ := Token.exists_symbol hoperator
  simp only [Parser.negations, List.mem_cons, List.not_mem_nil, or_false] at hmem
  rw [hkind]
  rcases hmem with rfl | rfl
  · simp [Value.applyUnary, Value.Sound]
  · cases operand <;> simp [Value.applyUnary, Value.Sound, RuntimeError.isInternal]

theorem Value.onNumbers_sound {operation : Float → Float → Value} {left right : Value}
    (hoperation : ∀ a b, (operation a b).Sound programs machine.store.frames labels) :
    (∀ value, Value.onNumbers operation left right = .ok value →
        value.Sound programs machine.store.frames labels) ∧
      ∀ error, Value.onNumbers operation left right = .error error →
        error.isInternal = false := by
  simp only [Value.onNumbers]
  split
  · simpa using hoperation _ _
  · simp [RuntimeError.isInternal]

theorem Value.add_sound {left right : Value} :
    (∀ value, left.add right = .ok value → value.Sound programs machine.store.frames labels) ∧
      ∀ error, left.add right = .error error → error.isInternal = false := by
  simp only [Value.add]
  split <;> simp [Value.Sound, RuntimeError.isInternal]

/-- The binary operators that are parsed are known at run time. -/
theorem Value.applyBinary_sound {operator : Token} {left right : Value}
    (hoperator : operator.isAny Level.strict) :
    (∀ value, left.applyBinary operator.kind right = .ok value →
        value.Sound programs machine.store.frames labels) ∧
      ∀ error, left.applyBinary operator.kind right = .error error →
        error.isInternal = false := by
  obtain ⟨symbol, hmem, hkind⟩ := Token.exists_symbol hoperator
  simp only [Level.strict, Level.all, List.filter, List.flatMap_cons,
    List.flatMap_nil, List.cons_append, List.nil_append, Bool.not_true, Bool.not_false,
    List.mem_cons, List.not_mem_nil, or_false] at hmem
  rw [hkind]
  rcases hmem with rfl | rfl | rfl | rfl | rfl | rfl | rfl | rfl | rfl | rfl
  case _ | _ => simp [Value.applyBinary, Value.Sound]
  all_goals first
    | exact Value.add_sound
    | exact Value.onNumbers_sound fun _ _ => trivial

section Step

variable {fuel : Nat} (ih : SoundRuns programs fuel)
include ih

theorem evaluate_sound {e : Expr} {site : Site} (hhealthy : machine.Healthy programs labels)
    (hplaced : machine.Placed programs labels (.expr e) site) :
    Ensures programs labels (Gives programs) (moments (fuel + 1) (.expr e) machine)
      (evaluate (fuel + 1) e machine) := by
  have hformed := (hplaced.fits hhealthy).formed
  refine .cons_plain rfl ⟨site, hplaced⟩ hhealthy ?_
  cases e with
  | literal value =>
      rw [evaluate]
      refine .ok hhealthy ?_
      cases value <;> trivial
  | grouping inner =>
      rw [evaluate]
      exact ih.evaluate hhealthy (hplaced.operand rfl List.mem_cons_self)
  | unary operator operand =>
      rw [evaluate]
      apply (ih.evaluate hhealthy (hplaced.operand rfl List.mem_cons_self)).bind_step
      intro labels' value after hlabels hresult hhealthy' hvalue
      obtain ⟨hok, herror⟩ := Value.applyUnary_sound hformed.1
      exact .ofExcept hhealthy' hok herror
  | binary left operator right =>
      rw [evaluate]
      apply (ih.evaluate hhealthy (hplaced.operand rfl List.mem_cons_self)).bind
      intro labels' leftValue after hlabels hresult hhealthy' hleft
      have hkeeps := ((steadyRuns fuel).evaluate left).ok hresult
      have hplaced' := hplaced.keep hkeeps hlabels
      refine (ih.evaluate hhealthy' (hplaced'.operand rfl
        (List.mem_cons_of_mem _ List.mem_cons_self))).bind_step ?_
      intro labels'' rightValue after' _ _ hhealthy'' _
      obtain ⟨hok, herror⟩ := Value.applyBinary_sound hformed.1
      exact .ofExcept hhealthy'' hok herror
  | logical left operator right =>
      rw [evaluate]
      apply (ih.evaluate hhealthy (hplaced.operand rfl List.mem_cons_self)).bind
      intro labels' leftValue after hlabels hresult hhealthy' hleft
      have hkeeps := ((steadyRuns fuel).evaluate left).ok hresult
      have hplaced' := hplaced.keep hkeeps hlabels
      by_cases hshort : leftValue.isTruthy == operator.is .orWord
      · simp only [hshort, if_true]
        exact .ok hhealthy' hleft
      · simp only [hshort]
        exact ih.evaluate hhealthy' (hplaced'.operand rfl
          (List.mem_cons_of_mem _ List.mem_cons_self))
  | reference id name =>
      rw [evaluate]
      exact .lookup id name hhealthy
  | receiver id keyword =>
      rw [evaluate]
      exact .lookup id keyword hhealthy
  | assign id name value =>
      rw [evaluate]
      apply (ih.evaluate hhealthy (hplaced.operand rfl List.mem_cons_self)).bind_step
      intro labels' result after _ _ hhealthy' hvalue
      apply (Ensures.assign hhealthy' hvalue).bind_step
      intro labels'' _ after' hlabels' hresult' hhealthy'' _
      have hkeeps := (@steady_assign false id name result).ok hresult'
      exact .ok hhealthy'' (hvalue.mono hkeeps.frames hlabels')
  | get object name =>
      rw [evaluate]
      apply (ih.evaluate hhealthy (hplaced.operand rfl List.mem_cons_self)).bind
      intro labels' result after _ _ hhealthy' hobject
      exact .property hhealthy' hobject
  | set object name value =>
      rw [evaluate]
      refine (ih.evaluate hhealthy (hplaced.operand rfl
        (List.mem_cons_of_mem _ List.mem_cons_self))).bind ?_
      intro labels' target after hlabels hresult hhealthy' _
      have hkeeps := ((steadyRuns fuel).evaluate object).ok hresult
      have hplaced' := hplaced.keep hkeeps hlabels
      cases target with
      | object cls id =>
          apply (ih.evaluate hhealthy' (hplaced'.operand rfl List.mem_cons_self)).bind_step
          intro labels'' field after' _ _ hhealthy'' hfield
          have hstored : Ensures programs labels'' (fun _ _ _ => True) []
              (withStore (fun store => ((), store.setField id name.lexeme field)) after') :=
            .withStore hhealthy'' rfl (hhealthy''.values.setField id name.lexeme hfield) trivial
          apply hstored.bind_step
          intro labels''' _ after'' hlabels'' hresult'' hhealthy''' _
          obtain ⟨-, rfl⟩ := EStateM.Result.ok.inj hresult''
          exact .ok hhealthy''' (hfield.relabel hlabels'')
      | nil | truth _ | number _ | text _ | function _ | native _ | classValue _ | list _ =>
          exact .fail hhealthy' rfl
  | call callee closing arguments =>
      rw [evaluate]
      apply (ih.evaluate hhealthy (hplaced.operand rfl List.mem_cons_self)).bind
      intro labels' function after hlabels hresult hhealthy' hfunction
      have hkeeps := ((steadyRuns fuel).evaluate callee).ok hresult
      have hplaced' := hplaced.keep hkeeps hlabels
      refine (ih.evaluateAll hhealthy' (hplaced'.operand rfl
        (List.mem_cons_of_mem _ List.mem_cons_self))).bind ?_
      intro labels'' values after' hlabels' hresult' hhealthy'' hvalues
      have hkeeps' := ((steadyRuns fuel).evaluateAll arguments).ok hresult'
      exact ih.call hhealthy'' (hfunction.mono hkeeps'.frames hlabels') hvalues
  | list closing elements =>
      rw [evaluate]
      apply (ih.evaluateAll hhealthy (hplaced.operand rfl List.mem_cons_self)).bind_step
      intro labels' values after _ _ hhealthy' hvalues
      exact .withStore hhealthy' rfl
        (hhealthy'.values.newList (by simpa using hvalues)) trivial

theorem evaluateAll_sound {es : List Expr} {site : Site}
    (hhealthy : machine.Healthy programs labels)
    (hplaced : machine.Placed programs labels (.exprs es) site) :
    Ensures programs labels (GivesAll programs) (moments (fuel + 1) (.exprs es) machine)
      (evaluateAll (fuel + 1) es machine) := by
  refine .cons_plain rfl ⟨site, hplaced⟩ hhealthy ?_
  cases es with
  | nil =>
      rw [evaluateAll]
      exact .ok hhealthy fun _ hv => absurd hv List.not_mem_nil
  | cons e es =>
      rw [evaluateAll]
      apply (ih.evaluate hhealthy (hplaced.operand rfl List.mem_cons_self)).bind
      intro labels' value after hlabels hresult hhealthy' hvalue
      have hkeeps := ((steadyRuns fuel).evaluate e).ok hresult
      have hplaced' := hplaced.keep hkeeps hlabels
      refine (ih.evaluateAll hhealthy' (hplaced'.operand rfl
        (List.mem_cons_of_mem _ List.mem_cons_self))).bind_step ?_
      intro labels'' values after' hlabels' hresult' hhealthy'' hvalues
      have hkeeps' := ((steadyRuns fuel).evaluateAll es).ok hresult'
      refine .ok hhealthy'' ?_
      rw [GivesAll, List.forall_mem_cons]
      exact ⟨hvalue.mono hkeeps'.frames hlabels', hvalues⟩

theorem call_sound {function : Value} {line : Nat} {arguments : List Value}
    (hhealthy : machine.Healthy programs labels)
    (hfunction : function.Sound programs machine.store.frames labels)
    (harguments : ∀ v ∈ arguments, v.Sound programs machine.store.frames labels) :
    Ensures programs labels (Gives programs)
      (moments (fuel + 1) (.call function line arguments) machine)
      (call (fuel + 1) function line arguments machine) := by
  refine .cons_plain rfl ⟨hfunction, harguments⟩ hhealthy ?_
  cases function with
  | function closure =>
      rw [call]
      apply (Ensures.checkArity hhealthy).step_bind
      rintro labels' _ _ hlabels - hhealthy' ⟨rfl, harity⟩
      exact ih.invoke hhealthy' (hfunction.relabel hlabels) harity
        fun v hv => (harguments v hv).relabel hlabels
  | native native =>
      rw [call]
      apply (Ensures.checkArity hhealthy).bind_step
      rintro labels' _ _ hlabels - hhealthy' ⟨rfl, harity⟩
      exact .callNative hhealthy' hfunction harity fun v hv => (harguments v hv).relabel hlabels
  | classValue cls =>
      rw [call]
      apply (Ensures.checkArity hhealthy).step_bind
      rintro labels' _ checked hlabels - hhealthy' ⟨rfl, harity⟩
      have hcreated : Ensures programs labels'
          (fun labels object after => object.Sound programs after.store.frames labels ∧
            cls.Sound programs after.store.frames labels ∧
              GivesAll programs labels arguments after)
          [] (withStore (·.newInstance cls) checked) :=
        .withStore hhealthy' rfl (hhealthy'.values.newInstance cls)
          ⟨hfunction.relabel hlabels, hfunction.relabel hlabels,
            fun v hv => (harguments v hv).relabel hlabels⟩
      apply hcreated.step_bind
      rintro labels'' object after - - hhealthy'' ⟨hobject, hcls, harguments'⟩
      cases hinitializer : cls.initializer? with
      | none => exact .ok hhealthy'' hobject
      | some method =>
          have hmethod := hcls _ method hinitializer
          have hkeeps := after.store.keeps_bind method object
          obtain ⟨hbound, hclosure⟩ := hhealthy''.bind hmethod hobject
          refine .cons_frame rfl ⟨hmethod, hobject⟩ hhealthy'' ?_
          refine (ih.invoke hbound hclosure ?_ ?_).bind_step ?_
          · have hsame : (after.store.bind method object).1.arity = method.arity := rfl
            rw [hsame]
            simpa [ClassValue.arity, hinitializer] using harity
          · exact fun v hv => (harguments' v hv).mono hkeeps (List.prefix_append _ _)
          · intro labels''' _ after' hlabels'' hresult hhealthy''' _
            have hkeeps' := ((steadyRuns fuel).invoke _ _).ok hresult
            refine .ok hhealthy''' ?_
            exact (hobject.mono hkeeps (List.prefix_append _ _)).mono hkeeps'.frames hlabels''
  | nil | truth _ | number _ | text _ | object _ _ | list _ =>
      rw [call]
      · exact .fail hhealthy rfl
      all_goals simp

theorem invoke_sound {closure : Closure} {arguments : List Value}
    (hhealthy : machine.Healthy programs labels)
    (hclosure : closure.Sound programs machine.store.frames labels)
    (harity : closure.arity = arguments.length)
    (harguments : ∀ v ∈ arguments, v.Sound programs machine.store.frames labels) :
    Ensures programs labels (Gives programs)
      (moments (fuel + 1) (.invoke closure arguments) machine)
      (invoke (fuel + 1) closure arguments machine) := by
  refine .cons_frame rfl ⟨hclosure, harity, harguments⟩ hhealthy ?_
  obtain ⟨hentered, site, hloop, hplaced⟩ := hhealthy.enter hclosure harity harguments
  let frames := bindAll machine.store.frames.size closure.declaration.parameters arguments
    (machine.store.frames.child closure.frame).2
  have hbody : Ensures programs (labels ++ [.function closure.declaration])
      (fun labels flow after => flow.Allowed programs after.store.frames labels site.around) _
      (within machine.store.frames.size (executeAll fuel closure.declaration.body)
        { machine with store.frames := frames }) :=
    .within (ih.executeAll hentered hplaced) fun _ _ _ _ _ hallowed => hallowed
  rw [invoke, bind_of_ok (enter_eq closure arguments machine)]
  apply hbody.bind_step
  intro labels' flow after _ _ hhealthy' hallowed
  by_cases hinitializer : closure.isInitializer
  · simp only [hinitializer, if_true]
    refine .ok hhealthy' ?_
    cases hthis : after.store.frames.get? closure.frame "this" with
    | none => trivial
    | some this => exact hhealthy'.values.frames _ _ this hthis
  · simp only [hinitializer]
    cases flow with
    | normal => exact .ok hhealthy' trivial
    | returned value => exact .ok hhealthy' hallowed.2
    | left line =>
        rw [Flow.Allowed, hloop] at hallowed
        cases hallowed

end Step

end Lox
