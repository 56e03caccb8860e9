import Lox.Proofs.Evaluation.Steady
import Lox.Proofs.Matching.Machine

/-!
# Matching runs

Matching programs run in the same way on matching machines: they print the
same, stop for the same reason, give matching values and leave matching
machines.
-/

namespace Lox

/-- The statements end in the same way. -/
inductive Flow.Matches (c : Correspondence) : Flow → Flow → Prop where
  | normal : Matches c .normal .normal
  | returned {value value' : Value} (hvalue : value.Matches c value') :
    Matches c (.returned value) (.returned value')
  | left {line line' : Nat} (hline : c.lines line line') : Matches c (.left line) (.left line')

namespace Machine

variable {c : Correspondence}

/-- Whatever matches runs in the same way with the given fuel. -/
structure MatchingRuns (c : Correspondence) (fuel : Nat) : Prop where
  evaluate {e e' : Expr} (he : e.Matches c e') :
    Exec.Match c (Value.Matches c) (evaluate fuel e) (evaluate fuel e')
  evaluateAll {es es' : List Expr} (hes : List.Forall₂ (Expr.Matches c) es es') :
    Exec.Match c (List.Forall₂ (Value.Matches c)) (evaluateAll fuel es) (evaluateAll fuel es')
  call {function function' : Value} (hfunction : function.Matches c function') {line line' : Nat}
    (hline : c.lines line line') {arguments arguments' : List Value}
    (harguments : List.Forall₂ (Value.Matches c) arguments arguments') :
    Exec.Match c (Value.Matches c) (call fuel function line arguments)
      (call fuel function' line' arguments')
  invoke {closure closure' : Closure} (hclosure : closure.Matches c closure')
    {arguments arguments' : List Value}
    (harguments : List.Forall₂ (Value.Matches c) arguments arguments') :
    Exec.Match c (Value.Matches c) (invoke fuel closure arguments)
      (invoke fuel closure' arguments')
  execute {s s' : Stmt} (hs : s.Matches c s') :
    Exec.Match c (Flow.Matches c) (execute fuel s) (execute fuel s')
  executeAll {ss ss' : List Stmt} (hss : List.Forall₂ (Stmt.Matches c) ss ss') :
    Exec.Match c (Flow.Matches c) (executeAll fuel ss) (executeAll fuel ss')
  loop {condition condition' : Expr} {body body' : Stmt}
    (hcondition : condition.Matches c condition') (hbody : body.Matches c body') :
    Exec.Match c (Flow.Matches c) (loop fuel condition body) (loop fuel condition' body')

theorem matchingRuns_zero : MatchingRuns c 0 where
  evaluate _ := .throw .outOfFuel
  evaluateAll _ := .throw .outOfFuel
  call _ _ _ _ _ _ _ := .throw .outOfFuel
  invoke _ _ _ _ := .throw .outOfFuel
  execute _ := .throw .outOfFuel
  executeAll _ := .throw .outOfFuel
  loop _ _ := .throw .outOfFuel

section Step

variable {fuel : Nat} (ih : MatchingRuns c fuel)
include ih

theorem evaluate_matches {e e' : Expr} (he : e.Matches c e') :
    Exec.Match c (Value.Matches c) (evaluate (fuel + 1) e) (evaluate (fuel + 1) e') := by
  cases he with
  | literal value =>
      rw [evaluate]
      exact .pure (Value.like_literal value).matches
  | grouping hinner =>
      rw [evaluate, evaluate]
      exact ih.evaluate hinner
  | unary hoperator hoperand =>
      rw [evaluate, evaluate]
      apply (ih.evaluate hoperand).bind
      intro value value' hvalue
      rw [← hoperator.kind]
      exact ofExcept_matches hoperator.line (hvalue.applyUnary _)
  | binary hleft hoperator hright =>
      rw [evaluate, evaluate]
      apply (ih.evaluate hleft).bind
      intro left left' hleft
      apply (ih.evaluate hright).bind
      intro right right' hright
      rw [← hoperator.kind]
      exact ofExcept_matches hoperator.line (hleft.applyBinary hright _)
  | logical hleft hoperator hright =>
      rw [evaluate, evaluate]
      apply (ih.evaluate hleft).bind
      intro left left' hleft
      rw [hleft.isTruthy, Token.is, hoperator.kind, ← Token.is]
      split
      · exact .pure hleft
      · exact ih.evaluate hright
  | reference hid hname =>
      rw [evaluate, evaluate]
      exact lookup_matches hid hname
  | receiver hid hkeyword =>
      rw [evaluate, evaluate]
      exact lookup_matches hid hkeyword
  | assign hid hname hvalue =>
      rw [evaluate, evaluate]
      apply (ih.evaluate hvalue).bind
      intro value value' hvalue
      apply (assign_matches hid hname hvalue).bind
      intro _ _ _
      exact .pure hvalue
  | get hobject hname =>
      rw [evaluate, evaluate]
      apply (ih.evaluate hobject).bind
      intro object object' hobject
      exact property_matches hobject hname
  | set hobject hname hvalue =>
      rw [evaluate, evaluate]
      apply (ih.evaluate hobject).bind
      intro object object' hobject
      cases hobject with
      | object hcls id =>
          apply (ih.evaluate hvalue).bind
          intro value value' hvalue
          rw [← hname.lexeme]
          apply (setField_matches id _ hvalue).bind
          intro _ _ _
          exact .pure hvalue
      | nil | truth _ | number _ | text _ | function _ | native _ | classValue _ | list _ =>
          exact fail_matches hname.line _
  | call hcallee hclosing harguments =>
      rw [evaluate, evaluate]
      apply (ih.evaluate hcallee).bind
      intro function function' hfunction
      apply (ih.evaluateAll harguments).bind
      intro values values' hvalues
      exact ih.call hfunction hclosing.line hvalues
  | list hclosing helements =>
      rw [evaluate, evaluate]
      apply (ih.evaluateAll helements).bind
      intro values values' hvalues
      exact withStore_matches fun h => h.newList hvalues

theorem evaluateAll_matches {es es' : List Expr} (hes : List.Forall₂ (Expr.Matches c) es es') :
    Exec.Match c (List.Forall₂ (Value.Matches c)) (evaluateAll (fuel + 1) es)
      (evaluateAll (fuel + 1) es') := by
  cases hes with
  | nil =>
      rw [evaluateAll]
      exact .pure .nil
  | cons he hes =>
      rw [evaluateAll, evaluateAll]
      apply (ih.evaluate he).bind
      intro value value' hvalue
      apply (ih.evaluateAll hes).bind
      intro values values' hvalues
      exact .pure (.cons hvalue hvalues)

theorem call_matches {function function' : Value} (hfunction : function.Matches c function')
    {line line' : Nat} (hline : c.lines line line') {arguments arguments' : List Value}
    (harguments : List.Forall₂ (Value.Matches c) arguments arguments') :
    Exec.Match c (Value.Matches c) (call (fuel + 1) function line arguments)
      (call (fuel + 1) function' line' arguments') := by
  cases hfunction with
  | function hclosure =>
      rw [call, call, hclosure.arity, harguments.length_eq]
      apply (checkArity_matches hline _ _).bind
      intro _ _ _
      exact ih.invoke hclosure harguments
  | native native =>
      rw [call, call, harguments.length_eq]
      apply (checkArity_matches hline _ _).bind
      intro _ _ _
      exact callNative_matches hline native harguments
  | classValue hcls =>
      rw [call, call, hcls.arity, harguments.length_eq]
      apply (checkArity_matches hline _ _).bind
      intro _ _ _
      apply (withStore_matches fun h => h.newInstance hcls).bind
      intro object object' hobject
      have hinitializer := hcls.initializer?
      generalize ClassValue.initializer? _ = method at hinitializer ⊢
      generalize ClassValue.initializer? _ = method' at hinitializer ⊢
      cases hinitializer with
      | none => exact .pure hobject
      | some hmethod =>
          apply (withStore_matches fun h => h.bind hmethod hobject).bind
          intro initializer initializer' hinitializer
          apply (ih.invoke hinitializer harguments).bind
          intro _ _ _
          exact .pure hobject
  | nil | truth _ | number _ | text _ | object _ _ | list _ =>
      rw [call, call]
      · exact fail_matches hline _
      all_goals simp

theorem invoke_matches {closure closure' : Closure} (hclosure : closure.Matches c closure')
    {arguments arguments' : List Value}
    (harguments : List.Forall₂ (Value.Matches c) arguments arguments') :
    Exec.Match c (Value.Matches c) (invoke (fuel + 1) closure arguments)
      (invoke (fuel + 1) closure' arguments') := by
  rw [invoke, invoke]
  apply (enter_matches hclosure harguments).bind
  rintro frame _ rfl
  apply (within_matches frame (ih.executeAll hclosure.declaration.body)).bind
  intro flow flow' hflow
  rw [hclosure.isInitializer]
  split
  · apply get_matches.bind
    intro machine machine' h
    have hthis := h.store.frames.get? closure.frame "this"
    dsimp only
    rw [← hclosure.frame]
    generalize machine.store.frames.get? closure.frame "this" = this at hthis ⊢
    generalize machine'.store.frames.get? closure.frame "this" = this' at hthis ⊢
    cases hthis with
    | none => exact .pure .nil
    | some hthis => exact .pure hthis
  · cases hflow with
    | normal => exact .pure .nil
    | returned hvalue => exact .pure hvalue
    | left hline => exact fail_matches hline _

theorem execute_matches {s s' : Stmt} (hs : s.Matches c s') :
    Exec.Match c (Flow.Matches c) (execute (fuel + 1) s) (execute (fuel + 1) s') := by
  cases hs with
  | expression hvalue =>
      rw [execute, execute]
      apply (ih.evaluate hvalue).bind
      intro _ _ _
      exact .pure .normal
  | print hvalue =>
      rw [execute, execute]
      apply (ih.evaluate hvalue).bind
      intro value value' hvalue
      apply (printLine_matches hvalue).bind
      intro _ _ _
      exact .pure .normal
  | declare hname hinitializer =>
      cases hinitializer with
      | none =>
          rw [execute, execute, ← hname.lexeme]
          apply (define_matches _ .nil).bind
          intro _ _ _
          exact .pure .normal
      | some hinitializer =>
          rw [execute, execute, ← hname.lexeme]
          apply (ih.evaluate hinitializer).bind
          intro value value' hvalue
          apply (define_matches _ hvalue).bind
          intro _ _ _
          exact .pure .normal
  | block hbody =>
      rw [execute, execute]
      apply enterBlock_matches.bind
      rintro frame _ rfl
      exact within_matches frame (ih.executeAll hbody)
  | branch hcondition hthen helse =>
      rw [execute.eq_def, execute.eq_def]
      apply (ih.evaluate hcondition).bind
      intro value value' hvalue
      rw [hvalue.isTruthy]
      split
      · exact ih.execute hthen
      · cases helse with
        | none => exact .pure .normal
        | some helse => exact ih.execute helse
  | loop hcondition hbody =>
      rw [execute, execute]
      exact ih.loop hcondition hbody
  | leave hkeyword =>
      rw [execute, execute]
      exact .pure (.left hkeyword.line)
  | function hdeclaration =>
      rw [execute, execute, ← hdeclaration.name.lexeme]
      apply get_matches.bind
      intro machine machine' h
      dsimp only
      rw [h.current]
      apply (withStore_matches fun h => h.newClosure hdeclaration _ false).bind
      intro closure closure' hclosure
      apply (define_matches _ (.function hclosure)).bind
      intro _ _ _
      exact .pure .normal
  | giveBack _ hvalue =>
      cases hvalue with
      | none =>
          rw [execute, execute]
          exact .pure (.returned .nil)
      | some hvalue =>
          rw [execute, execute]
          apply (ih.evaluate hvalue).bind
          intro value value' hvalue
          exact .pure (.returned hvalue)
  | classDecl hname hmethods =>
      rw [execute, execute, ← hname.lexeme]
      apply get_matches.bind
      intro machine machine' h
      dsimp only
      rw [h.current]
      apply (withStore_matches fun h => h.newClass _ hmethods _).bind
      intro cls cls' hcls
      apply (define_matches _ (.classValue hcls)).bind
      intro _ _ _
      exact .pure .normal

theorem executeAll_matches {ss ss' : List Stmt} (hss : List.Forall₂ (Stmt.Matches c) ss ss') :
    Exec.Match c (Flow.Matches c) (executeAll (fuel + 1) ss) (executeAll (fuel + 1) ss') := by
  cases hss with
  | nil =>
      rw [executeAll]
      exact .pure .normal
  | cons hs hss =>
      rw [executeAll, executeAll]
      apply (ih.execute hs).bind
      intro flow flow' hflow
      cases hflow with
      | normal => exact ih.executeAll hss
      | returned hvalue => exact .pure (.returned hvalue)
      | left hline => exact .pure (.left hline)

theorem loop_matches {condition condition' : Expr} {body body' : Stmt}
    (hcondition : condition.Matches c condition') (hbody : body.Matches c body') :
    Exec.Match c (Flow.Matches c) (loop (fuel + 1) condition body)
      (loop (fuel + 1) condition' body') := by
  rw [loop, loop]
  apply (ih.evaluate hcondition).bind
  intro value value' hvalue
  rw [hvalue.isTruthy]
  split
  · apply (ih.execute hbody).bind
    intro flow flow' hflow
    cases hflow with
    | normal => exact ih.loop hcondition hbody
    | returned hvalue => exact .pure (.returned hvalue)
    | left hline => exact .pure .normal
  · exact .pure .normal

end Step

theorem matchingRuns (fuel : Nat) : MatchingRuns c fuel := by
  induction fuel with
  | zero => exact matchingRuns_zero
  | succ fuel ih =>
      exact {
        evaluate := evaluate_matches ih
        evaluateAll := evaluateAll_matches ih
        call := call_matches ih
        invoke := invoke_matches ih
        execute := execute_matches ih
        executeAll := executeAll_matches ih
        loop := loop_matches ih }

theorem executeTop_matches (fuel : Nat) (echo : Bool) {s s' : Stmt} (hs : s.Matches c s') :
    Exec.Match c (Flow.Matches c) (executeTop fuel echo s) (executeTop fuel echo s') := by
  have hexecute := (matchingRuns fuel).execute hs
  cases hs with
  | expression hvalue =>
      cases echo with
      | false => exact hexecute
      | true =>
          apply ((matchingRuns fuel).evaluate hvalue).bind
          intro value value' hvalue
          apply (printLine_matches hvalue).bind
          intro _ _ _
          exact .pure .normal
  | print _ | declare _ _ | block _ | branch _ _ _ | loop _ _ | leave _ | function _
  | giveBack _ _ | classDecl _ _ => exact hexecute

/-- Matching programs run in the same way, if the line of what has no place in
the text corresponds to itself. -/
theorem run_matches (hnowhere : c.lines 0 0) (fuel : Nat) (echo : Bool) {ss ss' : List Stmt}
    (hss : List.Forall₂ (Stmt.Matches c) ss ss') :
    Exec.Match c Eq (run fuel echo ss) (run fuel echo ss') := by
  induction hss with
  | nil => exact .pure rfl
  | cons hs _ ih =>
      apply (executeTop_matches fuel echo hs).bind
      intro flow flow' hflow
      cases hflow with
      | normal => exact ih
      | returned _ => exact fail_matches hnowhere _
      | left hline => exact fail_matches hline _

end Machine

end Lox
