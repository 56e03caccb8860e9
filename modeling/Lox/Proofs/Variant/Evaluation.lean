import Lox.Proofs.Evaluation.Steady
import Lox.Proofs.Syntax.Grammar
import Lox.Proofs.Variant.Machine

/-!
# Runs of variants

A program and its variant run in the same way: they print the same, stop for the
same reason and end statements in the same manner.  The induction is on the fuel
of the program; the variant has any fuel that is enough for the pace at which the
two are compared.
-/

namespace Lox

/-- The statements end in the same way. -/
inductive Flow.Vary (r : Variant) (world : World) : Flow → Flow → Prop where
  | normal : Vary r world .normal .normal
  | returned {value value' : Value} (hvalue : r.Values world value value') :
    Vary r world (.returned value) (.returned value')
  | left (line : Nat) : Vary r world (.left line) (.left line)

namespace Pace

/-- With less fuel left, either the variant has none, or one step of both leaves
enough. -/
theorem Enough.cases {pace : Pace} {fuel fuel' : Nat} (h : pace.Enough (fuel + 1) fuel') :
    (pace = .back ∧ fuel' = 0) ∨ ∃ less, fuel' = less + 1 ∧ pace.Enough fuel less := by
  cases pace with
  | same => exact .inr ⟨fuel, h.symm, rfl⟩
  | forth =>
      have hle : 3 * (fuel + 1) ≤ fuel' := h
      exact .inr ⟨fuel' - 1, by omega, show 3 * fuel ≤ fuel' - 1 by omega⟩
  | further =>
      have hle : 6 * (fuel + 1) ≤ fuel' := h
      exact .inr ⟨fuel' - 1, by omega, show 6 * fuel ≤ fuel' - 1 by omega⟩
  | back =>
      have hle : fuel' ≤ fuel + 1 := h
      cases fuel' with
      | zero => exact .inl ⟨rfl, rfl⟩
      | succ less => exact .inr ⟨less, rfl, show less ≤ fuel by omega⟩

/-- The two steps for braces leave enough as well. -/
theorem Enough.cases_braced {pace : Pace} {fuel fuel' : Nat} (h : pace.Enough (fuel + 1) fuel')
    (hpace : pace ≠ .same) :
    (pace = .back ∧ fuel' < 3) ∨ ∃ less, fuel' = less + 3 ∧ pace.Enough fuel less := by
  cases pace with
  | same => exact absurd rfl hpace
  | forth =>
      have hle : 3 * (fuel + 1) ≤ fuel' := h
      exact .inr ⟨fuel' - 3, by omega, show 3 * fuel ≤ fuel' - 3 by omega⟩
  | further =>
      have hle : 6 * (fuel + 1) ≤ fuel' := h
      exact .inr ⟨fuel' - 3, by omega, show 6 * fuel ≤ fuel' - 3 by omega⟩
  | back =>
      have hle : fuel' ≤ fuel + 1 := h
      by_cases hless : fuel' < 3
      · exact .inl ⟨rfl, hless⟩
      · exact .inr ⟨fuel' - 3, by omega, show fuel' - 3 ≤ fuel by omega⟩

/-- So do the five steps for a test in the body of a loop, and what is left after
some of them. -/
theorem Enough.cases_tested {pace : Pace} {fuel fuel' : Nat} (h : pace.Enough (fuel + 1) fuel')
    (hpace : pace.PaysTests) :
    (pace = .back ∧ fuel' < 6) ∨
      ∃ less, fuel' = less + 6 ∧ ∀ spared ≤ 5, pace.Enough fuel (less + spared) := by
  cases hpace with
  | further =>
      have hle : 6 * (fuel + 1) ≤ fuel' := h
      exact .inr ⟨fuel' - 6, by omega, fun spared _ =>
        show 6 * fuel ≤ fuel' - 6 + spared by omega⟩
  | back =>
      have hle : fuel' ≤ fuel + 1 := h
      by_cases hless : fuel' < 6
      · exact .inl ⟨rfl, hless⟩
      · exact .inr ⟨fuel' - 6, by omega, fun spared _ => show fuel' - 6 + spared ≤ fuel by omega⟩

end Pace

namespace Machine

variable {r : Variant}

/-- Whatever varies runs in the same way with the given fuel. -/
structure VariantRuns (r : Variant) (fuel fuel' : Nat) : Prop where
  evaluate {world : World} {nest : Nest} {e e' : Expr} (he : e.Varies r.variation nest e') :
    Exec.Vary r world nest r.Values (evaluate fuel e) (evaluate fuel' e')
  evaluateAll {world : World} {nest : Nest} {es es' : List Expr}
    (hes : List.Forall₂ (Expr.Varies r.variation nest) es es') :
    Exec.Vary r world nest (fun more => List.Forall₂ (r.Values more)) (evaluateAll fuel es)
      (evaluateAll fuel' es')
  call {world : World} {nest : Nest} {function function' : Value}
    (hfunction : r.Values world function function') (line : Nat)
    {arguments arguments' : List Value}
    (harguments : List.Forall₂ (r.Values world) arguments arguments') :
    Exec.Vary r world nest r.Values (call fuel function line arguments)
      (call fuel' function' line arguments')
  invoke {world : World} {nest : Nest} {closure closure' : Closure}
    (hclosure : closure.Varies r.variation world closure') {arguments arguments' : List Value}
    (harguments : List.Forall₂ (r.Values world) arguments arguments') :
    Exec.Vary r world nest r.Values (invoke fuel closure arguments)
      (invoke fuel' closure' arguments')
  execute {world : World} {nest : Nest} {s s' : Stmt} (hs : s.Wraps r.variation nest s') :
    Exec.Vary r world nest (Flow.Vary r) (execute fuel s) (execute fuel' s')
  executeAll {world : World} {nest : Nest} {ss ss' : List Stmt}
    (hss : Stmt.VaryAll r.variation nest ss ss') :
    Exec.Vary r world nest (Flow.Vary r) (executeAll fuel ss) (executeAll fuel' ss')
  loopTested {world : World} {nest : Nest} {condition condition' : Expr} {body body' : Stmt}
    {operator : Token} (keyword : Token) (htesting : r.pace.PaysTests)
    (hoperator : operator.is .bang) (hcondition : condition.Varies r.variation nest.pad condition')
    (hbody : body.Wraps r.variation nest.pad body') :
    Exec.Vary r world nest (Flow.Vary r) (loop fuel condition body)
      (loop fuel' (.literal (.truth true)) (.testedBody operator keyword condition' body'))
  loop {world : World} {nest : Nest} {condition condition' : Expr} {body body' : Stmt}
    (hcondition : condition.Varies r.variation nest condition')
    (hbody : body.Wraps r.variation nest body') :
    Exec.Vary r world nest (Flow.Vary r) (loop fuel condition body)
      (loop fuel' condition' body')

/-- Of a variant that has no fuel nothing is said, if it is the program that has
enough. -/
theorem variantRuns_ahead (hpace : r.pace = .back) (fuel : Nat) : VariantRuns r fuel 0 where
  evaluate _ _ _ _ := .ahead hpace
  evaluateAll _ _ _ _ := .ahead hpace
  call _ _ _ _ _ _ _ _ := .ahead hpace
  invoke _ _ _ _ _ _ _ := .ahead hpace
  execute _ _ _ _ := .ahead hpace
  executeAll _ _ _ _ := .ahead hpace
  loopTested _ _ _ _ _ _ _ _ := .ahead hpace
  loop _ _ _ _ _ := .ahead hpace

theorem variantRuns_behind (hpace : r.pace.Leads) (fuel' : Nat) : VariantRuns r 0 fuel' where
  evaluate _ _ _ _ := .behind hpace
  evaluateAll _ _ _ _ := .behind hpace
  call _ _ _ _ _ _ _ _ := .behind hpace
  invoke _ _ _ _ _ _ _ := .behind hpace
  execute _ _ _ _ := .behind hpace
  executeAll _ _ _ _ := .behind hpace
  loopTested _ _ _ _ _ _ _ _ := .behind hpace
  loop _ _ _ _ _ := .behind hpace

theorem variantRuns_same : VariantRuns r 0 0 where
  evaluate _ := .throw (.same _)
  evaluateAll _ := .throw (.same _)
  call _ _ _ _ _ := .throw (.same _)
  invoke _ _ _ _ := .throw (.same _)
  execute _ := .throw (.same _)
  executeAll _ := .throw (.same _)
  loopTested _ _ _ _ _ := .throw (.same _)
  loop _ _ := .throw (.same _)

theorem variantRuns_zero {fuel' : Nat} (h : r.pace.Enough 0 fuel') : VariantRuns r 0 fuel' := by
  cases hpace : r.pace with
  | same =>
      rw [hpace] at h
      obtain rfl : 0 = fuel' := h
      exact variantRuns_same
  | forth => exact variantRuns_behind (hpace ▸ .forth) fuel'
  | further => exact variantRuns_behind (hpace ▸ .further) fuel'
  | back =>
      rw [hpace] at h
      obtain rfl := Nat.le_zero.1 (show fuel' ≤ 0 from h)
      exact variantRuns_ahead hpace 0

/-! ## Braces -/

/-- A list of one statement runs as the statement does. -/
theorem executeAll_singleton (fuel : Nat) (s : Stmt) :
    executeAll (fuel + 2) [s] = execute (fuel + 1) s := by
  funext machine
  rw [executeAll]
  cases hresult : execute (fuel + 1) s machine with
  | error halt after => exact bind_of_error hresult
  | ok flow after =>
      rw [bind_of_ok hresult]
      cases flow <;> rfl

theorem execute_braces (fuel : Nat) (s : Stmt) :
    execute (fuel + 3) (.block [s]) =
      enterBlock >>= fun frame => within frame (execute (fuel + 1) s) := by
  rw [execute, executeAll_singleton]

/-- Less fuel is not enough to get into braces. -/
theorem execute_braces_short {fuel : Nat} (h : fuel < 3) (s : Stmt) (machine : Machine) :
    ∃ after, execute fuel (.block [s]) machine = .error .outOfFuel after := by
  rcases fuel with _ | _ | _ | fuel
  · exact ⟨_, rfl⟩
  · exact ⟨_, rfl⟩
  · exact ⟨_, rfl⟩
  · omega

/-! ## Tests inside -/

/-- A round of a loop: the test, and the body if the loop is not left. -/
def testedRound (test : Exec Value) (line : Nat) (body : Exec Flow) : Exec Flow := do
  if (← test).isTruthy then body else return .left line

/-- What a loop does when a round has ended. -/
def afterRound (again : Exec Flow) : Flow → Exec Flow
  | .normal => again
  | .left _ => return .normal
  | .returned value => return .returned value

/-- A loop ends after a test that fails as if it were left there. -/
theorem loop_rounds (fuel : Nat) (condition : Expr) (body : Stmt) (line : Nat) :
    loop (fuel + 1) condition body =
      testedRound (evaluate fuel condition) line (execute fuel body) >>=
        afterRound (loop fuel condition body) := by
  rw [loop, testedRound, bind_assoc]
  congr 1
  funext value
  split <;> rfl

/-- The block in the loop runs as a round that is left from its statement. -/
theorem executeAll_tested {operator : Token} (hoperator : operator.is .bang) (keyword : Token)
    (condition : Expr) (body : Stmt) (fuel : Nat) :
    executeAll (fuel + 4)
        [.branch (.unary operator (.grouping condition)) (.leave keyword) none, body] =
      testedRound (evaluate fuel condition) keyword.line (execute (fuel + 2) body) := by
  have hkind := Grammar.kind_of_is hoperator
  funext machine
  rw [executeAll, executeAll_singleton, testedRound, execute, evaluate, evaluate, hkind]
  cases hvalue : evaluate fuel condition machine with
  | error halt after => simp only [bind_assoc, bind_of_error hvalue]
  | ok value after =>
      simp only [bind_assoc, bind_of_ok hvalue]
      cases htruthy : value.isTruthy <;> simp [Value.applyUnary, htruthy] <;> rfl

theorem loop_tested {operator : Token} (hoperator : operator.is .bang) (keyword : Token)
    (condition : Expr) (body : Stmt) (fuel : Nat) :
    loop (fuel + 6) (.literal (.truth true)) (.testedBody operator keyword condition body) =
      (enterBlock >>= fun frame => within frame
        (testedRound (evaluate fuel condition) keyword.line (execute (fuel + 2) body))) >>=
        afterRound
          (loop (fuel + 5) (.literal (.truth true)) (.testedBody operator keyword condition body)) := by
  rw [loop, evaluate, Stmt.testedBody, execute, executeAll_tested hoperator]
  funext machine
  rfl

/-- Less fuel is not enough to get to the test. -/
theorem loop_tested_short {fuel : Nat} (h : fuel < 6) (operator keyword : Token)
    (condition : Expr) (body : Stmt) (machine : Machine) :
    ∃ after, loop fuel (.literal (.truth true)) (.testedBody operator keyword condition body)
      machine = .error .outOfFuel after := by
  rcases fuel with _ | _ | _ | _ | _ | _ | fuel
  iterate 6 exact ⟨_, rfl⟩
  omega

section Step

variable {fuel fuel' : Nat} (ih : VariantRuns r fuel fuel') {world : World} {nest : Nest}
include ih

theorem evaluate_vary {e e' : Expr} (he : e.Varies r.variation nest e') :
    Exec.Vary r world nest r.Values (evaluate (fuel + 1) e) (evaluate (fuel' + 1) e') := by
  cases he with
  | literal value =>
      rw [evaluate, evaluate]
      exact .pure (Value.like_literal value)
  | grouping hinner =>
      rw [evaluate, evaluate]
      exact ih.evaluate hinner
  | unary operator hoperand =>
      rw [evaluate, evaluate]
      apply (ih.evaluate hoperand).bind
      intro _ _ value value' hvalue
      exact ofExcept_vary _ (hvalue.applyUnary _)
  | binary hleft operator hright =>
      rw [evaluate, evaluate]
      apply (ih.evaluate hleft).bind
      intro _ _ left left' hleft
      apply (ih.evaluate hright).bind
      intro _ hle right right' hright
      exact ofExcept_vary _ ((hleft.mono (World.likeness_mono hle)).applyBinary hright _)
  | logical hleft operator hright =>
      rw [evaluate, evaluate]
      apply (ih.evaluate hleft).bind
      intro _ _ left left' hleft
      rw [hleft.isTruthy]
      split
      · exact .pure hleft
      · exact ih.evaluate hright
  | reference hname =>
      rw [evaluate, evaluate]
      exact lookup_vary hname
  | receiver hkeyword =>
      rw [evaluate, evaluate]
      exact lookup_vary hkeyword
  | assign hname hvalue =>
      rw [evaluate, evaluate]
      apply (ih.evaluate hvalue).bind
      intro _ _ value value' hvalue
      apply (assign_vary hname hvalue).bind
      intro _ hle _ _ _
      exact .pure (hvalue.mono (World.likeness_mono hle))
  | get hobject name =>
      rw [evaluate, evaluate]
      apply (ih.evaluate hobject).bind
      intro _ _ object object' hobject
      exact property_vary hobject name
  | set hobject name hvalue =>
      rw [evaluate, evaluate]
      apply (ih.evaluate hobject).bind
      intro _ _ object object' hobject
      cases hobject with
      | object _ id =>
          apply (ih.evaluate hvalue).bind
          intro _ _ value value' hvalue
          have hset : Exec.Vary r _ nest (fun _ => Eq)
              (withStore fun store => ((), store.setField id name.lexeme value))
              (withStore fun store => ((), store.setField id name.lexeme value')) :=
            withStore_vary (fun h => ⟨rfl, h.setField id _ hvalue⟩) (fun _ => rfl) (fun _ => rfl)
          apply hset.bind
          intro _ hle _ _ _
          exact .pure (hvalue.mono (World.likeness_mono hle))
      | nil | truth _ | number _ | text _ | function _ | native _ | classValue _ | list _ =>
          exact .fail _ _
  | call hcallee closing harguments =>
      rw [evaluate, evaluate]
      apply (ih.evaluate hcallee).bind
      intro _ _ function function' hfunction
      apply (ih.evaluateAll harguments).bind
      intro _ hle values values' hvalues
      exact ih.call (hfunction.mono (World.likeness_mono hle)) _ hvalues
  | list closing helements =>
      rw [evaluate, evaluate]
      apply (ih.evaluateAll helements).bind
      intro _ _ values values' hvalues
      exact withStore_vary (fun h => h.newList hvalues) (fun _ => rfl) (fun _ => rfl)

theorem evaluateAll_vary {es es' : List Expr}
    (hes : List.Forall₂ (Expr.Varies r.variation nest) es es') :
    Exec.Vary r world nest (fun more => List.Forall₂ (r.Values more)) (evaluateAll (fuel + 1) es)
      (evaluateAll (fuel' + 1) es') := by
  cases hes with
  | nil =>
      rw [evaluateAll, evaluateAll]
      exact .pure .nil
  | cons he hes =>
      rw [evaluateAll, evaluateAll]
      apply (ih.evaluate he).bind
      intro _ _ value value' hvalue
      apply (ih.evaluateAll hes).bind
      intro _ hle values values' hvalues
      exact .pure (.cons (hvalue.mono (World.likeness_mono hle)) hvalues)

theorem call_vary {function function' : Value} (hfunction : r.Values world function function')
    (line : Nat) {arguments arguments' : List Value}
    (harguments : List.Forall₂ (r.Values world) arguments arguments') :
    Exec.Vary r world nest r.Values (call (fuel + 1) function line arguments)
      (call (fuel' + 1) function' line arguments') := by
  cases hfunction with
  | function hclosure =>
      rw [call, call, Closure.Varies.arity hclosure, harguments.length_eq]
      apply (checkArity_vary line _ _).bind
      intro _ hle _ _ _
      exact ih.invoke (Closure.Varies.mono hle hclosure)
        (harguments.imp fun _ _ => .mono (World.likeness_mono hle))
  | native native =>
      rw [call, call, harguments.length_eq]
      apply (checkArity_vary line _ _).bind
      intro _ hle _ _ _
      exact callNative_vary line native
        (harguments.imp fun _ _ => .mono (World.likeness_mono hle))
  | classValue hcls =>
      rw [call, call, ClassValue.Varies.arity hcls, harguments.length_eq]
      apply (checkArity_vary line _ _).bind
      intro checked hchecked _ _ _
      have hcls' : (checked.likeness r.variation).classes _ _ :=
        ClassValue.Varies.mono hchecked hcls
      have hnew : Exec.Vary r checked nest r.Values (withStore (·.newInstance _))
          (withStore (·.newInstance _)) :=
        withStore_vary (fun h => h.newInstance hcls') (fun _ => rfl) (fun _ => rfl)
      apply hnew.bind
      intro made hmade object object' hobject
      rcases rel_cases (ClassValue.Varies.initializer? hcls) with
        ⟨hleft, hright⟩ | ⟨method, method', hleft, hright, hmethod⟩
      · rw [hleft, hright]
        exact .pure hobject
      · rw [hleft, hright]
        have hmore := World.le_trans hchecked hmade
        apply (bind_vary (hmethod.mono hmore) hobject).bind
        intro bound hbound initializer initializer' hinitializer
        apply (ih.invoke hinitializer (harguments.imp fun _ _ =>
          .mono (World.likeness_mono (World.le_trans hmore hbound)))).bind
        intro _ hle _ _ _
        exact .pure (hobject.mono (World.likeness_mono (World.le_trans hbound hle)))
  | nil | truth _ | number _ | text _ | object _ _ | list _ =>
      rw [call, call]
      · exact .fail line _
      all_goals simp

theorem invoke_vary {closure closure' : Closure}
    (hclosure : closure.Varies r.variation world closure') {arguments arguments' : List Value}
    (harguments : List.Forall₂ (r.Values world) arguments arguments') :
    Exec.Vary r world nest r.Values (invoke (fuel + 1) closure arguments)
      (invoke (fuel' + 1) closure' arguments') := by
  obtain ⟨inner, hflat, halong, hdeclaration⟩ := hclosure.declaration
  obtain ⟨renamed, hparameters, hbody⟩ := hdeclaration.inside
  rw [invoke, invoke]
  apply (enter_vary halong hparameters harguments).bind
  intro entered hentered frame frame' hframe
  apply (Exec.Vary.within hframe (ih.executeAll hbody)).bind
  intro more hmore flow flow' hflow
  rw [hclosure.isInitializer]
  split
  · apply get_vary.bind
    intro last hlast machine machine' h
    have hle := World.le_trans hentered (World.le_trans hmore hlast)
    have htwins := h.frames.twins (World.along_mono hle halong) hflat
    have hthis := h.frames.get? htwins "this"
    rw [Naming.nameIn_this] at hthis
    dsimp only
    rcases rel_cases hthis with ⟨hleft, hright⟩ | ⟨this, this', hleft, hright, hthis⟩
    · rw [hleft, hright]
      exact .pure .nil
    · rw [hleft, hright]
      exact .pure hthis
  · cases hflow with
    | normal => exact .pure .nil
    | returned hvalue => exact .pure hvalue
    | left line => exact .fail line _

/-- A statement without braces that the program does not have. -/
theorem execute_vary {s s' : Stmt} (hs : s.Varies r.variation nest s') :
    Exec.Vary r world nest (Flow.Vary r) (execute (fuel + 1) s) (execute (fuel' + 1) s') := by
  cases hs with
  | expression hvalue =>
      rw [execute, execute]
      apply (ih.evaluate hvalue).bind
      intro _ _ _ _ _
      exact .pure .normal
  | print hvalue =>
      rw [execute, execute]
      apply (ih.evaluate hvalue).bind
      intro _ _ value value' hvalue
      apply (printLine_vary hvalue).bind
      intro _ _ _ _ _
      exact .pure .normal
  | declare hflat hname hinitializer =>
      cases hinitializer with
      | none =>
          rw [execute, execute, hname.lexeme]
          apply (define_vary hflat _ .nil).bind
          intro _ _ _ _ _
          exact .pure .normal
      | some hinitializer =>
          rw [execute, execute, hname.lexeme]
          apply (ih.evaluate hinitializer).bind
          intro _ _ value value' hvalue
          apply (define_vary hflat _ hvalue).bind
          intro _ _ _ _ _
          exact .pure .normal
  | block renamed hbody =>
      rw [execute, execute]
      apply (enterBlock_vary renamed).bind
      intro _ _ frame frame' hframe
      exact .within hframe (ih.executeAll hbody)
  | branch hcondition hthen =>
      rw [execute.eq_def, execute.eq_def]
      apply (ih.evaluate hcondition).bind
      intro _ _ value value' hvalue
      rw [hvalue.isTruthy]
      split
      · exact ih.execute hthen
      · exact .pure .normal
  | branchElse hcondition hthen helse =>
      rw [execute.eq_def, execute.eq_def]
      apply (ih.evaluate hcondition).bind
      intro _ _ value value' hvalue
      rw [hvalue.isTruthy]
      split
      · exact ih.execute hthen
      · exact ih.execute helse
  | loop hcondition hbody =>
      rw [execute, execute]
      exact ih.loop hcondition hbody
  | leave keyword =>
      rw [execute, execute]
      exact .pure (.left keyword.line)
  | @function _ declaration declaration' hflat hname hdeclaration =>
      rw [execute, execute, ← hdeclaration.name]
      apply get_vary.bind
      intro _ _ machine machine' h
      apply (newClosure_vary hflat h.current hdeclaration false).bind
      intro _ _ closure closure' hclosure
      have hvalue : r.Values _ (.function closure) (.function closure') := .function hclosure
      apply (define_unchanged_vary hflat hname hvalue).bind
      intro _ _ _ _ _
      exact .pure .normal
  | giveBack _ hvalue =>
      cases hvalue with
      | none =>
          rw [execute, execute]
          exact .pure (.returned .nil)
      | some hvalue =>
          rw [execute, execute]
          apply (ih.evaluate hvalue).bind
          intro _ _ value value' hvalue
          exact .pure (.returned hvalue)
  | classDecl name hflat hname hmethods =>
      rw [execute, execute]
      apply get_vary.bind
      intro _ _ machine machine' h
      apply (newClass_vary h.current name.lexeme hmethods).bind
      intro _ _ cls cls' hcls
      have hvalue : r.Values _ (.classValue cls) (.classValue cls') := .classValue hcls
      apply (define_unchanged_vary hflat hname hvalue).bind
      intro _ _ _ _ _
      exact .pure .normal

theorem executeAll_vary {ss ss' : List Stmt} (hss : Stmt.VaryAll r.variation nest ss ss') :
    Exec.Vary r world nest (Flow.Vary r) (executeAll (fuel + 1) ss)
      (executeAll (fuel' + 1) ss') := by
  cases hss with
  | nil =>
      rw [executeAll, executeAll]
      exact .pure .normal
  | cons hs hss =>
      rw [executeAll, executeAll]
      apply (ih.execute hs).bind
      intro _ _ flow flow' hflow
      cases hflow with
      | normal => exact ih.executeAll hss
      | returned hvalue => exact .pure (.returned hvalue)
      | left line => exact .pure (.left line)

theorem loop_vary {condition condition' : Expr} {body body' : Stmt}
    (hcondition : condition.Varies r.variation nest condition')
    (hbody : body.Wraps r.variation nest body') :
    Exec.Vary r world nest (Flow.Vary r) (loop (fuel + 1) condition body)
      (loop (fuel' + 1) condition' body') := by
  rw [loop, loop]
  apply (ih.evaluate hcondition).bind
  intro _ _ value value' hvalue
  rw [hvalue.isTruthy]
  split
  · apply (ih.execute hbody).bind
    intro _ _ flow flow' hflow
    cases hflow with
    | normal => exact ih.loop hcondition hbody
    | returned hvalue => exact .pure (.returned hvalue)
    | left line => exact .pure .normal
  · exact .pure .normal

end Step

section Rounds

variable {world : World} {nest : Nest}

/-- A round of a loop that makes its test inside ends like one of the loop: where
this fails its test, that is left. -/
theorem testedRound_vary {test test' : Exec Value} {body body' : Exec Flow} (line : Nat)
    (htest : Exec.Vary r world nest r.Values test test')
    (hbody : ∀ more, world ≤ more → Exec.Vary r more nest (Flow.Vary r) body body') :
    Exec.Vary r world nest (Flow.Vary r) (testedRound test line body)
      (testedRound test' line body') := by
  apply htest.bind
  intro more hle value value' hvalue
  rw [hvalue.isTruthy]
  split
  · exact hbody more hle
  · exact .pure (.left line)

theorem afterRound_vary {again again' : Exec Flow}
    (hagain : Exec.Vary r world nest (Flow.Vary r) again again') {flow flow' : Flow}
    (hflow : Flow.Vary r world flow flow') :
    Exec.Vary r world nest (Flow.Vary r) (afterRound again flow) (afterRound again' flow') := by
  cases hflow with
  | normal => exact hagain
  | returned hvalue => exact .pure (.returned hvalue)
  | left line => exact .pure .normal

theorem testedRound_steady (fuel : Nat) (condition : Expr) (line : Nat) (body : Stmt) :
    (testedRound (evaluate fuel condition) line (execute fuel body)).Steady true := by
  refine .bind ((steadyRuns fuel).evaluate condition).widen fun value => ?_
  split
  · exact (steadyRuns fuel).execute body
  · exact .pure _

/-- The test of a round in the block of the variant, too, is made where only the
variant has a frame. -/
theorem loopTested_vary {fuel fuel' : Nat}
    (ih : ∀ less, r.pace.Enough fuel less → VariantRuns r fuel less)
    (h : r.pace.Enough (fuel + 1) fuel') {condition condition' : Expr} {body body' : Stmt}
    {operator : Token} (keyword : Token) (htesting : r.pace.PaysTests)
    (hoperator : operator.is .bang) (hcondition : condition.Varies r.variation nest.pad condition')
    (hbody : body.Wraps r.variation nest.pad body') :
    Exec.Vary r world nest (Flow.Vary r) (loop (fuel + 1) condition body)
      (loop fuel' (.literal (.truth true)) (.testedBody operator keyword condition' body')) := by
  rcases h.cases_tested htesting with ⟨hpace, hshort⟩ | ⟨less, rfl, hspared⟩
  · intro machine machine' _
    obtain ⟨after, hafter⟩ := loop_tested_short hshort operator keyword condition' body' machine'
    rw [hafter]
    exact .ahead hpace
  · rw [loop_rounds fuel condition body keyword.line, loop_tested hoperator]
    have htest := ih less (hspared 0 (by decide))
    have hinside := ih (less + 2) (hspared 2 (by decide))
    have hagain := ih (less + 5) (hspared 5 (by decide))
    apply (braced_vary (testedRound_steady fuel condition keyword.line body) fun more _ =>
      testedRound_vary keyword.line (htest.evaluate hcondition) fun _ _ =>
        hinside.execute hbody).bind
    intro more _ flow flow' hflow
    exact afterRound_vary (hagain.loopTested keyword htesting hoperator hcondition hbody) hflow

end Rounds

/-- A statement that may have braces around it in the variant alone, or be a loop that
only there makes its test inside. -/
theorem execute_wraps {fuel fuel' : Nat}
    (ih : ∀ less, r.pace.Enough fuel less → VariantRuns r fuel less)
    (h : r.pace.Enough (fuel + 1) fuel') {world : World} {nest : Nest} {s s' : Stmt}
    (hs : s.Wraps r.variation nest s') :
    Exec.Vary r world nest (Flow.Vary r) (execute (fuel + 1) s) (execute fuel' s') := by
  cases hs with
  | same hs =>
      rcases h.cases with ⟨hpace, rfl⟩ | ⟨less, rfl, hless⟩
      · exact fun _ _ _ => .ahead hpace
      · exact execute_vary (ih less hless) hs
  | braced hbracing hs =>
      rcases h.cases_braced hbracing with ⟨hpace, hshort⟩ | ⟨less, rfl, hless⟩
      · intro machine machine' _
        obtain ⟨after, hafter⟩ := execute_braces_short hshort _ machine'
        rw [hafter]
        exact .ahead hpace
      · rw [execute_braces]
        exact braced_vary ((steadyRuns (fuel + 1)).execute s) fun more _ =>
          execute_vary (ih less hless) hs
  | tested operator keyword htesting hoperator hloop =>
      cases hloop with
      | loop hcondition hbody =>
          rcases h.cases with ⟨hpace, rfl⟩ | ⟨less, rfl, hless⟩
          · exact fun _ _ _ => .ahead hpace
          · rw [execute, Stmt.testedLoop, execute]
            exact (ih less hless).loopTested keyword htesting hoperator hcondition hbody

theorem variantRuns (r : Variant) (fuel : Nat) :
    ∀ fuel', r.pace.Enough fuel fuel' → VariantRuns r fuel fuel' := by
  induction fuel with
  | zero => exact fun _ => variantRuns_zero
  | succ fuel ih =>
      intro fuel' h
      have hexecute {world : World} {nest : Nest} {s s' : Stmt}
          (hs : s.Wraps r.variation nest s') :
          Exec.Vary r world nest (Flow.Vary r) (execute (fuel + 1) s) (execute fuel' s') :=
        execute_wraps ih h hs
      rcases h.cases with ⟨hpace, rfl⟩ | ⟨less, rfl, hless⟩
      · exact variantRuns_ahead hpace _
      · have hruns := ih less hless
        exact {
          evaluate := evaluate_vary hruns
          evaluateAll := evaluateAll_vary hruns
          call := call_vary hruns
          invoke := invoke_vary hruns
          execute := hexecute
          executeAll := executeAll_vary hruns
          loopTested := loopTested_vary ih h
          loop := loop_vary hruns }

variable {fuel fuel' : Nat} {world : World} {nest : Nest}

/-- Braces hide the value of an expression, so values are printed only where the
variant has none of its own. -/
theorem executeTop_vary (h : r.pace.Enough fuel fuel') {echo : Bool}
    (hecho : echo → r.pace = .same) {s s' : Stmt} (hs : s.Wraps r.variation nest s') :
    Exec.Vary r world nest (Flow.Vary r) (executeTop fuel echo s) (executeTop fuel' echo s') := by
  have hexecute : Exec.Vary r world nest (Flow.Vary r) (execute fuel s) (execute fuel' s') :=
    (variantRuns r fuel fuel' h).execute hs
  cases echo with
  | false =>
      have hplain : ∀ (fuel : Nat) (s : Stmt), executeTop fuel false s = execute fuel s := by
        intro fuel s
        cases s <;> rfl
      rwa [hplain, hplain]
  | true =>
      cases hs with
      | braced hbracing _ => exact absurd (hecho rfl) hbracing
      | tested _ _ htesting _ _ => exact absurd (hecho rfl) (htesting : r.pace.PaysTests).ne_same
      | same hs =>
          cases hs with
          | expression hvalue =>
              apply ((variantRuns r fuel fuel' h).evaluate hvalue).bind
              intro _ _ value value' hvalue
              apply (printLine_vary hvalue).bind
              intro _ _ _ _ _
              exact .pure .normal
          | print _ | declare _ _ _ | block _ _ | branch _ _ | branchElse _ _ _ | loop _ _
          | leave _ | function _ _ _ | giveBack _ _ | classDecl _ _ _ _ => exact hexecute

theorem run_vary (h : r.pace.Enough fuel fuel') {echo : Bool} (hecho : echo → r.pace = .same)
    {ss ss' : List Stmt} (hss : Stmt.VaryAll r.variation nest ss ss') :
    Exec.Vary r world nest (fun _ => Eq) (run fuel echo ss) (run fuel' echo ss') := by
  induction ss generalizing ss' world with
  | nil =>
      cases hss with
      | nil => exact .pure rfl
  | cons s ss ih =>
      cases hss with
      | cons hs hss =>
          apply (executeTop_vary h hecho hs).bind
          intro _ _ flow flow' hflow
          cases hflow with
          | normal => exact ih hss
          | returned _ => exact .fail _ _
          | left line => exact .fail line _

end Machine

end Lox
