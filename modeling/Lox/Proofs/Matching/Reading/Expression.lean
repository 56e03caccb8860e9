import Lox.Proofs.Matching.Reading

/-!
# Reading matching expressions

Matching tokens are read into matching expressions, if numbers that are handed
out at the same time correspond to each other.
-/

namespace Lox.Parser

/-- Every part of an expression is read in step. -/
structure ExpressionsInStep (c : Correspondence) (lower lower' fuel : Nat) : Prop where
  expression :
    InStep c lower lower' (Expr.Matches c) (expression fuel) (expression fuel)
  binary (levels : List Level) :
    InStep c lower lower' (Expr.Matches c) (binary fuel levels) (binary fuel levels)
  binaryRest (level : Level) (tighter : List Level) {left left' : Expr}
    (hleft : left.Matches c left') :
    InStep c lower lower' (Expr.Matches c) (binaryRest fuel level tighter left)
      (binaryRest fuel level tighter left')
  unary : InStep c lower lower' (Expr.Matches c) (unary fuel) (unary fuel)
  callRest {callee callee' : Expr} (hcallee : callee.Matches c callee') :
    InStep c lower lower' (Expr.Matches c) (callRest fuel callee) (callRest fuel callee')
  arguments (closing : Symbol) :
    InStep c lower lower' (List.Forall₂ (Expr.Matches c)) (arguments fuel closing)
      (arguments fuel closing)
  argumentsRest (count : Nat) :
    InStep c lower lower' (List.Forall₂ (Expr.Matches c)) (argumentsRest fuel count)
      (argumentsRest fuel count)
  primary : InStep c lower lower' (Expr.Matches c) (primary fuel) (primary fuel)

variable {c : Correspondence} {lower lower' : Nat}

theorem build_matches {level : Level} {operator operator' : Token} {left left' right right' : Expr}
    (hleft : left.Matches c left') (hoperator : operator.Matches c operator')
    (hright : right.Matches c right') :
    (level.build left operator right).Matches c (level.build left' operator' right') := by
  simp only [Level.build]
  split
  · exact .logical hleft hoperator hright
  · exact .binary hleft hoperator hright

theorem assignment_inStep (hids : ∀ count, c.ids (lower + count) (lower' + count))
    {target target' value value' : Expr} {equals equals' : Token}
    (htarget : target.Matches c target') (hequals : equals.Matches c equals')
    (hvalue : value.Matches c value') :
    InStep c lower lower' (Expr.Matches c) (assignment target equals value)
      (assignment target' equals' value') := by
  have hrejected : InStep c lower lower' (Expr.Matches c)
      (do report equals .invalidAssignmentTarget; return value)
      (do report equals' .invalidAssignmentTarget; return value') := by
    apply (report_inStep _ hequals).bind
    intro _ _ _
    exact .pure hvalue
  cases htarget with
  | reference hid hname =>
      apply (freshId_inStep hids).bind
      intro id id' hid
      exact .pure (.assign hid hname hvalue)
  | get hobject hname => exact .pure (.set hobject hname hvalue)
  | literal _ => exact hrejected
  | grouping _ => exact hrejected
  | unary _ _ => exact hrejected
  | binary _ _ _ => exact hrejected
  | logical _ _ _ => exact hrejected
  | assign _ _ _ => exact hrejected
  | receiver _ _ => exact hrejected
  | set _ _ _ => exact hrejected
  | call _ _ _ => exact hrejected
  | list _ _ => exact hrejected

theorem expressionsInStep_zero : ExpressionsInStep c lower lower' 0 where
  expression := .throw rfl
  binary _ := .throw rfl
  binaryRest _ _ _ _ _ := .throw rfl
  unary := .throw rfl
  callRest _ := .throw rfl
  arguments _ := .throw rfl
  argumentsRest _ := .throw rfl
  primary := .throw rfl

section Step

variable {fuel : Nat} (ih : ExpressionsInStep c lower lower' fuel)

section

include ih

theorem expression_inStep (hids : ∀ count, c.ids (lower + count) (lower' + count)) :
    InStep c lower lower' (Expr.Matches c) (expression (fuel + 1)) (expression (fuel + 1)) := by
  rw [expression]
  apply (ih.binary Level.all).bind
  intro target target' htarget
  apply (accept?_inStep _).bind
  intro equals? equals?' hequals
  cases hequals with
  | none => exact .pure htarget
  | some hequals =>
      apply ih.expression.bind
      intro value value' hvalue
      exact assignment_inStep hids htarget hequals hvalue

theorem binary_inStep (levels : List Level) :
    InStep c lower lower' (Expr.Matches c) (binary (fuel + 1) levels)
      (binary (fuel + 1) levels) := by
  cases levels with
  | nil =>
      rw [binary]
      exact ih.unary
  | cons level tighter =>
      rw [binary]
      apply (ih.binary tighter).bind
      intro left left' hleft
      exact ih.binaryRest level tighter hleft

theorem binaryRest_inStep (level : Level) (tighter : List Level) {left left' : Expr}
    (hleft : left.Matches c left') :
    InStep c lower lower' (Expr.Matches c) (binaryRest (fuel + 1) level tighter left)
      (binaryRest (fuel + 1) level tighter left') := by
  rw [binaryRest, binaryRest]
  apply (accept?_inStep _).bind
  intro operator? operator?' hoperator
  cases hoperator with
  | none => exact .pure hleft
  | some hoperator =>
      apply (ih.binary tighter).bind
      intro right right' hright
      exact ih.binaryRest level tighter (build_matches hleft hoperator hright)

theorem unary_inStep :
    InStep c lower lower' (Expr.Matches c) (unary (fuel + 1)) (unary (fuel + 1)) := by
  rw [unary]
  apply (accept?_inStep _).bind
  intro operator? operator?' hoperator
  cases hoperator with
  | none =>
      apply ih.primary.bind
      intro callee callee' hcallee
      exact ih.callRest hcallee
  | some hoperator =>
      apply ih.unary.bind
      intro operand operand' hoperand
      exact .pure (.unary hoperator hoperand)

theorem callRest_inStep {callee callee' : Expr} (hcallee : callee.Matches c callee') :
    InStep c lower lower' (Expr.Matches c) (callRest (fuel + 1) callee)
      (callRest (fuel + 1) callee') := by
  rw [callRest, callRest]
  apply (accept?_inStep _).bind
  intro opening? opening?' hopening
  apply isSome_inStep hopening
  · apply (ih.arguments _).bind
    intro arguments arguments' harguments
    apply (expect_inStep _ _).bind
    intro closing closing' hclosing
    exact ih.callRest (.call hcallee hclosing harguments)
  · apply (accept?_inStep _).bind
    intro dot? dot?' hdot
    apply isSome_inStep hdot
    · apply (expect_inStep _ _).bind
      intro name name' hname
      exact ih.callRest (.get hcallee hname)
    · exact .pure hcallee

theorem arguments_inStep (closing : Symbol) :
    InStep c lower lower' (List.Forall₂ (Expr.Matches c)) (arguments (fuel + 1) closing)
      (arguments (fuel + 1) closing) := by
  rw [arguments]
  apply (nextIs_inStep _).bind
  intro closed _ rfl
  split
  · exact .pure .nil
  · exact ih.argumentsRest 0

theorem argumentsRest_inStep (count : Nat) :
    InStep c lower lower' (List.Forall₂ (Expr.Matches c)) (argumentsRest (fuel + 1) count)
      (argumentsRest (fuel + 1) count) := by
  rw [argumentsRest]
  apply (checkArity_inStep _ _).bind
  intro _ _ _
  apply ih.expression.bind
  intro argument argument' hargument
  apply (accept?_inStep _).bind
  intro comma? comma?' hcomma
  apply isSome_inStep hcomma
  · apply (ih.argumentsRest (count + 1)).bind
    intro rest rest' hrest
    exact .pure (.cons hargument hrest)
  · exact .pure (.cons hargument .nil)

end

theorem literal_inStep (value : Literal) :
    InStep c lower lower' (Expr.Matches c) (do advance; return Expr.literal value)
      (do advance; return Expr.literal value) := by
  apply advance_inStep.bind
  intro _ _ _
  exact .pure (.literal value)

include ih

theorem primary_inStep (hids : ∀ count, c.ids (lower + count) (lower' + count)) :
    InStep c lower lower' (Expr.Matches c) (primary (fuel + 1)) (primary (fuel + 1)) := by
  rw [primary]
  apply peek_inStep.bind
  intro ⟨kind, lexeme, line⟩ ⟨kind', lexeme', line'⟩ htoken
  have hkind : kind = kind' := htoken.kind
  subst hkind
  cases kind with
  | number value => exact literal_inStep (.number value)
  | text value => exact literal_inStep (.text value)
  | symbol symbol =>
      cases symbol
      case falseWord => exact literal_inStep (.truth false)
      case trueWord => exact literal_inStep (.truth true)
      case nilWord => exact literal_inStep .nil
      case thisWord =>
        apply advance_inStep.bind
        intro _ _ _
        apply (freshId_inStep hids).bind
        intro id id' hid
        exact .pure (.receiver hid htoken)
      case identifier =>
        apply advance_inStep.bind
        intro _ _ _
        apply (freshId_inStep hids).bind
        intro id id' hid
        exact .pure (.reference hid htoken)
      case leftParen =>
        apply advance_inStep.bind
        intro _ _ _
        apply ih.expression.bind
        intro inner inner' hinner
        apply (expect_inStep _ _).bind
        intro _ _ _
        exact .pure (.grouping hinner)
      case leftBracket =>
        apply advance_inStep.bind
        intro _ _ _
        apply (ih.arguments _).bind
        intro elements elements' helements
        apply (expect_inStep _ _).bind
        intro closing closing' hclosing
        exact .pure (.list hclosing helements)
      all_goals exact fail_inStep _

end Step

theorem expressionsInStep (hids : ∀ count, c.ids (lower + count) (lower' + count))
    (fuel : Nat) : ExpressionsInStep c lower lower' fuel := by
  induction fuel with
  | zero => exact expressionsInStep_zero
  | succ fuel ih =>
      exact {
        expression := expression_inStep ih hids
        binary := binary_inStep ih
        binaryRest := binaryRest_inStep ih
        unary := unary_inStep ih
        callRest := callRest_inStep ih
        arguments := arguments_inStep ih
        argumentsRest := argumentsRest_inStep ih
        primary := primary_inStep ih hids }

end Lox.Parser
