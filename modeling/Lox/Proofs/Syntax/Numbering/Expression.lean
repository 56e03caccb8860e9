import Lox.Proofs.Syntax.Numbering

/-!
# Numbering of expressions

Every expression that is read is formed, and its name occurrences have numbers
of their own.  An assignment is read as a variable first, whose number is given
up.
-/

namespace Lox.Parser

variable {spelled : Token → Prop} {next : Nat}

/-- Every part of an expression that is read is new. -/
structure ExpressionsNew (spelled : Token → Prop) (fuel : Nat) : Prop where
  expression (next : Nat) :
    From spelled next (expression fuel) fun after e => New next after (e.Formed spelled) e.ids
  binary (next : Nat) (levels : List Level) (hlevels : levels ⊆ Level.all) :
    From spelled next (binary fuel levels) fun after e => New next after (e.Formed spelled) e.ids
  binaryRest (lower next : Nat) (level : Level) (tighter : List Level) (left : Expr)
    (hlevel : level ∈ Level.all) (htighter : tighter ⊆ Level.all)
    (hleft : New lower next (left.Formed spelled) left.ids) :
    From spelled next (binaryRest fuel level tighter left) fun after e =>
      New lower after (e.Formed spelled) e.ids
  unary (next : Nat) : From spelled next (unary fuel) fun after e =>
    New next after (e.Formed spelled) e.ids
  callRest (lower next : Nat) (callee : Expr)
    (hcallee : New lower next (callee.Formed spelled) callee.ids) :
    From spelled next (callRest fuel callee) fun after e => New lower after (e.Formed spelled) e.ids
  arguments (next : Nat) (closing : Symbol) :
    From spelled next (arguments fuel closing) fun after es =>
      New next after (Expr.FormedAll spelled es) (Expr.idsAll es)
  argumentsRest (next count : Nat) :
    From spelled next (argumentsRest fuel count) fun after es =>
      New next after (Expr.FormedAll spelled es) (Expr.idsAll es)
  primary (next : Nat) : From spelled next (primary fuel) fun after e =>
    New next after (e.Formed spelled) e.ids

/-- An operator of a level that evaluates both operands is strict. -/
theorem isAny_strict {level : Level} {operator : Token} (hlevel : level ∈ Level.all)
    (hstrict : level.isLogical = false) (hany : operator.isAny level.operators) :
    operator.isAny Level.strict :=
  Level.isAny_flatMap (List.mem_filter.2 ⟨hlevel, by simp [hstrict]⟩) hany

theorem build_new {lower middle upper : Nat} {level : Level} {operator : Token}
    {left right : Expr} (hlevel : level ∈ Level.all) (hany : operator.isAny level.operators)
    (hleft : New lower middle (left.Formed spelled) left.ids)
    (hright : New middle upper (right.Formed spelled) right.ids) :
    New lower upper ((level.build left operator right).Formed spelled)
      (level.build left operator right).ids := by
  have hnumbers := hleft.numbers.append hright.numbers
  rw [Level.build]
  split
  · exact ⟨⟨hleft.formed, hright.formed⟩, hnumbers⟩
  · rename_i hstrict
    refine ⟨⟨isAny_strict hlevel (by simpa using hstrict) hany, ?_⟩, hnumbers⟩
    exact ⟨hleft.formed, hright.formed⟩

/-- An assignment takes a number of its own, after those of its value; the
number of the variable that was read as its target is given up. -/
theorem assignment_from {lower middle next : Nat} {target value : Expr} (equals : Token)
    (htarget : New lower middle (target.Formed spelled) target.ids)
    (hvalue : New middle next (value.Formed spelled) value.ids) :
    From spelled next (assignment target equals value) fun after e =>
      New lower after (e.Formed spelled) e.ids := by
  have hwide := hvalue.numbers.widen htarget.numbers.ordered
  have hrejected : From spelled next (do report equals .invalidAssignmentTarget; return value)
      fun after e => New lower after (e.Formed spelled) e.ids := by
    apply (report_idle _ _).bind
    intro _ _
    exact .pure ⟨hvalue.formed, hwide⟩
  cases target with
  | reference id name =>
      apply freshId_from.bind
      rintro after id' - ⟨rfl, rfl⟩
      exact .pure ⟨⟨htarget.formed, hvalue.formed⟩, hwide.append (.single le_rfl)⟩
  | get object name =>
      refine .pure ⟨⟨htarget.formed.1, htarget.formed.2, hvalue.formed⟩, ?_⟩
      exact (htarget.numbers.append hvalue.numbers).swap
  | literal _ | grouping _ | unary _ _ | binary _ _ _ | logical _ _ _ | assign _ _ _
  | receiver _ _ | set _ _ _ | call _ _ _ | list _ _ => exact hrejected

theorem expressionsNew_zero : ExpressionsNew spelled 0 where
  expression _ := .halt
  binary _ _ _ := .halt
  binaryRest _ _ _ _ _ _ _ _ := .halt
  unary _ := .halt
  callRest _ _ _ _ := .halt
  arguments _ _ := .halt
  argumentsRest _ _ := .halt
  primary _ := .halt

section Step

variable {fuel : Nat} (ih : ExpressionsNew spelled fuel)
include ih

theorem expression_step :
    From spelled next (expression (fuel + 1)) fun after e =>
      New next after (e.Formed spelled) e.ids := by
  rw [expression]
  apply (ih.binary next Level.all (List.Subset.refl _)).bind
  intro middle target hle htarget
  apply (accept?_idle _).bind
  rintro (_ | equals) _
  · exact .pure htarget
  · apply (ih.expression _).bind
    intro last value _ hvalue
    exact assignment_from equals htarget hvalue

theorem binary_step (levels : List Level) (hlevels : levels ⊆ Level.all) :
    From spelled next (binary (fuel + 1) levels) fun after e =>
      New next after (e.Formed spelled) e.ids := by
  cases levels with
  | nil =>
      rw [binary]
      exact ih.unary next
  | cons level tighter =>
      rw [binary]
      have htighter := List.subset_of_cons_subset hlevels
      apply (ih.binary _ tighter htighter).bind
      intro middle left _ hleft
      exact ih.binaryRest next middle level tighter left (hlevels (by simp)) htighter hleft

theorem binaryRest_step {lower : Nat} (level : Level) (tighter : List Level) (left : Expr)
    (hlevel : level ∈ Level.all) (htighter : tighter ⊆ Level.all)
    (hleft : New lower next (left.Formed spelled) left.ids) :
    From spelled next (binaryRest (fuel + 1) level tighter left) fun after e =>
      New lower after (e.Formed spelled) e.ids := by
  rw [binaryRest]
  apply (accept?_idle _).bind
  rintro (_ | operator) hany
  · exact .pure hleft
  · apply (ih.binary _ tighter htighter).bind
    intro after right _ hright
    exact ih.binaryRest lower after level tighter _ hlevel htighter
      (build_new hlevel (hany operator rfl).2 hleft hright)

theorem unary_step :
    From spelled next (unary (fuel + 1)) fun after e =>
      New next after (e.Formed spelled) e.ids := by
  rw [unary]
  apply (accept?_idle _).bind
  rintro (_ | operator) hany
  · apply (ih.primary _).bind
    intro after callee _ hcallee
    exact ih.callRest _ after callee hcallee
  · apply (ih.unary _).bind
    intro after operand _ hoperand
    exact .pure ⟨⟨(hany operator rfl).2, hoperand.formed⟩, hoperand.numbers⟩

theorem callRest_step {lower : Nat} (callee : Expr)
    (hcallee : New lower next (callee.Formed spelled) callee.ids) :
    From spelled next (callRest (fuel + 1) callee) fun after e =>
      New lower after (e.Formed spelled) e.ids := by
  rw [callRest]
  apply (accept?_idle _).bind
  intro opening? _
  split
  · apply (ih.arguments _ _).bind
    intro after arguments _ harguments
    apply (expect_idle _ _).bind
    intro closing _
    exact ih.callRest lower _ _
      ⟨⟨hcallee.formed, harguments.formed⟩, hcallee.numbers.append harguments.numbers⟩
  · apply (accept?_idle _).bind
    intro dot? _
    split
    · apply (expect_idle _ _).bind
      intro name hname
      exact ih.callRest lower _ _ ⟨⟨hcallee.formed, hname⟩, hcallee.numbers⟩
    · exact .pure hcallee

theorem arguments_step (closing : Symbol) :
    From spelled next (arguments (fuel + 1) closing) fun after es =>
      New next after (Expr.FormedAll spelled es) (Expr.idsAll es) := by
  rw [arguments]
  apply (nextIs_idle _).bind
  intro closed _
  split
  · exact .pure ⟨trivial, .nil le_rfl⟩
  · exact ih.argumentsRest _ 0

theorem argumentsRest_step (count : Nat) :
    From spelled next (argumentsRest (fuel + 1) count) fun after es =>
      New next after (Expr.FormedAll spelled es) (Expr.idsAll es) := by
  rw [argumentsRest]
  apply (checkArity_idle _ _).bind
  intro _ _
  apply (ih.expression _).bind
  intro middle argument _ hargument
  apply (accept?_idle _).bind
  intro comma? _
  split
  · apply (ih.argumentsRest _ (count + 1)).bind
    intro last rest _ hrest
    exact .pure ⟨⟨hargument.formed, hrest.formed⟩, hargument.numbers.append hrest.numbers⟩
  · refine .pure ⟨⟨hargument.formed, trivial⟩, ?_⟩
    exact hargument.numbers.append (.nil le_rfl)

omit ih in
/-- A word that stands for an expression without parts. -/
theorem literal_from (value : Literal) :
    From spelled next (do advance; return Expr.literal value) fun after e =>
      New next after (e.Formed spelled) e.ids := by
  apply advance_idle.bind
  intro _ _
  exact .pure ⟨trivial, .nil le_rfl⟩

omit ih in
/-- A name occurrence takes the next number. -/
theorem occurrence_from (build : Nat → Expr) (hformed : ∀ id, (build id).Formed spelled)
    (hids : ∀ id, (build id).ids = [id]) :
    From spelled next (do advance; return build (← freshId)) fun after e =>
      New next after (e.Formed spelled) e.ids := by
  apply advance_idle.bind
  intro _ _
  apply freshId_from.bind
  rintro after id - ⟨rfl, rfl⟩
  refine .pure ⟨hformed id, ?_⟩
  rw [hids]
  exact .single le_rfl

theorem primary_step :
    From spelled next (primary (fuel + 1)) fun after e =>
      New next after (e.Formed spelled) e.ids := by
  rw [primary]
  apply peek_idle.bind
  intro token htoken
  split
  · exact literal_from _
  · exact literal_from _
  · exact literal_from _
  · exact literal_from _
  · exact literal_from _
  · rename_i hkind
    exact occurrence_from (.receiver · token) (fun _ => ⟨htoken, by simp [Token.is, hkind]⟩)
      (fun _ => rfl)
  · rename_i hkind
    exact occurrence_from (.reference · token) (fun _ => ⟨htoken, by simp [Token.is, hkind]⟩)
      (fun _ => rfl)
  · apply advance_idle.bind
    intro _ _
    apply (ih.expression _).bind
    intro after inner _ hinner
    apply (expect_idle _ _).bind
    intro closing _
    exact .pure ⟨hinner.formed, hinner.numbers⟩
  · apply advance_idle.bind
    intro _ _
    apply (ih.arguments _ _).bind
    intro after elements _ helements
    apply (expect_idle _ _).bind
    intro closing _
    exact .pure ⟨helements.formed, helements.numbers⟩
  · exact fail_from _

end Step

theorem expressionsNew (fuel : Nat) : ExpressionsNew spelled fuel := by
  induction fuel with
  | zero => exact expressionsNew_zero
  | succ fuel ih =>
      exact {
        expression := fun _ => expression_step ih
        binary := fun _ => binary_step ih
        binaryRest := fun _ _ => binaryRest_step ih
        unary := fun _ => unary_step ih
        callRest := fun _ _ => callRest_step ih
        arguments := fun _ => arguments_step ih
        argumentsRest := fun _ => argumentsRest_step ih
        primary := fun _ => primary_step ih }

end Lox.Parser
