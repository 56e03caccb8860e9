import Lox.Proofs.Syntax.Reading

/-!
# Reading of expressions

Every expression that is read without a report is derived by the tokens it was
read from.  The bounds on the fuel count the steps that a part can take before
it passes over a token, which is never more than the levels of the grammar.
-/

namespace Lox.Parser

open Grammar

/-- Tokens that go on with what has been derived already. -/
def Continued {α : Type} (derives : Nat → List Token → Nat → α → Prop) (tokens : List Token)
    (next : Nat) (left : α) (rest : List Token) (after : Nat) (result : α) : Prop :=
  ∀ lower before, derives lower before next left →
    ∃ passed, tokens = passed ++ rest ∧ derives lower (before ++ passed) after result

theorem Continued.refl {α : Type} {derives : Nat → List Token → Nat → α → Prop}
    {tokens : List Token} {next : Nat} {left : α} :
    Continued derives tokens next left tokens next left :=
  fun _ before h => ⟨[], rfl, by rwa [List.append_nil]⟩

/-- One step further, and what goes on from there. -/
theorem Continued.step {α : Type} {derives : Nat → List Token → Nat → α → Prop}
    {tokens rest last : List Token} {next middle after : Nat} {left result value : α}
    (passed : List Token)
    (hstep : ∀ lower before, derives lower before next left →
      derives lower (before ++ passed) middle result)
    (htokens : tokens = passed ++ rest)
    (h : Continued derives rest middle result last after value) :
    Continued derives tokens next left last after value := by
  intro lower before hleft
  obtain ⟨more, rfl, hvalue⟩ := h lower (before ++ passed) (hstep lower before hleft)
  exact ⟨passed ++ more, by simp [htokens], by rwa [← List.append_assoc]⟩

/-- Every part of an expression is read with enough fuel. -/
structure ExpressionsRead (fuel : Nat) : Prop where
  expression (tokens : List Token) (next : Nat) (hfuel : 32 * tokens.length + 10 ≤ fuel) :
    Reads true tokens next (expression fuel) (Derived Expression tokens next)
  binary (levels : List Level) (tokens : List Token) (next : Nat) (hlevels : levels.length ≤ 6)
    (hfuel : 32 * tokens.length + levels.length + 3 ≤ fuel) :
    Reads true tokens next (binary fuel levels) (Derived (Operand levels) tokens next)
  binaryRest (level : Level) (tighter : List Level) (left : Expr) (tokens : List Token)
    (next : Nat) (hlevels : tighter.length < 6) (hfuel : 32 * tokens.length + 1 ≤ fuel) :
    Reads false tokens next (binaryRest fuel level tighter left)
      (Continued (Operand (level :: tighter)) tokens next left)
  unary (tokens : List Token) (next : Nat) (hfuel : 32 * tokens.length + 2 ≤ fuel) :
    Reads true tokens next (unary fuel) (Derived (Operand []) tokens next)
  callRest (callee : Expr) (tokens : List Token) (next : Nat)
    (hfuel : 32 * tokens.length + 1 ≤ fuel) :
    Reads false tokens next (callRest fuel callee) (Continued Call tokens next callee)
  arguments (closing : Symbol) (tokens : List Token) (next : Nat)
    (hfuel : 32 * tokens.length + 12 ≤ fuel) :
    Reads false tokens next (arguments fuel closing) (Derived Arguments tokens next)
  argumentsRest (count : Nat) (tokens : List Token) (next : Nat)
    (hfuel : 32 * tokens.length + 11 ≤ fuel) :
    Reads true tokens next (argumentsRest fuel count) fun rest after es =>
      Derived Sequence tokens next rest after es ∧ count + es.length ≤ maxArity
  primary (tokens : List Token) (next : Nat) (hfuel : 32 * tokens.length + 1 ≤ fuel) :
    Reads true tokens next (primary fuel) (Derived Call tokens next)

/-- Only a variable or a property is assigned to without a report. -/
theorem assignment_reads {tokens : List Token} {next : Nat} {target value : Expr} (equals : Token)
    {derives : List Token → Nat → Expr → Prop}
    (hreference : ∀ id name, target = .reference id name →
      derives tokens (next + 1) (.assign next name value))
    (hget : ∀ object name, target = .get object name →
      derives tokens next (.set object name value)) :
    Reads false tokens next (assignment target equals value) derives := by
  cases target with
  | reference id name => exact .freshId (.pure (hreference id name rfl))
  | get object name => exact .pure (hget object name rfl)
  | literal _ | grouping _ | unary _ _ | binary _ _ _ | logical _ _ _ | assign _ _ _
  | receiver _ _ | set _ _ _ | call _ _ _ | list _ _ =>
      exact .report equals (.pure trivial)

/-- What has been read as the target of an assignment, and then its value. -/
theorem assigned {before tokens : List Token} {lower middle upper : Nat} {equals : Token}
    {target value : Expr} (htarget : Operand Level.all lower before middle target)
    (hequals : equals.is .equal) (hvalue : Expression middle tokens upper value) :
    (∀ id name, target = .reference id name →
      Expression lower (before ++ equals :: tokens) (upper + 1) (.assign upper name value)) ∧
    ∀ object name, target = .get object name →
      Expression lower (before ++ equals :: tokens) upper (.set object name value) := by
  constructor
  · rintro id name rfl
    cases htarget.toCall rfl with
    | reference hname => exact .assign hname hequals hvalue
  · rintro object name rfl
    cases htarget.toCall rfl with
    | get hobject hdot hname => simpa using Expression.set hobject hdot hname hequals hvalue

theorem expressionsRead_zero : ExpressionsRead 0 where
  expression _ _ hfuel := by omega
  binary _ _ _ _ hfuel := by omega
  binaryRest _ _ _ _ _ _ hfuel := by omega
  unary _ _ hfuel := by omega
  callRest _ _ _ hfuel := by omega
  arguments _ _ _ hfuel := by omega
  argumentsRest _ _ _ hfuel := by omega
  primary _ _ hfuel := by omega

/-- A part that is one token. -/
theorem primary_single {tokens : List Token} {token : Token} {next : Nat} {part : Parser Expr}
    (hupcoming : Reads.Upcoming tokens token) {kind : Kind} (hkind : token.kind = kind)
    (hne : kind ≠ .symbol .endOfFile)
    (h : ∀ rest, Reads false rest next part fun last after e =>
      last = rest ∧ Call next [token] after e) :
    Reads true tokens next (advance >>= fun _ => part) (Derived Call tokens next) := by
  apply Reads.advance hupcoming hkind hne
  rintro rest rfl
  apply (h rest).mono
  rintro last after e ⟨rfl, he⟩
  exact ⟨[token], rfl, he⟩

section Step

variable {fuel : Nat} (ih : ExpressionsRead fuel)
include ih

theorem expression_reads (tokens : List Token) (next : Nat)
    (hfuel : 32 * tokens.length + 10 ≤ fuel + 1) :
    Reads true tokens next (expression (fuel + 1)) (Derived Expression tokens next) := by
  have hlevels : Level.all.length = 6 := rfl
  rw [expression]
  apply (ih.binary Level.all tokens next hlevels.le (by omega)).bind
  intro rest middle target hrest
  apply Reads.accept?
  · rintro equals behind rfl hequals
    rw [List.length_cons] at hrest
    apply (ih.expression behind middle (by omega)).bind
    intro last upper value _
    apply assignment_reads
    · rintro id name rfl ⟨tokens', rfl, hvalue⟩ ⟨before, rfl, htarget⟩
      refine ⟨before ++ equals :: tokens', by simp, ?_⟩
      exact (assigned htarget (by simpa [Token.isAny] using hequals) hvalue).1 id name rfl
    · rintro object name rfl ⟨tokens', rfl, hvalue⟩ ⟨before, rfl, htarget⟩
      refine ⟨before ++ equals :: tokens', by simp, ?_⟩
      exact (assigned htarget (by simpa [Token.isAny] using hequals) hvalue).2 object name rfl
  · intro _
    refine .pure ?_
    rintro ⟨passed, rfl, htarget⟩
    exact ⟨passed, rfl, .operand htarget⟩

theorem binary_reads (levels : List Level) (tokens : List Token) (next : Nat)
    (hlevels : levels.length ≤ 6) (hfuel : 32 * tokens.length + levels.length + 3 ≤ fuel + 1) :
    Reads true tokens next (binary (fuel + 1) levels) (Derived (Operand levels) tokens next) := by
  cases levels with
  | nil =>
      rw [binary]
      exact ih.unary tokens next (by simpa using hfuel)
  | cons level tighter =>
      rw [List.length_cons] at hlevels hfuel
      rw [binary]
      apply (ih.binary tighter tokens next (by omega) (by omega)).bind
      intro rest middle left hrest
      apply (ih.binaryRest level tighter left rest middle (by omega) (by omega)).mono
      rintro last after e hcontinued ⟨passed, rfl, hleft⟩
      obtain ⟨more, rfl, he⟩ := hcontinued next passed hleft.tighter
      exact ⟨passed ++ more, by simp, he⟩

theorem binaryRest_reads (level : Level) (tighter : List Level) (left : Expr)
    (tokens : List Token) (next : Nat) (hlevels : tighter.length < 6)
    (hfuel : 32 * tokens.length + 1 ≤ fuel + 1) :
    Reads false tokens next (binaryRest (fuel + 1) level tighter left)
      (Continued (Operand (level :: tighter)) tokens next left) := by
  rw [binaryRest]
  apply Reads.accept?
  · rintro operator behind rfl hoperator
    rw [List.length_cons] at hfuel
    apply (ih.binary tighter behind next hlevels.le (by omega)).bind
    intro rest middle right hrest
    apply (ih.binaryRest level tighter _ rest middle hlevels (by omega)).mono
    rintro last after e hcontinued ⟨passed, rfl, hright⟩
    refine .step (operator :: passed) ?_ rfl hcontinued
    exact fun lower before hleft => .joined hleft hoperator hright
  · intro _
    exact .pure .refl

theorem unary_reads (tokens : List Token) (next : Nat)
    (hfuel : 32 * tokens.length + 2 ≤ fuel + 1) :
    Reads true tokens next (unary (fuel + 1)) (Derived (Operand []) tokens next) := by
  rw [unary]
  apply Reads.accept?
  · rintro operator behind rfl hoperator
    rw [List.length_cons] at hfuel
    apply (ih.unary behind next (by omega)).bind
    intro rest middle operand _
    refine .pure ?_
    rintro ⟨passed, rfl, hoperand⟩
    exact ⟨operator :: passed, rfl, .unary hoperator hoperand⟩
  · intro _
    apply (ih.primary tokens next (by omega)).bind
    intro rest middle callee hrest
    apply (ih.callRest callee rest middle (by omega)).mono
    rintro last after e hcontinued ⟨passed, rfl, hcallee⟩
    obtain ⟨more, rfl, he⟩ := hcontinued next passed hcallee
    exact ⟨passed ++ more, by simp, .call he⟩

theorem callRest_reads (callee : Expr) (tokens : List Token) (next : Nat)
    (hfuel : 32 * tokens.length + 1 ≤ fuel + 1) :
    Reads false tokens next (callRest (fuel + 1) callee) (Continued Call tokens next callee) := by
  rw [callRest]
  apply Reads.accept?
  · rintro opening behind rfl hopening
    rw [List.length_cons] at hfuel
    apply (ih.arguments .rightParen behind next (by omega)).bind_still
    intro rest middle arguments hrest
    apply Reads.expect
    rintro closing last rfl hclosing
    rw [List.length_cons] at hrest
    apply (ih.callRest _ last middle (by omega)).mono
    rintro final after e hcontinued ⟨passed, rfl, harguments⟩
    refine .step (opening :: (passed ++ [closing])) ?_ (by simp) hcontinued
    intro lower before hcallee
    exact .call hcallee (by simpa [Token.isAny] using hopening) harguments hclosing
  · intro _
    apply Reads.accept?
    · rintro dot behind rfl hdot
      rw [List.length_cons] at hfuel
      apply Reads.expect
      rintro name last rfl hname
      rw [List.length_cons] at hfuel
      apply (ih.callRest _ last next (by omega)).mono
      intro final after e hcontinued
      refine .step [dot, name] ?_ rfl hcontinued
      exact fun lower before hcallee => .get hcallee (by simpa [Token.isAny] using hdot) hname
    · intro _
      exact .pure .refl

theorem arguments_reads (closing : Symbol) (tokens : List Token) (next : Nat)
    (hfuel : 32 * tokens.length + 12 ≤ fuel + 1) :
    Reads false tokens next (arguments (fuel + 1) closing) (Derived Arguments tokens next) := by
  rw [arguments]
  apply Reads.nextIs
  · rintro token rest rfl _
    exact .pure ⟨[], rfl, .none⟩
  · apply (ih.argumentsRest 0 tokens next (by omega)).weaken.mono
    rintro rest after es ⟨⟨passed, rfl, hes⟩, hlength⟩
    exact ⟨passed, rfl, .some hes (by omega)⟩

theorem argumentsRest_reads (count : Nat) (tokens : List Token) (next : Nat)
    (hfuel : 32 * tokens.length + 11 ≤ fuel + 1) :
    Reads true tokens next (argumentsRest (fuel + 1) count) fun rest after es =>
      Derived Sequence tokens next rest after es ∧ count + es.length ≤ maxArity := by
  rw [argumentsRest]
  apply Reads.checkArity
  apply (ih.expression tokens next (by omega)).bind
  intro rest middle argument hrest
  apply Reads.accept?
  · rintro comma behind rfl hcomma
    rw [List.length_cons] at hrest
    apply (ih.argumentsRest (count + 1) behind middle (by omega)).bind
    intro last after es _
    refine .pure ?_
    rintro ⟨⟨more, rfl, hes⟩, hlength⟩ ⟨passed, rfl, hargument⟩ _
    refine ⟨⟨passed ++ comma :: more, by simp, ?_⟩, by rw [List.length_cons]; omega⟩
    exact .cons hargument (by simpa [Token.isAny] using hcomma) hes
  · intro _
    refine .pure ?_
    rintro ⟨passed, rfl, hargument⟩ hcount
    exact ⟨⟨passed, rfl, .last hargument⟩, hcount⟩

theorem primary_reads (tokens : List Token) (next : Nat)
    (hfuel : 32 * tokens.length + 1 ≤ fuel + 1) :
    Reads true tokens next (primary (fuel + 1)) (Derived Call tokens next) := by
  rw [primary]
  apply Reads.peek
  intro token hupcoming
  split
  iterate 5
    rename_i hkind
    exact primary_single hupcoming hkind (by simp) fun rest => .pure ⟨rfl, .literal hkind⟩
  · rename_i hkind
    exact primary_single hupcoming hkind (by simp) fun rest =>
      .freshId (.pure ⟨rfl, .receiver (is_of_kind hkind)⟩)
  · rename_i hkind
    exact primary_single hupcoming hkind (by simp) fun rest =>
      .freshId (.pure ⟨rfl, .reference (is_of_kind hkind)⟩)
  · rename_i hkind
    apply Reads.advance hupcoming hkind (by simp)
    rintro rest rfl
    rw [List.length_cons] at hfuel
    apply (ih.expression rest next (by omega)).bind
    intro rest' middle inner _
    apply Reads.expect
    rintro closing last rfl hclosing
    refine .pure ?_
    rintro ⟨passed, rfl, hinner⟩
    exact ⟨token :: (passed ++ [closing]), by simp,
      .grouping (is_of_kind hkind) hinner hclosing⟩
  · rename_i hkind
    apply Reads.advance hupcoming hkind (by simp)
    rintro rest rfl
    rw [List.length_cons] at hfuel
    apply (ih.arguments .rightBracket rest next (by omega)).bind_still
    intro rest' middle elements _
    apply Reads.expect
    rintro closing last rfl hclosing
    refine .pure ?_
    rintro ⟨passed, rfl, helements⟩
    exact ⟨token :: (passed ++ [closing]), by simp,
      .list (is_of_kind hkind) helements hclosing⟩
  · exact .fail .expression

end Step

theorem expressionsRead (fuel : Nat) : ExpressionsRead fuel := by
  induction fuel with
  | zero => exact expressionsRead_zero
  | succ fuel ih =>
      exact {
        expression := expression_reads ih
        binary := binary_reads ih
        binaryRest := binaryRest_reads ih
        unary := unary_reads ih
        callRest := callRest_reads ih
        arguments := arguments_reads ih
        argumentsRest := argumentsRest_reads ih
        primary := primary_reads ih }

end Lox.Parser
