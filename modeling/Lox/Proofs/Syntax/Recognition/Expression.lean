import Lox.Proofs.Syntax.Recognition

/-!
# Recognition of expressions

What derives an expression is read as that expression, provided that no token
follows that would go on with it.  There is one lemma per production; chains of
operators and of calls are followed from the left, each link leaving the loop of
its level with fuel for what is to come.
-/

namespace Lox.Parser

open Grammar Leads

/-- The symbols that go on with a call. -/
def postfixes : List Symbol :=
  [.leftParen, .dot]

def operators (levels : List Level) : List Symbol :=
  levels.flatMap Level.operators

/-- The symbols that go on with an expression. -/
def continuations : List Symbol :=
  postfixes ++ operators Level.all ++ [.equal]

def callStarts : List Symbol :=
  [.falseWord, .trueWord, .nilWord, .thisWord, .identifier, .leftParen, .leftBracket]

def expressionStarts : List Symbol :=
  callStarts ++ negations

/-! ## First tokens -/

theorem begins_kind {token : Token} {value : Literal} (h : token.kind = value.kind) :
    Begins callStarts token := by
  intro symbol hkind
  rw [h] at hkind
  cases value with
  | nil => cases hkind; decide
  | truth value => cases value <;> cases hkind <;> decide
  | number _ => cases hkind
  | text _ => cases hkind

mutual

theorem Call.headed {lower upper : Nat} {tokens : List Token} {e : Expr} :
    Call lower tokens upper e → Headed callStarts tokens
  | .literal hkind => .cons (begins_kind hkind)
  | .reference hname => .cons (.of_is hname (by decide))
  | .receiver hkeyword => .cons (.of_is hkeyword (by decide))
  | .grouping hopening _ _ => .cons (.of_is hopening (by decide))
  | .list hopening _ _ => .cons (.of_is hopening (by decide))
  | .call hcallee _ _ _ => (Call.headed hcallee).append
  | .get hobject _ _ => (Call.headed hobject).append

theorem Operand.headed {levels : List Level} {lower upper : Nat} {tokens : List Token}
    {e : Expr} : Operand levels lower tokens upper e → Headed expressionStarts tokens
  | .tighter h => Operand.headed h
  | .joined hleft _ _ => (Operand.headed hleft).append
  | .unary hoperator _ => by
      obtain ⟨symbol, hsymbol, his⟩ := List.any_eq_true.1 hoperator
      exact .cons (.of_is his (List.mem_append_right _ hsymbol))
  | .call h => (Call.headed h).mono (by simp [expressionStarts])

end

theorem Expression.headed {lower upper : Nat} {tokens : List Token} {e : Expr}
    (h : Expression lower tokens upper e) : Headed expressionStarts tokens := by
  cases h with
  | operand h => exact Operand.headed h
  | assign hname _ _ => exact .cons (.of_is hname (by decide))
  | set hobject _ _ _ _ => exact ((Call.headed hobject).mono (by simp [expressionStarts])).append

theorem Sequence.headed {lower upper : Nat} {tokens : List Token} {es : List Expr}
    (h : Sequence lower tokens upper es) : Headed expressionStarts tokens := by
  cases h with
  | last he => exact Expression.headed he
  | cons he _ _ => exact (Expression.headed he).append

/-! ## What the parts of an expression lead to -/

def ExpressionLeads (lower : Nat) (tokens : List Token) (upper : Nat) (e : Expr) : Prop :=
  ∀ fuel rest, 32 * (tokens ++ rest).length + 10 ≤ fuel → Stops continuations rest →
    Leads (expression fuel) (tokens ++ rest) lower (pure e) rest upper

/-- The loop that goes on with an operand of the first of the levels. -/
def operandLoop (fuel : Nat) : List Level → Expr → Parser Expr
  | [], e => pure e
  | level :: tighter, e => binaryRest fuel level tighter e

def OperandLeads (levels : List Level) (lower : Nat) (tokens : List Token) (upper : Nat)
    (e : Expr) : Prop :=
  ∀ fuel rest, 32 * (tokens ++ rest).length + levels.length + 3 ≤ fuel →
    Stops (postfixes ++ operators levels.tail) rest →
    ∃ fuel', 32 * rest.length + 1 ≤ fuel' ∧
      Leads (binary fuel levels) (tokens ++ rest) lower (operandLoop fuel' levels e) rest upper

def CallLeads (lower : Nat) (tokens : List Token) (upper : Nat) (e : Expr) : Prop :=
  ∀ fuel rest, 32 * (tokens ++ rest).length + 1 ≤ fuel →
    ∃ fuel', 32 * rest.length + 1 ≤ fuel' ∧
      Leads (primary fuel >>= callRest fuel) (tokens ++ rest) lower (callRest fuel' e) rest upper

def ArgumentsLead (lower : Nat) (tokens : List Token) (upper : Nat) (es : List Expr) : Prop :=
  ∀ fuel symbol closing rest, 32 * (tokens ++ closing :: rest).length + 12 ≤ fuel →
    symbol ∈ [Symbol.rightParen, Symbol.rightBracket] → closing.is symbol →
    Leads (arguments fuel symbol) (tokens ++ closing :: rest) lower (pure es) (closing :: rest)
      upper

def SequenceLeads (lower : Nat) (tokens : List Token) (upper : Nat) (es : List Expr) : Prop :=
  ∀ fuel count rest, 32 * (tokens ++ rest).length + 11 ≤ fuel →
    count + es.length ≤ maxArity → Stops (.comma :: continuations) rest →
    Leads (argumentsRest fuel count) (tokens ++ rest) lower (pure es) rest upper

variable {lower middle upper : Nat} {tokens before rest further : List Token} {e left right : Expr}
variable {es : List Expr} {token name operator opening closing : Token}

/-- Fuel for a part is at least one. -/
theorem exists_fuel {fuel least : Nat} (h : least + 1 ≤ fuel) :
    ∃ fuel', fuel = fuel' + 1 ∧ least ≤ fuel' :=
  ⟨fuel - 1, by omega, by omega⟩

/-! ## Operands -/

/-- The loop of a level ends where none of its operators follows. -/
theorem operandLoop_stops {fuel : Nat} {levels : List Level} (hfuel : 1 ≤ fuel)
    (hstops : Stops (operators levels) rest) :
    Leads (operandLoop fuel levels e) rest upper (pure e) rest upper := by
  cases levels with
  | nil => exact .refl
  | cons level tighter =>
      obtain ⟨fuel, rfl, -⟩ := exists_fuel hfuel
      rw [operandLoop, binaryRest]
      exact accept_none (hstops.mono (by simp [operators])) .refl

/-- An operand is read to its end where nothing follows that goes on with it. -/
theorem OperandLeads.ends {levels : List Level} (fuel : Nat) (rest : List Token)
    (h : OperandLeads levels lower tokens upper e)
    (hfuel : 32 * (tokens ++ rest).length + levels.length + 3 ≤ fuel)
    (hstops : Stops (postfixes ++ operators levels) rest) :
    Leads (binary fuel levels) (tokens ++ rest) lower (pure e) rest upper := by
  have htail : operators levels.tail ⊆ operators levels := by
    intro symbol hsymbol
    obtain ⟨level, hlevel, hmem⟩ := List.mem_flatMap.1 hsymbol
    exact List.mem_flatMap.2 ⟨level, List.mem_of_mem_tail hlevel, hmem⟩
  obtain ⟨fuel', hfuel', hleads⟩ := h fuel rest hfuel
    (hstops.mono (List.append_subset.2
      ⟨List.subset_append_left _ _, List.subset_append_of_subset_right _ htail⟩))
  exact hleads.trans (operandLoop_stops (by omega) (hstops.mono (by simp)))

theorem operand_tighter {level : Level} {tighter : List Level}
    (h : OperandLeads tighter lower tokens upper e) :
    OperandLeads (level :: tighter) lower tokens upper e := by
  intro fuel rest hfuel hstops
  rw [List.length_cons] at hfuel
  obtain ⟨fuel, rfl, hfuel⟩ := exists_fuel (by omega : _ + 1 ≤ fuel)
  refine ⟨fuel, ?_, ?_⟩
  · rw [List.length_append] at hfuel
    omega
  · rw [binary]
    exact (h.ends fuel rest (by omega) hstops).bind .refl

/-- No operator of a level goes on with a call or with an operation of a tighter
level. -/
theorem separate {level : Level} {tighter : List Level} (h : level :: tighter <:+ Level.all)
    (hoperator : operator.isAny level.operators) :
    Stops (postfixes ++ operators tighter) (operator :: rest) := by
  have hall : ∀ step ∈ Level.steps, ∀ symbol ∈ step.1.operators,
      symbol ∉ postfixes ++ operators step.2 := by
    decide
  obtain ⟨symbol, hsymbol, his⟩ := List.any_eq_true.1 hoperator
  exact .of_is his (hall _ (Level.mem_steps h) symbol hsymbol)

theorem operand_joined {level : Level} {tighter : List Level}
    (hlevels : level :: tighter <:+ Level.all)
    (hleft : OperandLeads (level :: tighter) lower before middle left)
    (hoperator : operator.isAny level.operators)
    (hright : OperandLeads tighter middle tokens upper right) :
    OperandLeads (level :: tighter) lower (before ++ operator :: tokens) upper
      (level.build left operator right) := by
  intro fuel rest hfuel hstops
  have hlength : tighter.length ≤ 5 := by
    have := hlevels.length_le
    rw [List.length_cons] at this
    exact Nat.le_of_succ_le_succ this
  rw [List.append_assoc, List.cons_append] at hfuel ⊢
  obtain ⟨fuel', hfuel', hleads⟩ := hleft fuel (operator :: (tokens ++ rest)) hfuel
    (separate hlevels hoperator)
  rw [List.length_cons] at hfuel'
  obtain ⟨fuel', rfl, hfuel'⟩ := exists_fuel (by omega : _ + 1 ≤ fuel')
  refine ⟨fuel', ?_, hleads.trans ?_⟩
  · rw [List.length_append] at hfuel'
    omega
  · rw [operandLoop, binaryRest]
    exact accept_some hoperator ((hright.ends fuel' rest (by omega) hstops).bind .refl)

theorem operand_unary (hoperator : operator.isAny negations)
    (h : OperandLeads [] lower tokens upper e) :
    OperandLeads [] lower (operator :: tokens) upper (.unary operator e) := by
  intro fuel rest hfuel hstops
  simp only [List.cons_append, List.length_cons, List.length_nil] at hfuel ⊢
  obtain ⟨fuel, rfl, hfuel⟩ := exists_fuel (by omega : _ + 1 ≤ fuel)
  obtain ⟨fuel, rfl, hfuel⟩ := exists_fuel (by omega : _ + 1 ≤ fuel)
  refine ⟨fuel, ?_, ?_⟩
  · rw [List.length_append] at hfuel
    omega
  · rw [binary, unary]
    have hoperand : Leads (unary fuel) (tokens ++ rest) lower (pure e) rest upper := by
      have hends := h.ends (fuel + 1) rest (by rw [List.length_nil]; omega) hstops
      rwa [binary] at hends
    exact accept_some hoperator (hoperand.bind .refl)

theorem operand_call (hheaded : Headed callStarts tokens) (h : CallLeads lower tokens upper e) :
    OperandLeads [] lower tokens upper e := by
  intro fuel rest hfuel hstops
  rw [List.length_nil] at hfuel
  obtain ⟨fuel, rfl, hfuel⟩ := exists_fuel (by omega : _ + 1 ≤ fuel)
  obtain ⟨fuel, rfl, hfuel⟩ := exists_fuel (by omega : _ + 1 ≤ fuel)
  obtain ⟨fuel', hfuel', hleads⟩ := h fuel rest (by omega)
  obtain ⟨fuel', rfl, -⟩ := exists_fuel (by omega : 0 + 1 ≤ fuel')
  refine ⟨fuel' + 1, hfuel', ?_⟩
  have hend : Leads (callRest (fuel' + 1) e) rest upper (pure e) rest upper := by
    rw [callRest]
    exact accept_none (hstops.mono (by decide)) (accept_none (hstops.mono (by decide)) .refl)
  rw [binary, unary]
  exact accept_none (hheaded.append.stops (by decide)) (hleads.trans hend)

/-- A call is an operand of every level. -/
theorem operand_of_call (levels : List Level) (hheaded : Headed callStarts tokens)
    (h : CallLeads lower tokens upper e) : OperandLeads levels lower tokens upper e := by
  induction levels with
  | nil => exact operand_call hheaded h
  | cons level tighter ih => exact operand_tighter ih

/-! ## Expressions -/

theorem expression_operand (h : OperandLeads Level.all lower tokens upper e) :
    ExpressionLeads lower tokens upper e := by
  intro fuel rest hfuel hstops
  obtain ⟨fuel, rfl, hfuel⟩ := exists_fuel (by omega : _ + 1 ≤ fuel)
  have hlevels : Level.all.length = 6 := rfl
  rw [expression]
  exact (h.ends fuel rest (by omega) (hstops.mono (by simp [continuations]))).bind
    (accept_none (hstops.mono (by simp [continuations])) .refl)

/-- The target of an assignment is read up to the equals sign. -/
theorem expression_assigns {target value result : Expr} {equals : Token} {after : Nat}
    (before : List Token) (hheaded : Headed callStarts before)
    (htarget : CallLeads lower before middle target) (hequals : equals.is .equal)
    (hvalue : ExpressionLeads middle tokens upper value)
    (hassignment : ∀ rest,
      Leads (assignment target equals value) rest upper (pure result) rest after) :
    ExpressionLeads lower (before ++ equals :: tokens) after result := by
  intro fuel rest hfuel hstops
  rw [List.append_assoc, List.cons_append] at hfuel ⊢
  obtain ⟨fuel, rfl, hfuel⟩ := exists_fuel (by omega : _ + 1 ≤ fuel)
  have hlevels : Level.all.length = 6 := rfl
  have hread := (operand_of_call Level.all hheaded htarget).ends fuel
    (equals :: (tokens ++ rest)) (by omega) (.of_is hequals (by decide))
  rw [List.length_append, List.length_cons] at hfuel
  rw [expression]
  refine hread.bind (accept_some (by simpa [Token.isAny] using hequals) ?_)
  exact (hvalue fuel rest (by omega) hstops).bind (hassignment rest)

/-! ## Calls -/

/-- What is read as a primary expression is read as a call. -/
theorem call_of_primary
    (h : ∀ fuel rest, 32 * (tokens ++ rest).length + 1 ≤ fuel →
      Leads (primary fuel) (tokens ++ rest) lower (pure e) rest upper) :
    CallLeads lower tokens upper e := by
  intro fuel rest hfuel
  refine ⟨fuel, ?_, (h fuel rest hfuel).bind .refl⟩
  rw [List.length_append] at hfuel
  omega

theorem call_literal {value : Literal} (hkind : token.kind = value.kind) :
    CallLeads lower [token] lower (.literal value) := by
  refine call_of_primary fun fuel rest hfuel => ?_
  obtain ⟨fuel, rfl, -⟩ := exists_fuel (by omega : 0 + 1 ≤ fuel)
  rw [primary]
  refine .peek ?_
  cases value with
  | truth value => cases value <;> rw [hkind] <;> exact .advance .refl
  | nil | number _ | text _ => rw [hkind]; exact .advance .refl

theorem call_reference (hname : name.is .identifier) :
    CallLeads lower [name] (lower + 1) (.reference lower name) := by
  refine call_of_primary fun fuel rest hfuel => ?_
  obtain ⟨fuel, rfl, -⟩ := exists_fuel (by omega : 0 + 1 ≤ fuel)
  rw [primary]
  refine .peek ?_
  rw [kind_of_is hname]
  exact .advance (.freshId .refl)

theorem call_receiver (hkeyword : token.is .thisWord) :
    CallLeads lower [token] (lower + 1) (.receiver lower token) := by
  refine call_of_primary fun fuel rest hfuel => ?_
  obtain ⟨fuel, rfl, -⟩ := exists_fuel (by omega : 0 + 1 ≤ fuel)
  rw [primary]
  refine .peek ?_
  rw [kind_of_is hkeyword]
  exact .advance (.freshId .refl)

theorem call_grouping (hopening : opening.is .leftParen) (h : ExpressionLeads lower tokens upper e)
    (hclosing : closing.is .rightParen) :
    CallLeads lower (opening :: (tokens ++ [closing])) upper (.grouping e) := by
  refine call_of_primary fun fuel rest hfuel => ?_
  simp only [List.cons_append, List.append_assoc, List.nil_append, List.length_cons] at hfuel ⊢
  obtain ⟨fuel, rfl, hfuel⟩ := exists_fuel (by omega : _ + 1 ≤ fuel)
  rw [primary]
  refine .peek ?_
  rw [kind_of_is hopening]
  refine .advance ((h fuel (closing :: rest) (by omega) (.of_is hclosing (by decide))).bind ?_)
  exact .expect hclosing .refl

theorem call_list (hopening : opening.is .leftBracket) (h : ArgumentsLead lower tokens upper es)
    (hclosing : closing.is .rightBracket) :
    CallLeads lower (opening :: (tokens ++ [closing])) upper (.list closing es) := by
  refine call_of_primary fun fuel rest hfuel => ?_
  simp only [List.cons_append, List.append_assoc, List.nil_append, List.length_cons] at hfuel ⊢
  obtain ⟨fuel, rfl, hfuel⟩ := exists_fuel (by omega : _ + 1 ≤ fuel)
  rw [primary]
  refine .peek ?_
  rw [kind_of_is hopening]
  refine .advance ((h fuel .rightBracket closing rest (by omega) (by decide) hclosing).bind ?_)
  exact .expect hclosing .refl

theorem call_call (hcallee : CallLeads lower before middle e) (hopening : opening.is .leftParen)
    (h : ArgumentsLead middle tokens upper es) (hclosing : closing.is .rightParen) :
    CallLeads lower (before ++ opening :: (tokens ++ [closing])) upper (.call e closing es) := by
  intro fuel rest hfuel
  simp only [List.append_assoc, List.cons_append, List.nil_append] at hfuel ⊢
  obtain ⟨fuel', hfuel', hleads⟩ := hcallee fuel _ hfuel
  rw [List.length_cons] at hfuel'
  obtain ⟨fuel', rfl, hfuel'⟩ := exists_fuel (by omega : _ + 1 ≤ fuel')
  refine ⟨fuel', ?_, hleads.trans ?_⟩
  · rw [List.length_append, List.length_cons] at hfuel'
    omega
  · rw [callRest]
    refine accept_some (by simpa [Token.isAny] using hopening) ?_
    refine (h fuel' .rightParen closing rest (by omega) (by decide) hclosing).bind ?_
    exact .expect hclosing .refl

theorem call_get {dot : Token} (hobject : CallLeads lower tokens upper e) (hdot : dot.is .dot)
    (hname : name.is .identifier) :
    CallLeads lower (tokens ++ [dot, name]) upper (.get e name) := by
  intro fuel rest hfuel
  simp only [List.append_assoc, List.cons_append, List.nil_append] at hfuel ⊢
  obtain ⟨fuel', hfuel', hleads⟩ := hobject fuel _ hfuel
  simp only [List.length_cons] at hfuel'
  obtain ⟨fuel', rfl, hfuel'⟩ := exists_fuel (by omega : _ + 1 ≤ fuel')
  refine ⟨fuel', by omega, hleads.trans ?_⟩
  rw [callRest]
  refine accept_none (.of_is hdot (by decide)) ?_
  exact accept_some (by simpa [Token.isAny] using hdot) (.expect hname .refl)

/-! ## Arguments -/

theorem arguments_none : ArgumentsLead lower [] lower [] := by
  intro fuel symbol closing rest hfuel _ hclosing
  obtain ⟨fuel, rfl, -⟩ := exists_fuel (by omega : 0 + 1 ≤ fuel)
  rw [arguments]
  exact nextIs_true hclosing .refl

theorem arguments_some (hheaded : Headed expressionStarts tokens)
    (h : SequenceLeads lower tokens upper es) (hlength : es.length ≤ maxArity) :
    ArgumentsLead lower tokens upper es := by
  intro fuel symbol closing rest hfuel hsymbol hclosing
  obtain ⟨fuel, rfl, hfuel⟩ := exists_fuel (by omega : _ + 1 ≤ fuel)
  have hfirst : symbol ∉ expressionStarts := by
    simp only [List.mem_cons, List.not_mem_nil, or_false] at hsymbol
    rcases hsymbol with rfl | rfl <;> decide
  have hnext : symbol ∉ .comma :: continuations := by
    simp only [List.mem_cons, List.not_mem_nil, or_false] at hsymbol
    rcases hsymbol with rfl | rfl <;> decide
  rw [arguments]
  refine nextIs_false (hheaded.append.stops fun other hother hmem => ?_) ?_
  · exact hfirst (List.mem_singleton.1 hmem ▸ hother)
  exact h fuel 0 (closing :: rest) (by omega) (by omega) (.of_is hclosing hnext)

theorem sequence_last (h : ExpressionLeads lower tokens upper e) :
    SequenceLeads lower tokens upper [e] := by
  intro fuel count rest hfuel hcount hstops
  rw [List.length_singleton] at hcount
  obtain ⟨fuel, rfl, hfuel⟩ := exists_fuel (by omega : _ + 1 ≤ fuel)
  rw [argumentsRest]
  refine .checkArity (by omega) ((h fuel rest (by omega) (hstops.mono (by simp))).bind ?_)
  exact accept_none (hstops.mono (by simp)) .refl

theorem sequence_cons {comma : Token} (he : ExpressionLeads lower tokens middle e)
    (hcomma : comma.is .comma) (hes : SequenceLeads middle further upper es) :
    SequenceLeads lower (tokens ++ comma :: further) upper (e :: es) := by
  intro fuel count rest hfuel hcount hstops
  rw [List.append_assoc, List.cons_append] at hfuel ⊢
  rw [List.length_cons] at hcount
  obtain ⟨fuel, rfl, hfuel⟩ := exists_fuel (by omega : _ + 1 ≤ fuel)
  rw [argumentsRest]
  refine .checkArity (by omega) ((he fuel _ (by omega) (.of_is hcomma (by decide))).bind ?_)
  rw [List.length_append, List.length_cons] at hfuel
  refine accept_some (by simpa [Token.isAny] using hcomma) ?_
  exact (hes fuel (count + 1) rest (by omega) (by omega) hstops).bind .refl

/-! ## Derivations -/

mutual

theorem Expression.leads {lower upper : Nat} {tokens : List Token} {e : Expr} :
    Expression lower tokens upper e → ExpressionLeads lower tokens upper e
  | .operand h => expression_operand (Operand.leads h List.suffix_rfl)
  | .assign hname hequals hvalue =>
    expression_assigns [_] (.cons (.of_is hname (by decide))) (call_reference hname)
      hequals (Expression.leads hvalue) fun _ => .freshId .refl
  | .set hobject hdot hname hequals hvalue => by
    have hassigns := expression_assigns _ (Call.headed hobject).append
      (call_get (Call.leads hobject) hdot hname) hequals (Expression.leads hvalue)
      fun _ => .refl
    simpa only [List.append_assoc, List.cons_append, List.nil_append] using hassigns

theorem Operand.leads {levels : List Level} {lower upper : Nat} {tokens : List Token} {e : Expr} :
    Operand levels lower tokens upper e → levels <:+ Level.all →
      OperandLeads levels lower tokens upper e
  | .tighter h, hlevels => operand_tighter (Operand.leads h ((List.suffix_cons _ _).trans hlevels))
  | .joined hleft hoperator hright, hlevels =>
    operand_joined hlevels (Operand.leads hleft hlevels) hoperator
      (Operand.leads hright ((List.suffix_cons _ _).trans hlevels))
  | .unary hoperator h, hlevels => operand_unary hoperator (Operand.leads h hlevels)
  | .call h, _ => operand_call (Call.headed h) (Call.leads h)

theorem Call.leads {lower upper : Nat} {tokens : List Token} {e : Expr} :
    Call lower tokens upper e → CallLeads lower tokens upper e
  | .literal hkind => call_literal hkind
  | .reference hname => call_reference hname
  | .receiver hkeyword => call_receiver hkeyword
  | .grouping hopening h hclosing => call_grouping hopening (Expression.leads h) hclosing
  | .list hopening h hclosing => call_list hopening (Arguments.leads h) hclosing
  | .call hcallee hopening h hclosing =>
    call_call (Call.leads hcallee) hopening (Arguments.leads h) hclosing
  | .get hobject hdot hname => call_get (Call.leads hobject) hdot hname

theorem Arguments.leads {lower upper : Nat} {tokens : List Token} {es : List Expr} :
    Arguments lower tokens upper es → ArgumentsLead lower tokens upper es
  | .none => arguments_none
  | .some h hlength => arguments_some (Sequence.headed h) (Sequence.leads h) hlength

theorem Sequence.leads {lower upper : Nat} {tokens : List Token} {es : List Expr} :
    Sequence lower tokens upper es → SequenceLeads lower tokens upper es
  | .last h => sequence_last (Expression.leads h)
  | .cons he hcomma hes => sequence_cons (Expression.leads he) hcomma (Sequence.leads hes)

end

end Lox.Parser
