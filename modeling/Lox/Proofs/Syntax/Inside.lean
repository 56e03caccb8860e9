import Lox.Proofs.Syntax.Grammar

/-!
# The end of the file in derivations

No derivation passes over the token that ends the file, so the tokens of a
program followed by such a token make up the whole stream that is read.
-/

namespace Lox

/-- No token ends the file. -/
abbrev Grammar.Inside (tokens : List Token) : Prop :=
  ∀ token ∈ tokens, ¬ token.is .endOfFile

namespace Grammar

variable {lower upper : Nat} {tokens tokens' : List Token} {token : Token}

theorem Inside.nil : Inside [] :=
  fun _ htoken => absurd htoken List.not_mem_nil

theorem Inside.cons {s : Symbol} (h : token.is s) (hne : (s == .endOfFile) = false)
    (hrest : Inside tokens) : Inside (token :: tokens) := by
  refine List.forall_mem_cons.2 ⟨?_, hrest⟩
  rw [Token.is, kind_of_is h]
  simpa using hne

theorem Inside.append (h : Inside tokens) (h' : Inside tokens') : Inside (tokens ++ tokens') :=
  List.forall_mem_append.2 ⟨h, h'⟩

theorem Inside.snoc {s : Symbol} (hrest : Inside tokens) (h : token.is s)
    (hne : (s == .endOfFile) = false) : Inside (tokens ++ [token]) :=
  hrest.append (.cons h hne .nil)

/-- An operator does not end the file. -/
theorem Inside.operator {symbols : List Symbol} (h : token.isAny symbols)
    (hne : .endOfFile ∉ symbols) (hrest : Inside tokens) : Inside (token :: tokens) := by
  obtain ⟨s, hs, his⟩ := List.any_eq_true.1 h
  exact .cons his (beq_eq_false_iff_ne.2 fun heq => hne (heq ▸ hs)) hrest

theorem Inside.of_kind {value : Literal} (h : token.kind = value.kind) : Inside [token] := by
  refine List.forall_mem_singleton.2 ?_
  rw [Token.is, h]
  cases value with
  | truth value => cases value <;> decide
  | nil | number _ | text _ => simp [Literal.kind]

mutual

theorem Expression.inside {lower upper : Nat} {tokens : List Token} {e : Expr} :
    Expression lower tokens upper e → Inside tokens
  | .operand h => h.inside List.suffix_rfl
  | .assign hname hequals h => .cons hname rfl (.cons hequals rfl h.inside)
  | .set hobject hdot hname hequals h =>
    hobject.inside.append (.cons hdot rfl (.cons hname rfl (.cons hequals rfl h.inside)))

theorem Operand.inside {levels : List Level} {lower upper : Nat} {tokens : List Token}
    {e : Expr} : Operand levels lower tokens upper e → levels <:+ Level.all → Inside tokens
  | .tighter h, hlevels => h.inside ((List.suffix_cons _ _).trans hlevels)
  | .joined hleft hoperator hright, hlevels => by
    have hall : ∀ step ∈ Level.steps, Symbol.endOfFile ∉ step.1.operators := by decide
    have hright' := hright.inside ((List.suffix_cons _ _).trans hlevels)
    exact (hleft.inside hlevels).append
      (.operator hoperator (hall _ (Level.mem_steps hlevels)) hright')
  | .unary hoperator h, hlevels => .operator hoperator (by decide) (h.inside hlevels)
  | .call h, _ => h.inside

theorem Call.inside {lower upper : Nat} {tokens : List Token} {e : Expr} :
    Call lower tokens upper e → Inside tokens
  | .literal hkind => .of_kind hkind
  | .reference hname => .cons hname rfl .nil
  | .receiver hkeyword => .cons hkeyword rfl .nil
  | .grouping hopening h hclosing => .cons hopening rfl (h.inside.snoc hclosing rfl)
  | .list hopening h hclosing => .cons hopening rfl (h.inside.snoc hclosing rfl)
  | .call hcallee hopening h hclosing =>
    hcallee.inside.append (.cons hopening rfl (h.inside.snoc hclosing rfl))
  | .get hobject hdot hname => hobject.inside.append (.cons hdot rfl (.cons hname rfl .nil))

theorem Arguments.inside {lower upper : Nat} {tokens : List Token} {es : List Expr} :
    Arguments lower tokens upper es → Inside tokens
  | .none => .nil
  | .some h _ => h.inside

theorem Sequence.inside {lower upper : Nat} {tokens : List Token} {es : List Expr} :
    Sequence lower tokens upper es → Inside tokens
  | .last h => h.inside
  | .cons h hcomma hes => h.inside.append (.cons hcomma rfl hes.inside)

end

theorem Clause.inside {value? : Option Expr} (h : Clause lower tokens upper value?) :
    Inside tokens := by
  cases h with
  | none => exact .nil
  | some h => exact h.inside

theorem Names.inside {names : List Token} (h : Names tokens names) : Inside tokens := by
  induction h with
  | last hname => exact .cons hname rfl .nil
  | cons hname hcomma _ ih => exact .cons hname rfl (.cons hcomma rfl ih)

theorem Parameters.inside {names : List Token} (h : Parameters tokens names) : Inside tokens := by
  cases h with
  | none => exact .nil
  | some h _ => exact h.inside

theorem Variable.inside {s : Stmt} (h : Variable lower tokens upper s) : Inside tokens := by
  cases h with
  | plain hname hclosing => exact .cons hname rfl (.cons hclosing rfl .nil)
  | initialized hname hequals h hclosing =>
      exact .cons hname rfl (.cons hequals rfl (h.inside.snoc hclosing rfl))

theorem ForInitializer.inside {s? : Option Stmt} (h : ForInitializer lower tokens upper s?) :
    Inside tokens := by
  cases h with
  | none hclosing => exact .cons hclosing rfl .nil
  | variableDecl hword h => exact .cons hword rfl h.inside
  | expression h hclosing => exact h.inside.snoc hclosing rfl

mutual

theorem Statement.inside {dangling : Bool} {lower upper : Nat} {tokens : List Token} {s : Stmt} :
    Statement dangling lower tokens upper s → Inside tokens
  | .expression h hclosing => h.inside.snoc hclosing rfl
  | .print hword h hclosing => .cons hword rfl (h.inside.snoc hclosing rfl)
  | .giveBack hkeyword h hclosing => .cons hkeyword rfl (h.inside.snoc hclosing rfl)
  | .leave hkeyword hclosing => .cons hkeyword rfl (.cons hclosing rfl .nil)
  | .block hopening h hclosing => .cons hopening rfl (h.inside.snoc hclosing rfl)
  | .loop hword hopening hcondition hclosing h =>
    .cons hword rfl (.cons hopening rfl (hcondition.inside.append (.cons hclosing rfl h.inside)))
  | .forLoop hword hopening hstart htest hsemicolon hstep hclosing h =>
    .cons hword rfl (.cons hopening rfl (hstart.inside.append (htest.inside.append
      (.cons hsemicolon rfl (hstep.inside.append (.cons hclosing rfl h.inside))))))
  | .branch hword hopening hcondition hclosing h =>
    .cons hword rfl (.cons hopening rfl (hcondition.inside.append (.cons hclosing rfl h.inside)))
  | .branchElse hword hopening hcondition hclosing h hotherwise h' =>
    .cons hword rfl (.cons hopening rfl (hcondition.inside.append
      (.cons hclosing rfl (h.inside.append (.cons hotherwise rfl h'.inside)))))

theorem Declaration.inside {dangling : Bool} {lower upper : Nat} {tokens : List Token}
    {s : Stmt} : Declaration dangling lower tokens upper s → Inside tokens
  | .statement h => h.inside
  | .variableDecl hword h => .cons hword rfl h.inside
  | .function hword h => .cons hword rfl h.inside
  | .classDecl hword hname hopening h hclosing =>
    .cons hword rfl (.cons hname rfl (.cons hopening rfl (h.inside.snoc hclosing rfl)))

theorem Declarations.inside {lower upper : Nat} {tokens : List Token} {ss : List Stmt} :
    Declarations lower tokens upper ss → Inside tokens
  | .nil => .nil
  | .cons h hrest => h.inside.append hrest.inside

theorem Callable.inside {lower upper : Nat} {tokens : List Token} {d : FunctionDecl} :
    Callable lower tokens upper d → Inside tokens
  | .mk hname hopening hparameters hclosing hbrace h hlast =>
    .cons hname rfl (.cons hopening rfl (hparameters.inside.append (.cons hclosing rfl
      (.cons hbrace rfl (h.inside.snoc hlast rfl)))))

theorem Methods.inside {lower upper : Nat} {tokens : List Token} {ds : List FunctionDecl} :
    Methods lower tokens upper ds → Inside tokens
  | .nil => .nil
  | .cons h hrest => h.inside.append hrest.inside

end

end Grammar

/-- The stream of tokens with an end of the file in them ends at the first. -/
theorem TokenStream.ofTokens_append {tokens beyond : List Token} {ending : Token}
    (hending : ending.is .endOfFile) (hinside : ∀ token ∈ tokens, ¬ token.is .endOfFile) :
    TokenStream.ofTokens (tokens ++ ending :: beyond) = ⟨tokens, ending⟩ := by
  have hbody : (tokens ++ ending :: beyond).takeWhile (!·.is .endOfFile) = tokens := by
    rw [List.takeWhile_append_of_pos (by simpa using hinside)]
    simp [hending]
  have hfind : (tokens ++ ending :: beyond).find? (·.is .endOfFile) = some ending := by
    rw [List.find?_append, List.find?_eq_none.2 hinside]
    simp [hending]
  rw [TokenStream.ofTokens, hbody, hfind, Option.getD_some]

end Lox
