import Lox.Proofs.Syntax.Prediction

/-!
# Prediction of expressions

Every rule for expressions reads the words of its phrase in front of anything
that does not begin with a token by which the rule would go on.
-/

namespace Lox

/-- No continuation begins with one of the symbols. -/
def Avoids (symbols : List Symbol) (K : Language Token) : Prop :=
  ∀ (token : Token) (tokens : List Token), token :: tokens ∈ K → token.isAny symbols = false

namespace Avoids

variable {symbols : List Symbol} {K : Language Token}

theorem mono {others : List Symbol} (h : Avoids symbols K) (hsubset : others ⊆ symbols) :
    Avoids others K := by
  intro token tokens hK
  have hnone := h token tokens hK
  rw [Token.isAny, List.any_eq_false] at hnone ⊢
  exact fun symbol hsymbol => hnone symbol (hsubset hsymbol)

theorem mul {p : Phrase} (hp : ∀ symbol ∈ symbols, p.starts (.symbol symbol) = false)
    (hK : p.nullable → Avoids symbols K) : Avoids symbols (p.language * K) := by
  intro token tokens h
  rcases Phrase.starts_of_mem_mul h with hstarts | ⟨hnullable, h⟩
  · by_contra hany
    obtain ⟨symbol, hsymbol, his⟩ := List.any_eq_true.1 (Bool.of_not_eq_false hany)
    rw [Grammar.kind_of_is his, hp symbol hsymbol] at hstarts
    cases hstarts
  · exact hK hnullable token tokens h

theorem elim (h : Avoids symbols K) {token : Token} {tokens : List Token}
    (hany : token.isAny symbols) (hK : token :: tokens ∈ K) : False :=
  Bool.noConfusion (hany.symm.trans (h token tokens hK))

/-- A phrase with no empty word hides what comes behind it. -/
theorem of_phrase {p : Phrase} (hp : ∀ symbol ∈ symbols, p.starts (.symbol symbol) = false)
    (hnullable : p.nullable = false) : Avoids symbols (p.language * K) :=
  mul hp fun h => Bool.noConfusion (hnullable.symm.trans h)

end Avoids

namespace Nonterminal

/-- The rule for operands of the operators looser than the given levels. -/
def operand : List Level → Nonterminal
  | [] => unary
  | [_] => factor
  | [_, _] => term
  | [_, _, _] => comparison
  | [_, _, _, _] => equality
  | [_, _, _, _, _] => logicAnd
  | _ => logicOr

end Nonterminal

open Phrase

/-- The further operands of a level, each behind its operator. -/
def Level.further (level : Level) (tighter : List Level) : Phrase :=
  many (inOrder [words level.operators, rule (.operand tighter)])

/-- The calls and properties that follow a primary expression. -/
def Phrase.suffixes : Phrase :=
  many (oneOf [
    inOrder [word .leftParen, opt (rule .arguments), word .rightParen],
    inOrder [word .dot, word .identifier]])

theorem Phrase.language_suffixes : suffixes.language =
    (words [.leftParen]).language *
        ((opt (rule .arguments)).language * ((word .rightParen).language * suffixes.language)) +
      ((words [.dot]).language * ((word .identifier).language * suffixes.language) + 1) :=
  calc suffixes.language
    _ = (oneOf [inOrder [word .leftParen, opt (rule .arguments), word .rightParen],
        inOrder [word .dot, word .identifier]]).language * suffixes.language + 1 :=
      language_many _
    _ = _ := by
      rw [oneOf, oneOf, language_alt, add_mul, add_assoc]
      simp only [inOrder, language_seq, mul_assoc]
      rfl

/-- The symbols by which an operand of the levels, or a call, goes on. -/
def Level.followers (levels : List Level) : List Symbol :=
  [.leftParen, .dot] ++ levels.flatMap Level.operators

namespace Parser

/-- The symbols by which an expression goes on. -/
def expressionFollowers : List Symbol :=
  .equal :: Level.followers Level.all

variable {K : Language Token}

theorem body_operand : ∀ step ∈ Level.steps, (Nonterminal.operand (step.1 :: step.2)).body =
    seq (rule (.operand step.2)) (step.1.further step.2) := by
  decide

theorem starts_further : ∀ step ∈ Level.steps, ∀ symbol ∈ Level.followers step.2,
    (step.1.further step.2).starts (.symbol symbol) = false := by
  decide

theorem operators_plain : ∀ level ∈ Level.all, .endOfFile ∉ level.operators := by
  decide

theorem avoids_further {level : Level} {tighter : List Level}
    (hlevels : level :: tighter <:+ Level.all)
    (hK : Avoids (Level.followers (level :: tighter)) K) :
    Avoids (Level.followers tighter) ((level.further tighter).language * K) := by
  apply Avoids.mul (starts_further _ (Level.mem_steps hlevels))
  intro _
  apply hK.mono
  rw [Level.followers, Level.followers, List.flatMap_cons]
  grind

/-- With this much fuel every rule for expressions predicts its phrase. -/
structure ExpressionsPredict (fuel : Nat) : Prop where
  expression {K : Language Token} (hK : K.Nonempty) (havoids : Avoids expressionFollowers K) :
    Predicts Always (rule .expression).language K (expression fuel)
  binary {K : Language Token} (levels : List Level) (hlevels : levels <:+ Level.all)
    (hK : K.Nonempty) (havoids : Avoids (Level.followers levels) K) :
    Predicts Always (rule (.operand levels)).language K (binary fuel levels)
  binaryRest {K : Language Token} (level : Level) (tighter : List Level) (left : Expr)
    (hlevels : level :: tighter <:+ Level.all) (hK : K.Nonempty)
    (havoids : Avoids (Level.followers (level :: tighter)) K) :
    Predicts Always (level.further tighter).language K (binaryRest fuel level tighter left)
  unary {K : Language Token} (hK : K.Nonempty) (havoids : Avoids (Level.followers []) K) :
    Predicts Always (rule .unary).language K (unary fuel)
  callRest {K : Language Token} (callee : Expr) (hK : K.Nonempty)
    (havoids : Avoids (Level.followers []) K) :
    Predicts Always suffixes.language K (callRest fuel callee)
  arguments {K : Language Token} (closing : Symbol)
    (hclosing : closing ∈ [Symbol.rightParen, .rightBracket]) (hK : K.Nonempty) :
    Predicts Always (opt (rule .arguments)).language ((word closing).language * K)
      (arguments fuel closing)
  argumentsRest {K : Language Token} (count : Nat) (hK : K.Nonempty)
    (havoids : Avoids (.comma :: expressionFollowers) K) :
    Predicts Always (rule .arguments).language K (argumentsRest fuel count)
  primary {K : Language Token} (hK : K.Nonempty) :
    Predicts Always (rule .primary).language K (primary fuel)

theorem expressionsPredict_zero : ExpressionsPredict 0 where
  expression _ _ := .halt
  binary _ _ _ _ := .halt
  binaryRest _ _ _ _ _ _ := .halt
  unary _ _ := .halt
  callRest _ _ _ := .halt
  arguments _ _ _ := .halt
  argumentsRest _ _ _ := .halt
  primary _ := .halt

/-- A token that is an expression by itself. -/
theorem atom_predicts {ahead : Token → Prop} {kind : Kind} {rest : Unit → Parser Expr}
    (hkind : ∀ token, ahead token → token.kind = kind)
    (hnarrow : Nonterminal.primary.body.narrow kind = token Terminal.atoms)
    (hfits : Terminal.atoms.any (·.fits kind)) (hrest : Predicts Always 1 K (rest ())) :
    Predicts ahead Nonterminal.primary.body.language K (advance >>= rest) := by
  apply Predicts.narrow hkind
  rw [hnarrow]
  refine (Predicts.advance (fun token hahead => ?_) (by decide)).idle fun _ => hrest
  rwa [hkind token hahead]

/-- Making an assignment passes no token and interrupts nothing. -/
theorem assignment_predicts (target : Expr) (equals : Token) (value : Expr) :
    Predicts Always 1 K (assignment target equals value) := by
  cases target with
  | reference _ name => exact .freshId fun _ => .finish
  | get object name => exact .finish
  | literal _ | grouping _ | unary _ _ | binary _ _ _ | logical _ _ _ | assign _ _ _
  | receiver _ _ | set _ _ _ | call _ _ _ | list _ _ => exact .report (by simp) .finish

section Step

variable {fuel : Nat} (ih : ExpressionsPredict fuel)
include ih

theorem expression_predicts (hK : K.Nonempty) (havoids : Avoids expressionFollowers K) :
    Predicts Always (rule .expression).language K (expression (fuel + 1)) := by
  rw [expression]
  apply Predicts.of_rule
  apply Predicts.of_rule
  apply Predicts.seq
  · apply ih.binary Level.all List.suffix_rfl (nonempty_mul rfl hK)
    apply Avoids.mul (by decide)
    intro _
    exact havoids.mono (List.subset_cons_self _ _)
  · intro target
    apply Predicts.accept_opt (by decide) (M := (rule .assignment).language)
    · exact language_opt_words [.equal] (rule .assignment)
    · intro token tokens hany h
      exact ((havoids.mono (by simp [expressionFollowers])).elim hany h).elim
    · intro equals
      have hvalue := ih.expression hK havoids
      rw [language_rule] at hvalue
      exact hvalue.idle (assignment_predicts target equals)
    · exact .finish

theorem binary_predicts (levels : List Level) (hlevels : levels <:+ Level.all) (hK : K.Nonempty)
    (havoids : Avoids (Level.followers levels) K) :
    Predicts Always (rule (.operand levels)).language K (binary (fuel + 1) levels) := by
  cases levels with
  | nil =>
      rw [binary]
      exact ih.unary hK havoids
  | cons level tighter =>
      rw [binary]
      apply Predicts.of_rule
      rw [body_operand _ (Level.mem_steps hlevels)]
      apply Predicts.seq
      · exact ih.binary tighter ((List.suffix_cons _ _).trans hlevels) (nonempty_mul rfl hK)
          (avoids_further hlevels havoids)
      · intro left
        exact ih.binaryRest level tighter left hlevels hK havoids

theorem binaryRest_predicts (level : Level) (tighter : List Level) (left : Expr)
    (hlevels : level :: tighter <:+ Level.all) (hK : K.Nonempty)
    (havoids : Avoids (Level.followers (level :: tighter)) K) :
    Predicts Always (level.further tighter).language K
      (binaryRest (fuel + 1) level tighter left) := by
  have hlevel := hlevels.subset List.mem_cons_self
  rw [binaryRest]
  apply Predicts.accept_opt (operators_plain level hlevel)
    (language_many_words level.operators (rule (.operand tighter)))
  · intro token tokens hany h
    have hsubset : level.operators ⊆ Level.followers (level :: tighter) := by
      rw [Level.followers, List.flatMap_cons]
      grind
    exact ((havoids.mono hsubset).elim hany h).elim
  · intro operator
    apply Predicts.seq
    · exact ih.binary tighter ((List.suffix_cons _ _).trans hlevels) (nonempty_mul rfl hK)
        (avoids_further hlevels havoids)
    · intro right
      exact ih.binaryRest level tighter _ hlevels hK havoids
  · exact .finish

theorem unary_predicts (hK : K.Nonempty) (havoids : Avoids (Level.followers []) K) :
    Predicts Always (rule .unary).language K (unary (fuel + 1)) := by
  rw [unary]
  apply Predicts.of_rule
  apply Predicts.accept? (by decide) (M := (rule .unary).language) (N := (rule .call).language)
  · rw [← language_seq, ← language_alt]
    rfl
  · intro token tokens hany h
    exact ((Avoids.of_phrase (by decide) rfl).elim hany h).elim
  · intro operator
    exact (ih.unary hK havoids).idle fun _ => .finish
  · apply Predicts.ahead_mono _ fun _ _ => trivial
    apply Predicts.of_rule
    apply Predicts.seq
    · exact ih.primary (nonempty_mul rfl hK)
    · intro callee
      exact ih.callRest callee hK havoids

theorem callRest_predicts (callee : Expr) (hK : K.Nonempty)
    (havoids : Avoids (Level.followers []) K) :
    Predicts Always suffixes.language K (callRest (fuel + 1) callee) := by
  have hnonempty : (suffixes.language * K).Nonempty := nonempty_mul rfl hK
  rw [callRest]
  apply Predicts.accept? (by decide) language_suffixes
  · intro token tokens hany h
    rw [add_mul, one_mul, Language.mem_add, mul_assoc] at h
    rcases h with h | h
    · exact ((Avoids.of_phrase (p := words [.dot]) (by decide) rfl).elim hany h).elim
    · exact ((havoids.mono (by simp [Level.followers])).elim hany h).elim
  · intro opening
    apply Predicts.sequence
    · rw [mul_assoc]
      exact ih.arguments .rightParen (by decide) hnonempty
    · intro arguments
      apply (Predicts.expect (by decide) hnonempty _).sequence
      intro closing
      exact ih.callRest _ hK havoids
  · apply Predicts.ahead_mono _ fun _ _ => trivial
    apply Predicts.accept_opt (by decide) rfl
    · intro token tokens hany h
      exact ((havoids.mono (by simp [Level.followers])).elim hany h).elim
    · intro dot
      apply (Predicts.expect (by decide) hnonempty _).sequence
      intro name
      exact ih.callRest _ hK havoids
    · exact .finish

theorem arguments_predicts (closing : Symbol)
    (hclosing : closing ∈ [Symbol.rightParen, .rightBracket]) (hK : K.Nonempty) :
    Predicts Always (opt (rule .arguments)).language ((word closing).language * K)
      (arguments (fuel + 1) closing) := by
  have hfacts : ∀ closing ∈ [Symbol.rightParen, .rightBracket],
      (rule .arguments).starts (.symbol closing) = false ∧ closing ≠ .endOfFile ∧
        ∀ symbol ∈ .comma :: expressionFollowers,
          (word closing).starts (.symbol symbol) = false := by
    decide
  obtain ⟨hstarts, hplain, hfollowers⟩ := hfacts closing hclosing
  rw [arguments]
  apply Predicts.optional hstarts hplain
  · intro token tokens h
    have hany := (cons_mem_words_mul [closing]).1 h
    simpa [Token.isAny] using hany.1
  · exact ih.argumentsRest 0 (nonempty_mul rfl hK) (Avoids.of_phrase hfollowers rfl)

theorem argumentsRest_predicts (count : Nat) (hK : K.Nonempty)
    (havoids : Avoids (.comma :: expressionFollowers) K) :
    Predicts Always (rule .arguments).language K (argumentsRest (fuel + 1) count) := by
  rw [argumentsRest]
  apply Predicts.checkArity (by simp)
  apply Predicts.of_rule
  apply Predicts.seq
  · apply ih.expression (nonempty_mul rfl hK)
    apply Avoids.mul (by decide)
    intro _
    exact havoids.mono (List.subset_cons_self _ _)
  · intro argument
    apply Predicts.accept_opt (by decide) (M := (rule .arguments).language)
    · rw [language_rule .arguments]
      exact language_many_words [.comma] (rule .expression)
    · intro token tokens hany h
      exact ((havoids.mono (by simp)).elim hany h).elim
    · intro comma
      exact (ih.argumentsRest (count + 1) hK havoids).idle fun _ => .finish
    · exact .finish

theorem primary_predicts (hK : K.Nonempty) :
    Predicts Always (rule .primary).language K (primary (fuel + 1)) := by
  rw [primary]
  apply Predicts.peek
  intro token
  apply Predicts.of_rule
  have hkind : ∀ next, next = token ∧ Always next → next.kind = token.kind := by
    rintro _ ⟨rfl, -⟩
    rfl
  -- Every branch stands at a token of its kind.
  split
  case h_1 h | h_2 h | h_3 h | h_4 h | h_5 h =>
    rw [h] at hkind
    exact atom_predicts hkind rfl rfl .finish
  case h_6 h | h_7 h =>
    rw [h] at hkind
    exact atom_predicts hkind rfl rfl (.freshId fun _ => .finish)
  case h_8 h =>
    rw [h] at hkind
    apply Predicts.narrow hkind
    apply Predicts.word hkind (by decide)
    apply Predicts.seq
    · exact ih.expression (nonempty_mul rfl hK) (Avoids.of_phrase (by decide) rfl)
    · intro inner
      exact (Predicts.expect (by decide) hK _).idle fun _ => .finish
  case h_9 h =>
    rw [h] at hkind
    apply Predicts.narrow hkind
    apply Predicts.word hkind (by decide)
    apply Predicts.seq
    · exact ih.arguments .rightBracket (by decide) hK
    · intro elements
      exact (Predicts.expect (by decide) hK _).idle fun _ => .finish
  case h_10 =>
    have hrejects : Nonterminal.primary.body.rejects token.kind := by
      cases hcase : token.kind with
      | number value => simp_all
      | text value => simp_all
      | symbol s => cases s <;> simp_all <;> rfl
    apply Predicts.fail
    · rw [← language_rule]
      exact nonempty_mul rfl hK
    · rintro _ tokens ⟨rfl, -⟩
      exact not_mem_of_rejects hrejects

end Step

theorem expressionsPredict (fuel : Nat) : ExpressionsPredict fuel := by
  induction fuel with
  | zero => exact expressionsPredict_zero
  | succ fuel ih =>
      exact {
        expression := expression_predicts ih
        binary := binary_predicts ih
        binaryRest := binaryRest_predicts ih
        unary := unary_predicts ih
        callRest := callRest_predicts ih
        arguments := arguments_predicts ih
        argumentsRest := argumentsRest_predicts ih
        primary := primary_predicts ih }

end Parser

end Lox
