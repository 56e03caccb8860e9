import Lox.Proofs.Matching.Reading.Statement
import Lox.Proofs.Matching.Shape
import Lox.Proofs.Syntax.Reading.Statement
import Lox.Proofs.Syntax.Recognition.Statement

/-!
# Deriving a part anew

What tokens derive depends neither on their lines nor on the number from which on
name occurrences are numbered: the same tokens, on whatever lines, derive a tree of
the same shape from any number on.  A part is read from its tokens, so that its
derivations need not be gone through; only what is to come matters, by which an
`else` finds its condition.
-/

namespace Lox

/-- The same tokens, on whatever lines. -/
abbrev Token.AllAlike (tokens tokens' : List Token) : Prop :=
  List.Forall₂ Token.Alike tokens tokens'

theorem Token.allAlike_refl (tokens : List Token) : AllAlike tokens tokens :=
  List.forall₂_same.2 fun _ _ => ⟨rfl, rfl, trivial⟩

theorem Token.allAlike_of_map {tokens tokens' : List Token}
    (h : tokens.map (fun token => (token.kind, token.lexeme)) =
      tokens'.map fun token => (token.kind, token.lexeme)) : AllAlike tokens tokens' := by
  rw [← List.forall₂_eq_eq_eq, List.forall₂_map_left_iff, List.forall₂_map_right_iff] at h
  exact h.imp fun _ _ hsame => ⟨congrArg Prod.fst hsame, congrArg Prod.snd hsame, trivial⟩

/-- Tokens that are like those of two parts consist of two parts. -/
theorem Token.exists_of_append {first second tokens : List Token}
    (h : AllAlike (first ++ second) tokens) :
    ∃ first' second', tokens = first' ++ second' ∧ AllAlike first first' ∧
      AllAlike second second' := by
  induction first generalizing tokens with
  | nil => exact ⟨[], tokens, rfl, .nil, h⟩
  | cons token first ih =>
      obtain ⟨token', rest, htoken, hrest, rfl⟩ := List.forall₂_cons_left_iff.1 h
      obtain ⟨first', second', rfl, hfirst, hsecond⟩ := ih hrest
      exact ⟨token' :: first', second', rfl, .cons htoken hfirst, hsecond⟩

namespace Parser

/-- A part that is read from some tokens is read from tokens that are alike. -/
theorem reread {α : Type} {part : Parser α} {results : α → α → Prop} {moves : Bool}
    {derives : List Token → Nat → α → Prop} {tokens tokens' rest rest' : List Token}
    {lower lower' upper : Nat} {result : α}
    (hleads : Leads part (tokens ++ rest) lower (pure result) rest upper)
    (hstep : InStep .shape lower lower' results part part)
    (hreads : Reads moves (tokens' ++ rest') lower' part derives)
    (htokens : Token.AllAlike tokens tokens') (hrest : Token.AllAlike rest rest') :
    ∃ upper' result', results result result' ∧ derives rest' upper' result' := by
  let ending : Token := ⟨.symbol .endOfFile, "", 0⟩
  have hself : ending.Alike ending := ⟨rfl, rfl, trivial⟩
  have hstart : State.Matches .shape lower lower' ⟨tokens ++ rest, ending, lower, #[]⟩
      ⟨tokens' ++ rest', ending, lower', #[]⟩ :=
    ⟨List.rel_append htokens hrest, hself, ⟨0, rfl, rfl⟩, .nil⟩
  have hends := hstep _ _ hstart
  have hread := hreads ending #[] (by decide)
  rw [hleads ending #[]] at hends
  generalize part ⟨tokens' ++ rest', ending, lower', #[]⟩ = ended at hends hread
  cases hends with
  | @ok _ result' _ after hresult hafter =>
      obtain ⟨hpassed, hderives⟩ := hread
      have hsize : after.diagnostics.size = 0 := by
        have hlength := hafter.diagnostics.length_eq
        simpa using hlength.symm
      have hsuffix : rest' = after.rest := by
        apply (List.suffix_of_suffix_length_le (List.suffix_append tokens' rest') hpassed.suffix
          _).eq_of_length
        all_goals rw [← hrest.length_eq, ← hafter.rest.length_eq]
      exact ⟨after.nextId, result', hresult, hsuffix ▸ hderives hsize⟩

end Parser

namespace Grammar

open Lox.Parser

variable {lower upper : Nat} {tokens tokens' : List Token}

theorem shape_free {lower' : Nat} (lower : Nat) :
    ∀ count, Correspondence.shape.ids (lower + count) (lower' + count) :=
  fun _ => trivial

theorem Expression.reread {e : Expr} (h : Expression lower tokens upper e)
    (htokens : Token.AllAlike tokens tokens') (lower' : Nat) :
    ∃ upper' e', Expression lower' tokens' upper' e' ∧ e.Matches .shape e' := by
  let closing : Token := ⟨.symbol .semicolon, ";", 0⟩
  let fuel := 32 * (tokens ++ [closing]).length + 10
  have hfuel : 32 * (tokens' ++ [closing]).length + 10 ≤ fuel := by
    simp [fuel, htokens.length_eq]
  obtain ⟨upper', e', hmatches, passed, hpassed, he⟩ :=
    Parser.reread (expression_leads_to h le_rfl (is_of_kind rfl : closing.is .semicolon)
      (by decide)) (expressionsInStep (shape_free lower) fuel).expression
      (expression_reads_within hfuel) htokens (.cons ⟨rfl, rfl, trivial⟩ .nil)
  obtain rfl := List.append_cancel_right hpassed
  exact ⟨upper', e', he, hmatches⟩

/-- An expression is derived anew up to the token that closes it. -/
theorem Expression.reread_closed {e : Expr} {closing : Token} {further rest : List Token}
    (h : Expression lower tokens upper e)
    (hrest : Token.AllAlike (tokens ++ closing :: further) rest) (lower' : Nat) :
    ∃ tokens' closing' further' upper' e', rest = tokens' ++ closing' :: further' ∧
      closing.Alike closing' ∧ Token.AllAlike further further' ∧
      Expression lower' tokens' upper' e' ∧ e.Matches .shape e' := by
  obtain ⟨tokens', _, rfl, htokens, hbehind⟩ := Token.exists_of_append hrest
  rcases hbehind with _ | @⟨_, closing', _, further', hclosing, hfurther⟩
  obtain ⟨upper', e', he, hmatches⟩ := h.reread htokens lower'
  exact ⟨tokens', closing', further', upper', e', rfl, hclosing, hfurther, he, hmatches⟩

theorem Clause.reread {e? : Option Expr} (h : Clause lower tokens upper e?)
    (htokens : Token.AllAlike tokens tokens') (lower' : Nat) :
    ∃ upper' e?', Clause lower' tokens' upper' e?' ∧ Option.Rel (Expr.Matches .shape) e? e?' := by
  cases h with
  | none =>
      cases htokens
      exact ⟨lower', Option.none, .none, .none⟩
  | some h =>
      obtain ⟨upper', e', he, hmatches⟩ := h.reread htokens lower'
      exact ⟨upper', Option.some e', .some he, .some hmatches⟩

theorem ForInitializer.reread {s? : Option Stmt} (h : ForInitializer lower tokens upper s?)
    (htokens : Token.AllAlike tokens tokens') (lower' : Nat) :
    ∃ upper' s?', ForInitializer lower' tokens' upper' s?' ∧
      Option.Rel (Stmt.Matches .shape) s? s?' := by
  let fuel := 32 * (tokens ++ []).length + 10
  have hfuel : 32 * (tokens' ++ []).length + 10 ≤ fuel := by simp [fuel, htokens.length_eq]
  obtain ⟨upper', s?', hmatches, passed, hpassed, hs⟩ :=
    Parser.reread (forInitializer_leads h le_rfl) (forInitializer_inStep (shape_free lower) fuel)
      (forInitializer_reads hfuel) htokens .nil
  obtain rfl := List.append_cancel_right hpassed
  exact ⟨upper', s?', hs, hmatches⟩

theorem Parameters.reread {names : List Token} (h : Parameters tokens names)
    (htokens : Token.AllAlike tokens tokens') :
    ∃ names', Parameters tokens' names' ∧ Token.AllAlike names names' := by
  let closing : Token := ⟨.symbol .rightParen, ")", 0⟩
  let fuel := 32 * (tokens ++ [closing]).length + 1
  have hfuel : 32 * (tokens' ++ [closing]).length + 1 ≤ fuel := by
    simp [fuel, htokens.length_eq]
  obtain ⟨_, names', hmatches, -, passed, hpassed, hnames⟩ :=
    Parser.reread (@parameters_lead 0 _ _ [] closing _ h (is_of_kind rfl) le_rfl)
      (parameters_inStep fuel) (@parameters_reads _ 0 _ hfuel) htokens
      (.cons ⟨rfl, rfl, trivial⟩ .nil)
  obtain rfl := List.append_cancel_right hpassed
  exact ⟨names', hnames, hmatches⟩

/-- What may follow a statement: an `else`, unless it is dangling. -/
def behind (dangling : Bool) : List Token :=
  if dangling then [] else [⟨.symbol .elseWord, "else", 0⟩]

theorem stops_behind {dangling : Bool} (h : dangling) :
    Leads.Stops [.elseWord] (behind dangling) := by
  subst h
  simp [behind, Leads.Stops]

theorem dangling_of_behind {dangling dangling' : Bool}
    (h : dangling' → ∀ token ∈ (behind dangling).head?, ¬ token.is .elseWord) :
    dangling' → dangling := by
  cases dangling with
  | true => exact fun _ => rfl
  | false => exact fun hdangling => absurd (is_of_kind rfl) (h hdangling _ rfl)

/-- The part does not become dangling. -/
theorem Statement.reread {dangling : Bool} {s : Stmt} (h : Statement dangling lower tokens upper s)
    (htokens : Token.AllAlike tokens tokens') (lower' : Nat) :
    ∃ (dangling' : Bool) (upper' : Nat) (s' : Stmt), (dangling' → dangling) ∧
      Statement dangling' lower' tokens' upper' s' ∧ s.Matches .shape s' := by
  let fuel := 32 * (tokens ++ behind dangling).length + 11
  have hfuel : 32 * (tokens' ++ behind dangling).length + 11 ≤ fuel := by
    simp [fuel, htokens.length_eq]
  obtain ⟨upper', s', hmatches, dangling', passed, hpassed, hs, hrest⟩ :=
    Parser.reread (Statement.leads h fuel _ le_rfl stops_behind)
      (statementsInStep (shape_free lower) fuel).statement
      ((statementsRead fuel).statement _ lower' hfuel) htokens (Token.allAlike_refl _)
  obtain rfl := List.append_cancel_right hpassed
  exact ⟨dangling', upper', s', dangling_of_behind hrest, hs, hmatches⟩

theorem Declaration.reread {dangling : Bool} {s : Stmt}
    (h : Declaration dangling lower tokens upper s) (htokens : Token.AllAlike tokens tokens')
    (lower' : Nat) :
    ∃ dangling' upper' s', Declaration dangling' lower' tokens' upper' s' ∧
      s.Matches .shape s' := by
  let fuel := 32 * (tokens ++ []).length + 12
  have hfuel : 32 * (tokens' ++ []).length + 12 ≤ fuel := by simp [fuel, htokens.length_eq]
  obtain ⟨upper', s', hmatches, dangling', passed, hpassed, hs, -⟩ :=
    Parser.reread (Declaration.leads h fuel [] le_rfl fun _ => by simp [Leads.Stops])
      (statementsInStep (shape_free lower) fuel).declaration
      ((statementsRead fuel).declaration _ lower' hfuel) htokens .nil
  obtain rfl := List.append_cancel_right hpassed
  exact ⟨dangling', upper', s', hs, hmatches⟩

theorem Declarations.reread {ss : List Stmt} (h : Declarations lower tokens upper ss)
    (htokens : Token.AllAlike tokens tokens') (lower' : Nat) :
    ∃ upper' ss', Declarations lower' tokens' upper' ss' ∧
      List.Forall₂ (Stmt.Matches .shape) ss ss' := by
  let fuel := 32 * (tokens ++ []).length + 14
  have hfuel : 32 * (tokens' ++ []).length + 14 ≤ fuel := by simp [fuel, htokens.length_eq]
  obtain ⟨upper', ss', hmatches, passed, hpassed, hss⟩ :=
    Parser.reread (Declarations.lead h fuel [] le_rfl (.inl rfl))
      (statementsInStep (shape_free lower) fuel).declarations
      ((statementsRead fuel).declarations _ lower' hfuel) htokens .nil
  obtain rfl := List.append_cancel_right hpassed
  exact ⟨upper', ss', hss, hmatches⟩

theorem Callable.reread {d : FunctionDecl} (h : Callable lower tokens upper d)
    (htokens : Token.AllAlike tokens tokens') (lower' : Nat) :
    ∃ upper' d', Callable lower' tokens' upper' d' ∧ d.Matches .shape d' := by
  let fuel := 32 * (tokens ++ []).length + 1
  have hfuel : 32 * (tokens' ++ []).length + 1 ≤ fuel := by simp [fuel, htokens.length_eq]
  obtain ⟨upper', d', hmatches, passed, hpassed, hd⟩ :=
    Parser.reread (Callable.leads h fuel .function [] le_rfl)
      ((statementsInStep (shape_free lower) fuel).callable _)
      ((statementsRead fuel).callable _ _ lower' hfuel) htokens .nil
  obtain rfl := List.append_cancel_right hpassed
  exact ⟨upper', d', hd, hmatches⟩

theorem Methods.reread {ds : List FunctionDecl} (h : Methods lower tokens upper ds)
    (htokens : Token.AllAlike tokens tokens') (lower' : Nat) :
    ∃ upper' ds', Methods lower' tokens' upper' ds' ∧
      List.Forall₂ (FunctionDecl.Matches .shape) ds ds' := by
  let closing : Token := ⟨.symbol .rightBrace, "\x7d", 0⟩
  let fuel := 32 * (tokens ++ [closing]).length + 2
  have hfuel : 32 * (tokens' ++ [closing]).length + 2 ≤ fuel := by
    simp [fuel, htokens.length_eq]
  obtain ⟨upper', ds', hmatches, passed, hpassed, hds⟩ :=
    Parser.reread (Methods.lead h fuel closing [] le_rfl (is_of_kind rfl))
      (statementsInStep (shape_free lower) fuel).methods
      ((statementsRead fuel).methods _ lower' hfuel) htokens (.cons ⟨rfl, rfl, trivial⟩ .nil)
  obtain rfl := List.append_cancel_right hpassed
  exact ⟨upper', ds', hds, hmatches⟩

end Grammar

end Lox
