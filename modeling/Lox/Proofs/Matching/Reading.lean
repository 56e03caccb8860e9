import Lox.Proofs.Matching.Tree
import Lox.Proofs.Parallel
import Lox.Syntax.Parser

/-!
# Reading matching tokens

Reading looks at nothing but the kinds of tokens.  From matching tokens it goes
the same way, whatever the lines of the tokens are and from whatever number on
the occurrences of names are numbered.
-/

namespace Lox

inductive Diagnostic.Matches (c : Correspondence) : Diagnostic → Diagnostic → Prop where
  | lexical {line line' : Nat} (error : LexicalError) (hline : c.lines line line') :
    Matches c (.lexical line error) (.lexical line' error)
  | syntactic {token token' : Token} (error : SyntaxError) (htoken : token.Matches c token') :
    Matches c (.syntactic token error) (.syntactic token' error)
  | scoping {token token' : Token} (error : ScopeError) (htoken : token.Matches c token') :
    Matches c (.scoping token error) (.scoping token' error)

/-- The diagnostics match one by one. -/
abbrev Diagnostic.MatchAll (c : Correspondence) (diagnostics diagnostics' : Array Diagnostic) :
    Prop :=
  List.Forall₂ (Matches c) diagnostics.toList diagnostics'.toList

theorem Diagnostic.MatchAll.push {c : Correspondence} {diagnostics diagnostics' : Array Diagnostic}
    {diagnostic diagnostic' : Diagnostic} (h : MatchAll c diagnostics diagnostics')
    (hlast : diagnostic.Matches c diagnostic') :
    MatchAll c (diagnostics.push diagnostic) (diagnostics'.push diagnostic') := by
  simpa [MatchAll] using List.rel_append h (.cons hlast .nil)

theorem forall₂_toList {α β : Type} {r : α → β → Prop} {o : Option α} {o' : Option β}
    (h : Option.Rel r o o') : List.Forall₂ r o.toList o'.toList := by
  cases h with
  | none => exact .nil
  | some h => exact .cons h .nil

section Token

variable {c : Correspondence} {token token' : Token}

theorem Token.Matches.is (h : token.Matches c token') (symbol : Symbol) :
    token.is symbol = token'.is symbol := by
  simp only [Token.is, h.kind]

theorem Token.Matches.isAny (h : token.Matches c token') (symbols : List Symbol) :
    token.isAny symbols = token'.isAny symbols := by
  have his : token.is = token'.is := funext h.is
  simp only [Token.isAny, his]

end Token

/-- The same tokens on corresponding lines. -/
structure TokenStream.Matches (c : Correspondence) (stream stream' : TokenStream) : Prop where
  body : List.Forall₂ (Token.Matches c) stream.body stream'.body
  ending : stream.ending.Matches c stream'.ending

namespace Parser

/-- The tokens to come match, and as many numbers have been handed out in one
text since `lower` as in the other since `lower'`. -/
structure State.Matches (c : Correspondence) (lower lower' : Nat) (state state' : State) :
    Prop where
  rest : List.Forall₂ (Token.Matches c) state.rest state'.rest
  ending : state.ending.Matches c state'.ending
  numbers : ∃ count, state.nextId = lower + count ∧ state'.nextId = lower' + count
  diagnostics : Diagnostic.MatchAll c state.diagnostics state'.diagnostics

/-- From matching states both parsers go the same way. -/
abbrev InStep {α : Type} (c : Correspondence) (lower lower' : Nat) (results : α → α → Prop)
    (left right : Parser α) : Prop :=
  Parallel (State.Matches c lower lower') Eq results left right

variable {c : Correspondence} {lower lower' : Nat}

theorem State.Matches.next {state state' : State} (h : state.Matches c lower lower' state') :
    state.next.Matches c state'.next := by
  obtain ⟨rest, ending, next, diagnostics⟩ := state
  obtain ⟨rest', ending', next', diagnostics'⟩ := state'
  obtain ⟨hrest, hending, -, -⟩ := h
  cases hrest with
  | nil => exact hending
  | cons htoken _ => exact htoken

theorem State.Matches.report {state state' : State} {token token' : Token} {error : SyntaxError}
    (h : state.Matches c lower lower' state') (htoken : token.Matches c token') :
    (state.report token error).Matches c lower lower' (state'.report token' error) :=
  ⟨h.rest, h.ending, h.numbers, h.diagnostics.push (.syntactic error htoken)⟩

theorem resume_matches {tokens tokens' : List Token} (afterSemicolon : Bool)
    (h : List.Forall₂ (Token.Matches c) tokens tokens') :
    List.Forall₂ (Token.Matches c) (resume afterSemicolon tokens)
      (resume afterSemicolon tokens') := by
  induction h generalizing afterSemicolon with
  | nil => exact .nil
  | cons htoken hrest ih =>
      rw [resume, resume, ← htoken.isAny, ← htoken.is]
      split
      · exact .cons htoken hrest
      · exact ih _

theorem State.Matches.recover {state state' : State} (h : state.Matches c lower lower' state') :
    state.recover.Matches c lower lower' state'.recover := by
  obtain ⟨rest, ending, next, diagnostics⟩ := state
  obtain ⟨rest', ending', next', diagnostics'⟩ := state'
  obtain ⟨hrest, hending, hnumbers, hdiagnostics⟩ := h
  cases hrest with
  | nil => exact ⟨.nil, hending, hnumbers, hdiagnostics⟩
  | cons htoken hrest =>
      refine ⟨?_, hending, hnumbers, hdiagnostics⟩
      simp only [State.recover, ← htoken.is]
      exact resume_matches _ hrest

theorem fail_inStep {α : Type} {results : α → α → Prop} (what : Expectation) :
    InStep c lower lower' results (fail what) (fail what) :=
  fun _ _ hstates => .error rfl (hstates.report hstates.next)

theorem peek_inStep : InStep c lower lower' (Token.Matches c) peek peek :=
  fun _ _ hstates => .ok hstates.next hstates

theorem atEnd_inStep : InStep c lower lower' Eq atEnd atEnd := by
  intro ⟨rest, ending, next, diagnostics⟩ ⟨rest', ending', next', diagnostics'⟩ hstates
  have hrest : List.Forall₂ (Token.Matches c) rest rest' := hstates.rest
  cases hrest with
  | nil => exact .ok rfl hstates
  | cons _ _ => exact .ok rfl hstates

theorem nextIs_inStep (symbol : Symbol) :
    InStep c lower lower' Eq (nextIs symbol) (nextIs symbol) := by
  intro ⟨rest, ending, next, diagnostics⟩ ⟨rest', ending', next', diagnostics'⟩ hstates
  have hrest : List.Forall₂ (Token.Matches c) rest rest' := hstates.rest
  cases hrest with
  | nil => exact .ok rfl hstates
  | cons htoken _ => exact .ok (htoken.is symbol) hstates

theorem advance_inStep : InStep c lower lower' Eq advance advance := by
  intro ⟨rest, ending, next, diagnostics⟩ ⟨rest', ending', next', diagnostics'⟩ hstates
  obtain ⟨hrest, hending, hnumbers, hdiagnostics⟩ := hstates
  cases hrest with
  | nil => exact .ok rfl ⟨.nil, hending, hnumbers, hdiagnostics⟩
  | cons _ hrest => exact .ok rfl ⟨hrest, hending, hnumbers, hdiagnostics⟩

theorem report_inStep {token token' : Token} (error : SyntaxError)
    (htoken : token.Matches c token') :
    InStep c lower lower' Eq (report token error) (report token' error) :=
  fun _ _ hstates => .ok rfl (hstates.report htoken)

theorem freshId_inStep (hids : ∀ count, c.ids (lower + count) (lower' + count)) :
    InStep c lower lower' c.ids freshId freshId := by
  intro state state' hstates
  obtain ⟨count, hcount, hcount'⟩ := hstates.numbers
  refine .ok ?_ ⟨hstates.rest, hstates.ending, ⟨count + 1, ?_, ?_⟩, hstates.diagnostics⟩
  · rw [hcount, hcount']
    exact hids count
  · simp only [hcount, Nat.add_assoc]
  · simp only [hcount', Nat.add_assoc]

theorem accept?_inStep (symbols : List Symbol) :
    InStep c lower lower' (Option.Rel (Token.Matches c)) (accept? symbols) (accept? symbols) := by
  intro ⟨rest, ending, next, diagnostics⟩ ⟨rest', ending', next', diagnostics'⟩ hstates
  obtain ⟨hrest, hending, hnumbers, hdiagnostics⟩ := hstates
  cases hrest with
  | nil => exact .ok .none ⟨.nil, hending, hnumbers, hdiagnostics⟩
  | cons htoken hrest =>
      simp only [accept?, ← htoken.isAny]
      split
      · exact .ok (.some htoken) ⟨hrest, hending, hnumbers, hdiagnostics⟩
      · exact .ok .none ⟨.cons htoken hrest, hending, hnumbers, hdiagnostics⟩

/-- Whether the next token is one of the symbols comes out the same. -/
theorem isSome_inStep {α : Type} {results : α → α → Prop} {token? token?' : Option Token}
    {first first' second second' : Parser α}
    (htoken : Option.Rel (Token.Matches c) token? token?')
    (hfirst : InStep c lower lower' results first first')
    (hsecond : InStep c lower lower' results second second') :
    InStep c lower lower' results (if token?.isSome then first else second)
      (if token?'.isSome then first' else second') := by
  cases htoken with
  | none => exact hsecond
  | some _ => exact hfirst

theorem expect_inStep (symbol : Symbol) (what : Expectation) :
    InStep c lower lower' (Token.Matches c) (expect symbol what) (expect symbol what) := by
  apply (accept?_inStep [symbol]).bind
  intro token? token?' htoken
  cases htoken with
  | none => exact fail_inStep what
  | some htoken => exact .pure htoken

theorem checkArity_inStep (count : Nat) (error : SyntaxError) :
    InStep c lower lower' Eq (checkArity count error) (checkArity count error) := by
  rw [checkArity]
  split
  · apply peek_inStep.bind
    intro token token' htoken
    exact report_inStep error htoken
  · exact .pure rfl

theorem attempt_inStep {α : Type} {results : α → α → Prop} {left right : Parser α}
    (h : InStep c lower lower' results left right) :
    InStep c lower lower' (Option.Rel results) (attempt left) (attempt right) := by
  intro state state' hstates
  have hends := h state state' hstates
  simp only [attempt]
  generalize left state = first at hends ⊢
  generalize right state' = second at hends ⊢
  cases hends with
  | ok hresult hafter => exact .ok (.some hresult) hafter
  | @error halt _ _ _ hhalt hafter =>
      subst hhalt
      cases halt with
      | syntaxError => exact .ok .none hafter.recover
      | outOfFuel => exact .error rfl hafter

end Parser

end Lox
