import Lox.Proofs.Sequencing
import Lox.Proofs.Syntax.Grammar

/-!
# Following a derivation

What parsers do on tokens whose derivation is known.  Reading a part from one
place on comes to the same as reading what is left of it from a later place on,
where the tokens in between have been passed and nothing was reported.  The
lemmas take one token or one part at a time; the choices of a parser are settled
by the symbols that a part can begin with.
-/

namespace Lox.Parser

/-- Reading `part` with `input` to come and `next` as the next number is reading
`part'` with `rest` to come and `after` as the next number. -/
def Leads {α : Type} (part : Parser α) (input : List Token) (next : Nat) (part' : Parser α)
    (rest : List Token) (after : Nat) : Prop :=
  ∀ (ending : Token) (diagnostics : Array Diagnostic),
    part ⟨input, ending, next, diagnostics⟩ = part' ⟨rest, ending, after, diagnostics⟩

namespace Leads

variable {α β : Type} {part part' : Parser α} {further : α → Parser β} {other : Parser β}
variable {input middle rest : List Token} {next between after : Nat} {token : Token}

theorem refl : Leads part input next part input next :=
  fun _ _ => rfl

theorem trans {part'' : Parser α} (h : Leads part input next part' middle between)
    (h' : Leads part' middle between part'' rest after) :
    Leads part input next part'' rest after :=
  fun ending diagnostics => (h ending diagnostics).trans (h' ending diagnostics)

theorem bind {result : α} (h : Leads part input next (pure result) middle between)
    (h' : Leads (further result) middle between other rest after) :
    Leads (part >>= further) input next other rest after := by
  intro ending diagnostics
  rw [bind_of_ok (h ending diagnostics)]
  exact h' ending diagnostics

theorem map {f : α → β} {result : α} (h : Leads part input next (pure result) rest after) :
    Leads (f <$> part) input next (pure (f result)) rest after :=
  fun ending diagnostics => map_of_ok (h ending diagnostics)

theorem peek {further : Token → Parser β}
    (h : Leads (further token) (token :: input) next other rest after) :
    Leads (peek >>= further) (token :: input) next other rest after :=
  h

theorem advance {further : Unit → Parser β} (h : Leads (further ()) input next other rest after) :
    Leads (advance >>= further) (token :: input) next other rest after :=
  h

theorem freshId {further : Nat → Parser β}
    (h : Leads (further next) input (next + 1) other rest after) :
    Leads (freshId >>= further) input next other rest after :=
  h

theorem accept_some {symbols : List Symbol} {further : Option Token → Parser β}
    (hany : token.isAny symbols) (h : Leads (further (some token)) input next other rest after) :
    Leads (accept? symbols >>= further) (token :: input) next other rest after := by
  intro ending diagnostics
  have hresult : accept? symbols ⟨token :: input, ending, next, diagnostics⟩ =
      .ok (some token) ⟨input, ending, next, diagnostics⟩ := by
    simp [accept?, hany]
  rw [bind_of_ok hresult]
  exact h ending diagnostics

/-- The next token, if there is one, is none of the symbols. -/
def Stops (symbols : List Symbol) (tokens : List Token) : Prop :=
  ∀ token ∈ tokens.head?, ¬ token.isAny symbols

theorem accept_none {symbols : List Symbol} {further : Option Token → Parser β}
    (hstops : Stops symbols input) (h : Leads (further none) input next other rest after) :
    Leads (accept? symbols >>= further) input next other rest after := by
  intro ending diagnostics
  have hresult : accept? symbols ⟨input, ending, next, diagnostics⟩ =
      .ok none ⟨input, ending, next, diagnostics⟩ := by
    cases input with
    | nil => rfl
    | cons token input => simp [accept?, hstops token rfl]
  rw [bind_of_ok hresult]
  exact h ending diagnostics

theorem expect {symbol : Symbol} {what : Expectation} {further : Token → Parser β}
    (his : token.is symbol) (h : Leads (further token) input next other rest after) :
    Leads (expect symbol what >>= further) (token :: input) next other rest after := by
  rw [Parser.expect, bind_assoc]
  exact accept_some (by simpa [Token.isAny] using his) h

theorem nextIs_true {symbol : Symbol} {further : Bool → Parser β} (his : token.is symbol)
    (h : Leads (further true) (token :: input) next other rest after) :
    Leads (nextIs symbol >>= further) (token :: input) next other rest after := by
  intro ending diagnostics
  have hresult : nextIs symbol ⟨token :: input, ending, next, diagnostics⟩ =
      .ok true ⟨token :: input, ending, next, diagnostics⟩ := by
    simp [nextIs, his]
  rw [bind_of_ok hresult]
  exact h ending diagnostics

theorem nextIs_false {symbol : Symbol} {further : Bool → Parser β} (hnot : Stops [symbol] input)
    (h : Leads (further false) input next other rest after) :
    Leads (nextIs symbol >>= further) input next other rest after := by
  intro ending diagnostics
  have hresult : nextIs symbol ⟨input, ending, next, diagnostics⟩ =
      .ok false ⟨input, ending, next, diagnostics⟩ := by
    cases input with
    | nil => rfl
    | cons token input =>
        have his : token.is symbol = false := by simpa [Token.isAny] using hnot token rfl
        simp [nextIs, his]
  rw [bind_of_ok hresult]
  exact h ending diagnostics

theorem atEnd_true {further : Bool → Parser β}
    (h : Leads (further true) [] next other rest after) :
    Leads (atEnd >>= further) [] next other rest after :=
  h

theorem atEnd_false {further : Bool → Parser β}
    (h : Leads (further false) (token :: input) next other rest after) :
    Leads (atEnd >>= further) (token :: input) next other rest after :=
  h

theorem attempt {result : α} (h : Leads part input next (pure result) rest after) :
    Leads (attempt part) input next (pure (some result)) rest after := by
  intro ending diagnostics
  rw [Parser.attempt, h ending diagnostics]
  rfl

theorem checkArity {count : Nat} {error : SyntaxError} {further : Unit → Parser β}
    (hcount : count < maxArity) (h : Leads (further ()) input next other rest after) :
    Leads (checkArity count error >>= further) input next other rest after := by
  rw [Parser.checkArity, if_neg (by omega)]
  exact h

end Leads

/-! ## The tokens that a part begins with -/

/-- The token is a literal or one of the symbols. -/
def Begins (symbols : List Symbol) (token : Token) : Prop :=
  ∀ symbol, token.kind = .symbol symbol → symbol ∈ symbols

/-- There are tokens, and the first is a literal or one of the symbols. -/
def Headed (symbols : List Symbol) (tokens : List Token) : Prop :=
  ∃ token rest, tokens = token :: rest ∧ Begins symbols token

variable {symbols others : List Symbol} {tokens rest : List Token} {token : Token}
variable {symbol : Symbol}

theorem Begins.of_is (h : token.is symbol) (hmem : symbol ∈ symbols) : Begins symbols token := by
  intro other hkind
  rw [Grammar.kind_of_is h] at hkind
  cases hkind
  exact hmem

theorem Begins.mono (h : Begins symbols token) (hsubset : symbols ⊆ others) :
    Begins others token :=
  fun symbol hkind => hsubset (h symbol hkind)

theorem Begins.not_isAny (h : Begins symbols token)
    (hdisjoint : ∀ symbol ∈ symbols, symbol ∉ others) : ¬ token.isAny others := by
  intro hany
  obtain ⟨symbol, hsymbol, his⟩ := List.any_eq_true.1 hany
  exact hdisjoint symbol (h symbol (Grammar.kind_of_is his)) hsymbol

theorem Headed.cons (h : Begins symbols token) : Headed symbols (token :: rest) :=
  ⟨token, rest, rfl, h⟩

theorem Headed.append (h : Headed symbols tokens) : Headed symbols (tokens ++ rest) := by
  obtain ⟨token, tail, rfl, hbegins⟩ := h
  exact ⟨token, tail ++ rest, rfl, hbegins⟩

theorem Headed.mono (h : Headed symbols tokens) (hsubset : symbols ⊆ others) :
    Headed others tokens := by
  obtain ⟨token, rest, htokens, hbegins⟩ := h
  exact ⟨token, rest, htokens, hbegins.mono hsubset⟩

theorem Headed.stops (h : Headed symbols tokens) (hdisjoint : ∀ symbol ∈ symbols, symbol ∉ others) :
    Leads.Stops others tokens := by
  obtain ⟨token, rest, rfl, hbegins⟩ := h
  intro other hother
  cases hother
  exact hbegins.not_isAny hdisjoint

theorem Leads.Stops.of_is (h : token.is symbol) (hne : symbol ∉ others) :
    Leads.Stops others (token :: rest) := by
  intro other hother
  cases hother
  exact Grammar.not_isAny_of_is h hne

theorem Leads.Stops.mono (h : Leads.Stops symbols tokens) (hsubset : others ⊆ symbols) :
    Leads.Stops others tokens := by
  intro token htoken hany
  obtain ⟨symbol, hsymbol, his⟩ := List.any_eq_true.1 hany
  exact h token htoken (List.any_eq_true.2 ⟨symbol, hsubset hsymbol, his⟩)

end Lox.Parser
