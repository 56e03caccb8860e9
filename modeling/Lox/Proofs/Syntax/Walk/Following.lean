import Lox.Proofs.Parallel
import Lox.Proofs.Syntax.Grammar
import Lox.Proofs.Syntax.Walk

/-!
# Reading by position stays in the list

At every position up to the first end of file, looking, passing and looking back
find a token, and do what the parser does on the tokens to come.  The position
never goes back: it stays at or behind any place that it has been at.
-/

namespace Lox.Walk

/-- A list of tokens by how far reading reaches into it: up to its first end of
file, which is not its first token. -/
structure Reach where
  within : List Token
  ending : Token
  beyond : List Token
  plain : ∀ token ∈ within, token.is .endOfFile = false
  ends : ending.is .endOfFile = true
  nonempty : within ≠ []

def Reach.tokens (reach : Reach) : List Token :=
  reach.within ++ reach.ending :: reach.beyond

/-- The cursor stands in reach, at or behind `start`, where the state of the parser
has the same tokens to come. -/
structure At (reach : Reach) (start : Nat) (cursor : Cursor) (state : Parser.State) : Prop where
  tokens : cursor.tokens = reach.tokens
  start : start ≤ cursor.current
  within : cursor.current ≤ reach.within.length
  rest : state.rest = reach.within.drop cursor.current
  ending : state.ending = reach.ending
  nextId : state.nextId = cursor.nextId
  diagnostics : state.diagnostics = cursor.diagnostics

/-- Both ways of reading stop for the same reason, which is never that there is no
token. -/
inductive Alike : Stop → Parser.Halt → Prop where
  | syntaxError : Alike .syntaxError .syntaxError
  | outOfFuel : Alike .outOfFuel .outOfFuel

/-- From a position in reach the part reads what the parser reads, and ends at a
position in reach that is not before any place it has been behind. -/
abbrev Follows {α : Type} (reach : Reach) (start : Nat) (part : Walk α) (part' : Parser α) :
    Prop :=
  Parallel (At reach start) Alike Eq part part'

variable {reach : Reach} {start : Nat} {cursor : Cursor} {state : Parser.State}
variable {symbol : Symbol} {token : Token} {rest : List Token}

namespace At

theorem tokenAt_of_getElem? {index : Nat} (h : cursor.tokens[index]? = some token) :
    tokenAt index cursor = .ok token cursor := by
  rw [tokenAt, h]

theorem getElem?_current (h : At reach start cursor state) :
    cursor.tokens[cursor.current]? = some state.next := by
  have hnext : reach.tokens.drop cursor.current =
      state.rest ++ state.ending :: reach.beyond := by
    rw [Reach.tokens, List.drop_append_of_le_length h.within, h.rest, h.ending]
  rw [h.tokens, ← List.head?_drop, hnext, Parser.State.next]
  cases state.rest <;> rfl

theorem peek (h : At reach start cursor state) : peek cursor = .ok state.next cursor :=
  tokenAt_of_getElem? h.getElem?_current

/-- A token that is still to come is not the end of the file. -/
theorem plain (h : At reach start cursor state) (hrest : state.rest = token :: rest) :
    token.is .endOfFile = false := by
  apply reach.plain
  apply List.mem_of_mem_drop
  rw [← h.rest, hrest]
  exact List.mem_cons_self

/-- Behind the last token in reach comes the end of the file. -/
theorem kind_next (h : At reach start cursor state) (hrest : state.rest = []) :
    state.next.kind = .symbol .endOfFile := by
  rw [Parser.State.next, hrest, List.headD_nil, h.ending]
  exact Grammar.kind_of_is reach.ends

theorem isAtEnd (h : At reach start cursor state) :
    isAtEnd cursor = .ok state.rest.isEmpty cursor := by
  rw [Walk.isAtEnd, bind_of_ok h.peek, Parser.State.next]
  cases hrest : state.rest with
  | nil =>
      rw [List.headD_nil, h.ending, reach.ends]
      rfl
  | cons token rest =>
      rw [List.headD_cons, h.plain hrest]
      rfl

theorem check (h : At reach start cursor state) (symbol : Symbol) :
    check symbol cursor = .ok (state.rest.head?.any (·.is symbol)) cursor := by
  rw [Walk.check, bind_of_ok h.isAtEnd]
  cases hrest : state.rest with
  | nil => rfl
  | cons token rest =>
      refine (bind_of_ok h.peek).trans ?_
      rw [Parser.State.next, hrest]
      rfl

theorem next (h : At reach start cursor state) (hrest : state.rest = token :: rest) :
    At reach start cursor.next { state with rest := rest } where
  tokens := h.tokens
  start := h.start.trans (Nat.le_succ _)
  within := by
    have hdrop := h.rest
    rw [hrest] at hdrop
    exact List.length_lt_of_drop_ne_nil (hdrop ▸ List.cons_ne_nil _ _)
  rest := by
    rw [Cursor.next, ← List.tail_drop, ← h.rest, hrest]
    rfl
  ending := h.ending
  nextId := h.nextId
  diagnostics := h.diagnostics

theorem previous (h : At reach start cursor state) (hrest : state.rest = token :: rest) :
    previous cursor.next = .ok token cursor.next := by
  have hcurrent := h.getElem?_current
  rw [Parser.State.next, hrest] at hcurrent
  exact tokenAt_of_getElem? hcurrent

/-- There is a token to look back at anywhere but at the beginning of the list. -/
theorem exists_previous (h : At reach start cursor state) (hpositive : 0 < cursor.current) :
    ∃ token, Walk.previous cursor = .ok token cursor := by
  obtain ⟨index, hindex⟩ := Nat.exists_eq_add_one_of_ne_zero hpositive.ne'
  have hlength : index < cursor.tokens.length := by
    have hwithin := h.within
    rw [h.tokens, Reach.tokens, List.length_append, List.length_cons]
    omega
  refine ⟨cursor.tokens[index], ?_⟩
  rw [Walk.previous, hindex]
  exact tokenAt_of_getElem? (List.getElem?_eq_getElem hlength)

theorem advance (h : At reach start cursor state) (hrest : state.rest = token :: rest) :
    advance cursor = .ok token cursor.next := by
  rw [Walk.advance, bind_of_ok h.isAtEnd, hrest]
  exact h.previous hrest

theorem acceptsAny (h : At reach start cursor state) (symbols : List Symbol) :
    acceptsAny symbols cursor =
      if state.rest.head?.any (·.isAny symbols) then .ok true cursor.next
      else .ok false cursor := by
  induction symbols with
  | nil =>
      have hnone : state.rest.head?.any (·.isAny []) = false := by
        cases state.rest <;> rfl
      rw [hnone]
      rfl
  | cons symbol symbols ih =>
      rw [Walk.acceptsAny, bind_of_ok (h.check symbol)]
      cases hrest : state.rest with
      | nil =>
          rw [hrest] at ih
          exact ih
      | cons token rest =>
          have hany : token.isAny (symbol :: symbols) =
              (token.is symbol || token.isAny symbols) := rfl
          rw [hrest] at ih
          rw [List.head?_cons, Option.any_some, Option.any_some, hany]
          cases token.is symbol with
          | true => exact bind_of_ok (h.advance hrest)
          | false => exact ih

end At

/-! ## Steps side by side -/

theorem check_follows (symbol : Symbol) :
    Follows reach start (check symbol) (Parser.nextIs symbol) := by
  intro cursor state h
  rw [h.check]
  exact .ok rfl h

theorem isAtEnd_follows : Follows reach start isAtEnd Parser.atEnd := by
  intro cursor state h
  rw [h.isAtEnd]
  exact .ok rfl h

theorem report_follows (token : Token) (error : SyntaxError) :
    Follows reach start (report token error) (Parser.report token error) := by
  intro cursor state h
  refine .ok rfl ⟨h.tokens, h.start, h.within, h.rest, h.ending, h.nextId, ?_⟩
  rw [Parser.State.report, h.diagnostics]

theorem peek_follows : Follows reach start peek Parser.peek := by
  intro cursor state h
  rw [h.peek]
  exact .ok rfl h

theorem fail_follows {α : Type} (what : Expectation) :
    Follows reach start (fail what : Walk α) (Parser.fail what) := by
  intro cursor state h
  rw [fail, bind_of_ok h.peek]
  refine .error .syntaxError ⟨h.tokens, h.start, h.within, h.rest, h.ending, h.nextId, ?_⟩
  rw [Parser.State.report, h.diagnostics]

theorem freshId_follows : Follows reach start freshId Parser.freshId := by
  intro cursor state h
  refine .ok h.nextId.symm ⟨h.tokens, h.start, h.within, h.rest, h.ending, ?_, h.diagnostics⟩
  exact congrArg (· + 1) h.nextId

/-- The next token is one of the symbols and both ways pass over it, or it is not and
both stay. -/
theorem At.passes (h : At reach start cursor state) (symbols : List Symbol) :
    (∃ token rest, state.rest = token :: rest ∧
      Walk.acceptsAny symbols cursor = .ok true cursor.next ∧
      Parser.accept? symbols state = .ok (some token) { state with rest := rest }) ∨
    Walk.acceptsAny symbols cursor = .ok false cursor ∧
      Parser.accept? symbols state = .ok none state := by
  rw [h.acceptsAny]
  obtain ⟨_ | ⟨token, rest⟩, ending, next, diagnostics⟩ := state
  · exact .inr ⟨rfl, rfl⟩
  · cases hany : token.isAny symbols with
    | true => exact .inl ⟨token, rest, rfl, by simp [hany], by simp [Parser.accept?, hany]⟩
    | false => exact .inr ⟨by simp [hany], by simp [Parser.accept?, hany]⟩

theorem accepts_eq (symbol : Symbol) : accepts symbol = acceptsAny [symbol] := rfl

/-- Both ways learn whether the symbol has been passed over. -/
theorem accepts_follows (symbol : Symbol) :
    Parallel (At reach start) Alike (fun accepted token? => accepted = token?.isSome)
      (accepts symbol) (Parser.accept? [symbol]) := by
  intro cursor state h
  rw [accepts_eq]
  obtain ⟨token, rest, hrest, hleft, hright⟩ | ⟨hleft, hright⟩ := h.passes [symbol]
  · rw [hleft, hright]
    exact .ok rfl (h.next hrest)
  · rw [hleft, hright]
    exact .ok rfl h

/-- Looking back gives the symbol that has been passed over. -/
theorem accepted?_follows (symbols : List Symbol) :
    Follows reach start (accepted? symbols) (Parser.accept? symbols) := by
  intro cursor state h
  obtain ⟨token, rest, hrest, hleft, hright⟩ | ⟨hleft, hright⟩ := h.passes symbols
  · have hlast : accepted? symbols cursor = .ok (some token) cursor.next := by
      rw [accepted?, bind_of_ok hleft]
      exact bind_of_ok (h.previous hrest)
    rw [hlast, hright]
    exact .ok rfl (h.next hrest)
  · rw [accepted?, bind_of_ok hleft, hright]
    exact .ok rfl h

theorem expect_follows (symbol : Symbol) (what : Expectation) :
    Follows reach start (expect symbol what) (Parser.expect symbol what) := by
  intro cursor state h
  have hcheck := h.check symbol
  obtain ⟨_ | ⟨token, rest⟩, ending, next, diagnostics⟩ := state
  · rw [expect, bind_of_ok hcheck]
    exact fail_follows what _ _ h
  · rw [expect, bind_of_ok hcheck, List.head?_cons, Option.any_some]
    cases hsymbol : token.is symbol with
    | true =>
        have haccept : Parser.accept? [symbol] ⟨token :: rest, ending, next, diagnostics⟩ =
            .ok (some token) ⟨rest, ending, next, diagnostics⟩ := by
          simp [Parser.accept?, Token.isAny, hsymbol]
        rw [if_pos rfl, h.advance rfl, Parser.expect, bind_of_ok haccept]
        exact .ok rfl (h.next rfl)
    | false =>
        have haccept : Parser.accept? [symbol] ⟨token :: rest, ending, next, diagnostics⟩ =
            .ok none ⟨token :: rest, ending, next, diagnostics⟩ := by
          simp [Parser.accept?, Token.isAny, hsymbol]
        rw [if_neg Bool.false_ne_true, Parser.expect, bind_of_ok haccept]
        exact fail_follows what _ _ h

theorem checkArity_follows (count : Nat) (error : SyntaxError) :
    Follows reach start (checkArity count error) (Parser.checkArity count error) := by
  rw [checkArity, Parser.checkArity]
  split
  · apply peek_follows.bind
    rintro token _ rfl
    exact report_follows token error
  · exact .pure rfl

/-! ## Recovery -/

/-- Behind a token, skipping ends where a statement can begin. -/
theorem At.skip {fuel : Nat} {tokens : List Token} {ending : Token} {nextId : Nat}
    {diagnostics : Array Diagnostic} (h : At reach start cursor ⟨tokens, ending, nextId, diagnostics⟩)
    (hprevious : Walk.previous cursor = .ok token cursor) (hfuel : tokens.length < fuel) :
    ∃ after, skip fuel cursor = .ok () after ∧
      At reach start after
        ⟨Parser.resume (token.is .semicolon) tokens, ending, nextId, diagnostics⟩ := by
  induction tokens generalizing fuel cursor token with
  | nil =>
      obtain _ | fuel := fuel
      · cases hfuel
      · exact ⟨cursor, bind_of_ok h.isAtEnd, h⟩
  | cons following rest ih =>
      obtain _ | fuel := fuel
      · cases hfuel
      · rw [Walk.skip, bind_of_ok h.isAtEnd, List.isEmpty_cons, if_neg Bool.false_ne_true,
          bind_of_ok hprevious]
        cases hsemicolon : token.is .semicolon with
        | true => exact ⟨cursor, rfl, by simpa [Parser.resume] using h⟩
        | false =>
            rw [if_neg Bool.false_ne_true, bind_of_ok h.peek]
            cases hstarter : following.isAny Parser.starters with
            | true =>
                refine ⟨cursor, ?_, by simpa [Parser.resume, hstarter] using h⟩
                rw [Parser.State.next, List.headD_cons, hstarter]
                rfl
            | false =>
                obtain ⟨after, hskip, hafter⟩ :=
                  ih (h.next rfl) (h.previous rfl) (Nat.lt_of_succ_lt_succ hfuel)
                refine ⟨after, ?_, by simpa [Parser.resume, hstarter] using hafter⟩
                rw [Parser.State.next, List.headD_cons, hstarter, if_neg Bool.false_ne_true,
                  bind_of_ok (h.advance rfl)]
                exact hskip

/-- Recovery passes over the token at which reading failed.  At the end of the file
there is nothing to pass over, but a token to look back at, since the list does not
begin there. -/
theorem At.synchronize (h : At reach start cursor state) :
    ∃ after, synchronize cursor = .ok () after ∧ At reach start after state.recover := by
  have hlength : cursor.tokens.length = reach.within.length + (reach.beyond.length + 1) := by
    rw [h.tokens, Reach.tokens, List.length_append, List.length_cons]
  obtain ⟨_ | ⟨token, rest⟩, ending, nextId, diagnostics⟩ := state
  · have hbehind : reach.within.length ≤ cursor.current := List.drop_eq_nil_iff.1 h.rest.symm
    have hpositive := List.length_pos_of_ne_nil reach.nonempty
    obtain ⟨last, hprevious⟩ := h.exists_previous (hpositive.trans_le hbehind)
    obtain ⟨after, hskip, hafter⟩ := h.skip hprevious (show 0 < cursor.tokens.length by omega)
    refine ⟨after, ?_, hafter⟩
    have hadvance : Walk.advance cursor = .ok last cursor := (bind_of_ok h.isAtEnd).trans hprevious
    rw [Walk.synchronize, bind_of_ok hadvance]
    exact hskip
  · have hshort := congrArg List.length h.rest
    rw [List.length_drop, List.length_cons] at hshort
    obtain ⟨after, hskip, hafter⟩ := (h.next rfl).skip (h.previous rfl)
      (show rest.length < cursor.tokens.length by omega)
    refine ⟨after, ?_, hafter⟩
    rw [Walk.synchronize, bind_of_ok (h.advance rfl)]
    exact hskip

theorem attempt_follows {α : Type} {part : Walk α} {part' : Parser α}
    (h : Follows reach start part part') :
    Follows reach start (attempt part) (Parser.attempt part') := by
  intro cursor state hat
  have hends := h cursor state hat
  simp only [attempt, Parser.attempt]
  generalize part cursor = left at hends ⊢
  generalize part' state = right at hends ⊢
  cases hends with
  | ok hresult hafter => exact .ok (congrArg some hresult) hafter
  | error hhalt hafter =>
      cases hhalt with
      | syntaxError =>
          obtain ⟨after, hsynchronize, hrecovered⟩ := hafter.synchronize
          dsimp only
          rw [bind_of_ok hsynchronize]
          exact .ok rfl hrecovered
      | outOfFuel => exact .error .outOfFuel hafter

end Lox.Walk
