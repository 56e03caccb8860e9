import Lox.Proofs.Syntax.Inside
import Lox.Proofs.Syntax.Reading.Statement
import Lox.Proofs.Syntax.Walk.Statement

/-!
# Reading ends inside the list

Reading a program by position ends at the first end of file, however the tokens
before it are put together.  No rule asks for a token outside the list or goes
back, and each declaration passes over at least one token, also where it fails:
this is what makes the loops over declarations end.
-/

namespace Lox.Walk

/-! ## Every rule follows the parser -/

theorem rulesFollow {reach : Reach} {start : Nat} (fuel : Nat) :
    RulesFollow reach start fuel := by
  induction fuel with
  | zero =>
      intro α rule
      cases rule <;> exact .throw .outOfFuel
  | succ fuel ih =>
      intro α rule
      cases rule with
      | expression => exact expression_follows ih
      | binary levels => exact binary_follows ih levels
      | binaryRest level tighter left => exact binaryRest_follows ih level tighter left
      | unary => exact unary_follows ih
      | callRest callee => exact callRest_follows ih callee
      | arguments closing => exact arguments_follows ih closing
      | argumentsRest count => exact argumentsRest_follows ih count
      | primary => exact primary_follows ih
      | parametersRest count => exact parametersRest_follows ih count
      | declaration? => exact attempt_follows (ih .declaration)
      | declaration => exact declaration_follows ih
      | statement => exact statement_follows ih
      | block => exact block_follows ih
      | declarations => exact declarations_follows ih
      | callable form => exact callable_follows ih form
      | methods => exact methods_follows ih

theorem program_follows {reach : Reach} {start : Nat} (fuel : Nat) :
    Follows reach start (program fuel) (Parser.program fuel) := by
  induction fuel with
  | zero => exact .throw .outOfFuel
  | succ fuel ih =>
      rw [program, Parser.program]
      apply isAtEnd_follows.bind
      rintro ended _ rfl
      split
      · exact .pure rfl
      · apply (rulesFollow fuel .declaration?).bind
        rintro first _ rfl
        apply ih.bind
        rintro rest _ rfl
        exact .pure rfl

/-- The state of the parser at a position. -/
def Reach.state (reach : Reach) (cursor : Cursor) : Parser.State :=
  ⟨reach.within.drop cursor.current, reach.ending, cursor.nextId, cursor.diagnostics⟩

theorem Reach.at_state (reach : Reach) {cursor : Cursor} (htokens : cursor.tokens = reach.tokens)
    (hwithin : cursor.current ≤ reach.within.length) :
    At reach cursor.current cursor (reach.state cursor) :=
  ⟨htokens, le_rfl, hwithin, rfl, rfl, rfl, rfl⟩

/-- Wherever the part begins in the list up to the limit, it never asks for a token
outside the list, and ends up to the limit but not before where it began. -/
def Stays {α : Type} (tokens : List Token) (limit : Nat) (part : Walk α) : Prop :=
  ∀ cursor, cursor.tokens = tokens → cursor.current ≤ limit →
    (∀ after, part cursor ≠ .error .outOfRange after) ∧
      cursor.current ≤ (finalState (part cursor)).current ∧
      (finalState (part cursor)).current ≤ limit

theorem stays_of_follows {α : Type} {reach : Reach} {part : Walk α} {part' : Parser α}
    (h : ∀ start, Follows reach start part part') :
    Stays reach.tokens reach.within.length part := by
  intro cursor htokens hwithin
  have hends := h cursor.current cursor _ (reach.at_state htokens hwithin)
  generalize part cursor = left at hends ⊢
  generalize part' (reach.state cursor) = right at hends
  cases hends with
  | ok _ hat => exact ⟨by simp, hat.start, hat.within⟩
  | error hhalt hat =>
      refine ⟨fun after heq => ?_, hat.start, hat.within⟩
      cases hhalt <;> cases heq

end Walk

/-! ## The parser on a whole program -/

namespace Parser

variable {fuel : Nat} {tokens : List Token} {ending : Token}

/-- A declaration is read or left out, either way with fewer tokens to come. -/
theorem declaration?_ends (hending : ending.is .endOfFile) (hne : tokens ≠ [])
    (hfuel : 32 * tokens.length + 13 ≤ fuel) (nextId : Nat) (diagnostics : Array Diagnostic) :
    ∃ declared? after,
      declaration? fuel ⟨tokens, ending, nextId, diagnostics⟩ = .ok declared? after ∧
        after.ending = ending ∧ after.rest.length < tokens.length := by
  have hreads :=
    (statementsRead fuel).declaration? tokens nextId hne hfuel ending diagnostics hending
  obtain _ | fuel := fuel
  · cases hfuel
  · rw [declaration?, attempt] at hreads ⊢
    cases hended : declaration fuel ⟨tokens, ending, nextId, diagnostics⟩ with
    | ok s after =>
        rw [hended] at hreads
        exact ⟨some s, after, rfl, hreads.1.ending, hreads.1.moved rfl⟩
    | error halt after =>
        rw [hended] at hreads
        cases halt with
        | syntaxError => exact ⟨none, after.recover, rfl, hreads.1.ending, hreads.1.moved rfl⟩
        | outOfFuel => exact hreads.elim

/-- A program is read to its end, whatever its tokens are. -/
theorem program_ends (hending : ending.is .endOfFile) (hfuel : 32 * tokens.length + 14 ≤ fuel)
    (nextId : Nat) (diagnostics : Array Diagnostic) :
    ∃ statements after,
      program fuel ⟨tokens, ending, nextId, diagnostics⟩ = .ok statements after ∧
        after.rest = [] := by
  induction fuel generalizing tokens nextId diagnostics with
  | zero => cases hfuel
  | succ fuel ih =>
      cases tokens with
      | nil => exact ⟨[], _, rfl, rfl⟩
      | cons token rest =>
          obtain ⟨first, ⟨further, ending, middle, reported⟩, hfirst, rfl, hshorter⟩ :=
            declaration?_ends hending (List.cons_ne_nil token rest) (by omega : _ ≤ fuel) nextId
              diagnostics
          have hfurther : 32 * further.length + 14 ≤ fuel := by
            dsimp only at hshorter
            omega
          obtain ⟨statements, after, hstatements, hrest⟩ := ih hfurther middle reported
          refine ⟨first.toList ++ statements, after, ?_, hrest⟩
          have hinside : atEnd ⟨token :: rest, ending, nextId, diagnostics⟩ = .ok false _ := rfl
          rw [program, bind_of_ok hinside, if_neg Bool.false_ne_true, bind_of_ok hfirst,
            bind_of_ok hstatements]
          rfl

end Parser

namespace Walk

/-- A list that ends in an end of file has a first one. -/
theorem exists_first_ending {tokens : List Token} {last : Token}
    (hlast : tokens.getLast? = some last) (hending : last.is .endOfFile) :
    ∃ within ending beyond, tokens = within ++ ending :: beyond ∧
      (∀ token ∈ within, ¬token.is .endOfFile) ∧ ending.is .endOfFile := by
  have hsome : (tokens.find? (·.is .endOfFile)).isSome := by
    rw [List.find?_isSome]
    exact ⟨last, List.mem_of_getLast? hlast, hending⟩
  obtain ⟨ending, hfind⟩ := Option.isSome_iff_exists.1 hsome
  obtain ⟨hends, within, beyond, htokens, hplain⟩ := List.find?_eq_some_iff_append.1 hfind
  exact ⟨within, ending, beyond, htokens, by simpa using hplain, hends⟩

theorem findIdx_ending {within beyond : List Token} {ending : Token}
    (hplain : ∀ token ∈ within, ¬token.is .endOfFile) (hending : ending.is .endOfFile) :
    (within ++ ending :: beyond).findIdx (·.is .endOfFile) = within.length := by
  have hlength : within.findIdx (·.is .endOfFile) = within.length :=
    List.findIdx_eq_length.2 (by simpa using hplain)
  rw [List.findIdx_append, hlength, if_neg (lt_irrefl _), List.findIdx_cons, hending, cond_true,
    Nat.zero_add]

/-- Where the parser succeeds, so does reading by position. -/
theorem ok_of_follows {α : Type} {reach : Reach} {start : Nat} {part : Walk α} {part' : Parser α}
    {cursor : Cursor} {state after' : Parser.State} {result : α}
    (h : Follows reach start part part') (hat : At reach start cursor state)
    (hread : part' state = .ok result after') :
    ∃ after, part cursor = .ok result after ∧ At reach start after after' := by
  have hends := h cursor state hat
  rw [hread] at hends
  generalize part cursor = left at hends ⊢
  cases hends with
  | @ok result' _ after _ hresult hat => exact ⟨after, by rw [hresult], hat⟩

/-- Each declaration in reach passes over a token. -/
theorem declaration?_advances (reach : Reach) {fuel : Nat} {cursor : Cursor}
    (htokens : cursor.tokens = reach.tokens) (hwithin : cursor.current < reach.within.length)
    (hfuel : 32 * (reach.within.length - cursor.current) + 13 ≤ fuel) :
    ∃ declared? after, declaration? fuel cursor = .ok declared? after ∧
      cursor.current < after.current ∧ after.current ≤ reach.within.length := by
  have hlength : (reach.within.drop cursor.current).length =
      reach.within.length - cursor.current := List.length_drop
  have hne : reach.within.drop cursor.current ≠ [] := List.ne_nil_of_length_pos (by omega)
  rw [← hlength] at hfuel
  obtain ⟨declared?, after', hread, -, hshorter⟩ :=
    Parser.declaration?_ends reach.ends hne hfuel cursor.nextId cursor.diagnostics
  obtain ⟨after, hwalk, hat⟩ :=
    ok_of_follows (rulesFollow fuel .declaration?) (reach.at_state htokens hwithin.le) hread
  refine ⟨declared?, after, hwalk, ?_, hat.within⟩
  rw [hat.rest, List.length_drop, hlength] at hshorter
  omega

/-- A program is read to the end of what is in reach, as the parser reads it. -/
theorem program_reaches (reach : Reach) (nextId : Nat) :
    ∃ statements after,
      program (Parsed.fuel ⟨reach.within, reach.ending⟩) ⟨reach.tokens, 0, nextId, #[]⟩ =
          .ok statements after ∧
        after.current = reach.within.length ∧
        Parsed.ofStream ⟨reach.within, reach.ending⟩ nextId =
          ⟨statements, after.diagnostics.toList, after.nextId⟩ := by
  have hfuel : 32 * reach.within.length + 14 ≤ Parsed.fuel ⟨reach.within, reach.ending⟩ := by
    change _ ≤ 32 * (reach.within.length + 1)
    omega
  obtain ⟨statements, after', hread, hrest⟩ := Parser.program_ends reach.ends hfuel nextId #[]
  let cursor : Cursor := ⟨reach.tokens, 0, nextId, #[]⟩
  have hstart := reach.at_state (show cursor.tokens = reach.tokens from rfl) (Nat.zero_le _)
  obtain ⟨after, hwalk, hat⟩ := ok_of_follows (program_follows _) hstart hread
  refine ⟨statements, after, hwalk, ?_, ?_⟩
  · rw [hat.rest] at hrest
    exact le_antisymm hat.within (List.drop_eq_nil_iff.1 hrest)
  · rw [Parsed.ofStream, hread, ← hat.diagnostics, ← hat.nextId]

/-- Nothing is read where the list begins with an end of file. -/
theorem program_empty {tokens : List Token} {ending : Token} {fuel nextId : Nat}
    (hending : ending.is .endOfFile) :
    program (fuel + 1) ⟨ending :: tokens, 0, nextId, #[]⟩ =
      .ok [] ⟨ending :: tokens, 0, nextId, #[]⟩ := by
  have hend : isAtEnd ⟨ending :: tokens, 0, nextId, #[]⟩ =
      .ok true ⟨ending :: tokens, 0, nextId, #[]⟩ := by
    rw [← hending]
    rfl
  rw [program, bind_of_ok hend]
  rfl

/-- Reading a list of tokens that ends in an end of file returns, at the first end of
file and with what the parser gives.  Each declaration that begins before that is
read or recovered from behind its first token.  No rule asks for a token outside the
list or goes back. -/
theorem reading_inside {tokens : List Token} {last : Token} (hlast : tokens.getLast? = some last)
    (hending : last.is .endOfFile) (nextId : Nat) :
    let limit := tokens.findIdx (·.is .endOfFile)
    let stream := TokenStream.ofTokens tokens
    (∃ statements after,
      program (Parsed.fuel stream) ⟨tokens, 0, nextId, #[]⟩ = .ok statements after ∧
        after.current = limit ∧
        Parsed.ofStream stream nextId =
          ⟨statements, after.diagnostics.toList, after.nextId⟩) ∧
    (∀ fuel cursor, cursor.tokens = tokens → cursor.current < limit →
      32 * (limit - cursor.current) + 13 ≤ fuel →
      ∃ declared? after, declaration? fuel cursor = .ok declared? after ∧
        cursor.current < after.current ∧ after.current ≤ limit) ∧
    (0 < limit → ∀ {α : Type} (rule : Rule α) (fuel : Nat),
      Stays tokens limit (rule.walk fuel)) := by
  obtain ⟨within, ending, beyond, rfl, hplain, hends⟩ := exists_first_ending hlast hending
  rw [findIdx_ending hplain hends, TokenStream.ofTokens_append hends hplain]
  intro limit stream
  cases within with
  | nil =>
      refine ⟨⟨[], _, program_empty hends, rfl, rfl⟩, fun _ _ _ hcurrent => ?_, fun hlimit => ?_⟩
      · exact absurd hcurrent (Nat.not_lt_zero _)
      · exact absurd hlimit (Nat.not_lt_zero _)
  | cons token rest =>
      let reach : Reach := ⟨token :: rest, ending, beyond, by simpa using hplain, hends, by simp⟩
      refine ⟨program_reaches reach nextId, fun fuel cursor htokens hcurrent hfuel => ?_,
        fun _ α rule fuel => ?_⟩
      · exact declaration?_advances reach htokens hcurrent hfuel
      · have hfollows : ∀ start, Follows reach start (rule.walk fuel) (rule.read fuel) :=
          fun _ => rulesFollow fuel rule
        exact stays_of_follows hfollows

/-- Two declarations that are recovered from, and tokens behind the first end of file,
which are not looked at. -/
theorem reading_inside_of_malformed :
    let tokens : List Token := [⟨.symbol .funWord, "fun", 1⟩, ⟨.symbol .rightParen, ")", 1⟩,
      ⟨.symbol .semicolon, ";", 1⟩, ⟨.symbol .dot, ".", 1⟩, Token.ending 1,
      ⟨.symbol .semicolon, ";", 2⟩, Token.ending 2]
    let parsed := Parsed.ofStream (.ofTokens tokens) 7
    tokens.getLast? = some (Token.ending 2) ∧ (Token.ending 2).is .endOfFile ∧
      tokens.findIdx (·.is .endOfFile) = 4 ∧
      parsed.statements.length = 0 ∧ parsed.diagnostics.length = 2 ∧
      (∃ statements after,
        program (Parsed.fuel (.ofTokens tokens)) ⟨tokens, 0, 7, #[]⟩ = .ok statements after ∧
          after.current = 4) ∧
      (∃ declared? after, declaration? 109 ⟨tokens, 1, 7, #[]⟩ = .ok declared? after ∧
        1 < after.current) ∧
      Stays tokens 4 (Rule.statement.walk 5) := by
  intro tokens parsed
  have hlast : tokens.getLast? = some (Token.ending 2) := rfl
  have hending : (Token.ending 2).is .endOfFile := rfl
  have hlimit : tokens.findIdx (·.is .endOfFile) = 4 := rfl
  have hinside := reading_inside hlast hending 7
  rw [hlimit] at hinside
  obtain ⟨⟨statements, after, hprogram, hafter, -⟩, hdeclarations, hrules⟩ := hinside
  obtain ⟨declared?, after', hdeclared, hmoved, -⟩ :=
    hdeclarations 109 ⟨tokens, 1, 7, #[]⟩ rfl (by decide) (by decide)
  exact ⟨hlast, hending, hlimit, by decide +kernel, by decide +kernel,
    ⟨statements, after, hprogram, hafter⟩, ⟨declared?, after', hdeclared, hmoved⟩,
    hrules (by decide) .statement 5⟩

end Walk

end Lox
