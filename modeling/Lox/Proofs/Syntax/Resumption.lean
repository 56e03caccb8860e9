import Lox.Proofs.Syntax.Containment

/-!
# Reading on behind a simple statement

A simple statement with an error costs nothing but itself.  Its declaration is
left out and its errors are at its own tokens; the declarations behind it are
those that would be read if it were in order, up to the numbers of their name
occurrences, and so are their errors.
-/

namespace Lox.Parser

/-! ## Loops over declarations -/

/-- The part never stops because of a syntax error. -/
def Settles {α : Type} (part : Parser α) : Prop :=
  ∀ state after, part state ≠ .error .syntaxError after

namespace Settles

variable {α β : Type} {part : Parser α}

theorem pure {result : α} : Settles (pure result) :=
  fun _ _ h => by cases h

theorem bind {rest : α → Parser β} (hpart : Settles part)
    (hrest : ∀ result, Settles (rest result)) : Settles (part >>= rest) := by
  intro state after h
  cases hresult : part state with
  | ok result next =>
      rw [bind_of_ok hresult] at h
      exact hrest result next after h
  | error halt next =>
      rw [bind_of_error hresult] at h
      cases h
      exact hpart state after hresult

theorem attempt (part : Parser α) : Settles (attempt part) := by
  intro state after h
  rw [Parser.attempt] at h
  split at h <;> cases h

theorem declaration? (fuel : Nat) : Settles (declaration? fuel) := by
  cases fuel with
  | zero => exact fun _ _ h => by cases h
  | succ fuel => exact attempt _

theorem declarations (fuel : Nat) : Settles (declarations fuel) := by
  induction fuel with
  | zero => exact fun _ _ h => by cases h
  | succ fuel ih =>
      rw [Parser.declarations]
      apply bind (fun _ _ h => by cases h)
      intro closed
      apply bind (fun _ _ h => by cases h)
      intro ended
      split
      · exact pure
      · apply (declaration? fuel).bind
        intro first
        exact ih.bind fun _ => pure

theorem program (fuel : Nat) : Settles (program fuel) := by
  induction fuel with
  | zero => exact fun _ _ h => by cases h
  | succ fuel ih =>
      rw [Parser.program]
      apply bind (fun _ _ h => by cases h)
      intro ended
      split
      · exact pure
      · apply (declaration? fuel).bind
        intro first
        exact ih.bind fun _ => pure

end Settles

/-- The two loops over declarations, of a whole program and of a block. -/
inductive Loop : (Nat → Parser (List Stmt)) → Prop where
  | program : Loop program
  | declarations : Loop declarations

namespace Loop

variable {loop : Nat → Parser (List Stmt)} {tokens : List Token} {ending : Token}
variable {next next' : Nat} {known known' : Array Diagnostic} {fuel : Nat}

/-- A loop with fuel to spare comes to its end. -/
theorem ends (hloop : Loop loop) (hending : ending.is .endOfFile)
    (hfuel : 32 * tokens.length + 14 ≤ fuel) (next : Nat) (known : Array Diagnostic) :
    ∃ ss after, loop fuel ⟨tokens, ending, next, known⟩ = .ok ss after ∧
      after.ending = ending := by
  have hreads : ∃ derives, Reads false tokens next (loop fuel) derives := by
    cases hloop with
    | program => exact ⟨_, program_reads next hfuel⟩
    | declarations => exact ⟨_, (statementsRead fuel).declarations tokens next hfuel⟩
  have hsettles : Settles (loop fuel) := by
    cases hloop with
    | program => exact .program fuel
    | declarations => exact .declarations fuel
  obtain ⟨derives, hreads⟩ := hreads
  have hend := hreads ending known hending
  split at hend
  · rename_i ss after hresult
    exact ⟨ss, after, hresult, hend.1.ending⟩
  · rename_i after hresult
    exact absurd hresult (hsettles _ _)
  · exact hend.elim

/-- What a loop reads from some tokens, and the errors it adds, do not depend on
what has been read before. -/
theorem independent (hloop : Loop loop) (hending : ending.is .endOfFile)
    (hfuel : 32 * tokens.length + 14 ≤ fuel) (next next' : Nat)
    (known known' : Array Diagnostic) :
    ∃ ss ss' rest last last' later,
      loop fuel ⟨tokens, ending, next, known⟩ = .ok ss ⟨rest, ending, last, known ++ later⟩ ∧
      loop fuel ⟨tokens, ending, next', known'⟩ =
        .ok ss' ⟨rest, ending, last', known' ++ later⟩ ∧
      List.Forall₂ (Stmt.Matches (.shift next next')) ss ss' := by
  have happart : ∀ earlier, Apart earlier (loop fuel) := by
    intro earlier
    cases hloop with
    | program => exact program_apart fuel
    | declarations => exact rulesApart fuel .declarations
  have hstep : InStep (.shift next next') next next'
      (List.Forall₂ (Stmt.Matches (.shift next next'))) (loop fuel) (loop fuel) := by
    cases hloop with
    | program => exact program_inStep Correspondence.shift_free fuel
    | declarations => exact (statementsInStep Correspondence.shift_free fuel).declarations
  have hself : ∀ token : Token, token.Matches (.shift next next') token :=
    fun _ => ⟨rfl, rfl, rfl⟩
  obtain ⟨ss, ⟨rest, ending, last, later⟩, hss, rfl⟩ :=
    hloop.ends hending hfuel next #[]
  have hstart : State.Matches (.shift next next') next next' ⟨tokens, ending, next, #[]⟩
      ⟨tokens, ending, next', #[]⟩ :=
    ⟨List.forall₂_same.2 fun token _ => hself token, hself ending, ⟨0, rfl, rfl⟩, .nil⟩
  have hends := hstep _ _ hstart
  rw [hss] at hends
  generalize hss' : loop fuel ⟨tokens, ending, next', #[]⟩ = result at hends
  cases hends with
  | @ok _ ss' _ after' hmatches hafter =>
      obtain ⟨rest', ending', last', later'⟩ := after'
      obtain rfl : rest = rest' := by
        have hrest : List.Forall₂ Eq rest rest' := hafter.rest.imp fun _ _ h => h.eq rfl
        rwa [List.forall₂_eq_eq_eq] at hrest
      obtain rfl : ending = ending' := hafter.ending.eq rfl
      obtain rfl : later = later' :=
        Array.toList_inj.1 (Diagnostic.eq_of_matches rfl hafter.diagnostics)
      -- The errors known before come in front of those of the loop.
      have hknown : ∀ earlier number, (⟨tokens, ending, number, earlier⟩ : State) =
          State.behind earlier ⟨tokens, ending, number, #[]⟩ := by
        simp [State.behind]
      refine ⟨ss, ss', rest, last, last', later, ?_, ?_, hmatches⟩
      · have hbehind := happart known _ _ (hknown known next)
        rw [hss] at hbehind
        generalize loop fuel ⟨tokens, ending, next, known⟩ = result at hbehind
        cases hbehind with
        | ok hresult hstate => rw [← hresult, hstate, State.behind]
      · have hbehind := happart known' _ _ (hknown known' next')
        rw [hss'] at hbehind
        generalize loop fuel ⟨tokens, ending, next', known'⟩ = result at hbehind
        cases hbehind with
        | ok hresult hstate => rw [← hresult, hstate, State.behind]

/-- A loop reads a declaration unless it stands at a closing brace or at the end. -/
theorem step (hloop : Loop loop) {state middle after : State} {word : Token} {s? : Option Stmt}
    {ss : List Stmt} (hword : state.rest.head? = some word)
    (hbrace : word.is .rightBrace = false)
    (hfirst : declaration? fuel state = .ok s? middle) (hrest : loop fuel middle = .ok ss after) :
    loop (fuel + 1) state = .ok (s?.toList ++ ss) after := by
  obtain ⟨tokens, ending, next, known⟩ := state
  obtain ⟨further, rfl⟩ := List.head?_eq_some_iff.1 hword
  have hend : atEnd ⟨word :: further, ending, next, known⟩ =
      .ok false ⟨word :: further, ending, next, known⟩ := rfl
  cases hloop with
  | program =>
      rw [Parser.program, bind_of_ok hend]
      exact (bind_of_ok hfirst).trans (bind_of_ok hrest)
  | declarations =>
      have hnext : nextIs .rightBrace ⟨word :: further, ending, next, known⟩ =
          .ok false ⟨word :: further, ending, next, known⟩ := by
        simp [nextIs, hbrace]
      rw [Parser.declarations, bind_of_ok hnext, bind_of_ok hend]
      exact (bind_of_ok hfirst).trans (bind_of_ok hrest)

end Loop

/-! ## Simple statements -/

/-- What is read of a simple statement: the statement or nothing, where reading
stands behind the semicolon, and errors at tokens of the statement. -/
theorem declaration?_simple {stretch : Stretch} {state : State} {fuel : Nat}
    (hstart : stretch.Start state) (hending : state.ending.is .endOfFile)
    (hfuel : 32 * state.rest.length + 12 ≤ fuel) :
    ∃ s? after, declaration? (fuel + 1) state = .ok s? after ∧ stretch.Behind after ∧
      (∀ s next, declaration fuel state = .ok s next → s? = some s) ∧
      ∀ halt next, declaration fuel state = .error halt next →
        s? = none ∧ stretch.known.size < after.diagnostics.size := by
  obtain ⟨tokens, ending, next, known⟩ := state
  obtain ⟨word, hword, hbefore⟩ := hstart.opens
  have hcompletes := declaration_completes hstart.simple hword fuel _ hbefore
  have hreads := (statementsRead fuel).declaration tokens next hfuel ending known hending
  rw [declaration?, attempt]
  cases hresult : declaration fuel ⟨tokens, ending, next, known⟩ with
  | ok s after =>
      rw [hresult] at hcompletes
      refine ⟨some s, after, rfl, hcompletes, ?_, ?_⟩
      · rintro _ _ ⟨⟩
        rfl
      · rintro _ _ ⟨⟩
  | error halt after =>
      rw [hresult] at hcompletes hreads
      cases halt with
      | outOfFuel => exact hreads.elim
      | syntaxError =>
          have hkept : after.recover.diagnostics = after.diagnostics := by
            rw [State.recover]
            split <;> rfl
          have hreported : stretch.known.size < after.recover.diagnostics.size := by
            rw [hkept, ← hstart.diagnostics]
            exact hreads.reported
          refine ⟨none, after.recover, rfl, hcompletes.recover hstart.simple, ?_, ?_⟩
          · rintro _ _ ⟨⟩
          · exact fun _ _ _ => ⟨rfl, hreported⟩

/-- Where a simple statement comes there are tokens, and no closing brace first. -/
theorem Simple.head {tokens : List Token} (hsimple : Simple tokens) {semicolon : Token}
    (hsemicolon : semicolon.is .semicolon) (further : List Token) :
    ∃ word, (tokens ++ semicolon :: further).head? = some word ∧ word.is .rightBrace = false := by
  let stretch : Stretch := ⟨tokens, semicolon, further, semicolon, #[], hsemicolon⟩
  have hstart : stretch.Start (⟨tokens ++ semicolon :: further, semicolon, 0, #[]⟩ : State) :=
    ⟨hsimple, rfl, rfl, rfl⟩
  obtain ⟨word, hopens, -, hword⟩ := hstart.opens
  refine ⟨word, hword, ?_⟩
  by_contra hbrace
  have hkind := Grammar.kind_of_is (by simpa using hbrace : word.is .rightBrace)
  exact hopens.kind_ne (by decide) (by decide) hkind

/-- A declaration that begins with the tokens of a simple statement is read up to
its semicolon, whether or not the tokens are in order.  If they are not, it is left
out, and there is an error; all errors are at these tokens or at the semicolon.
The loop over declarations that it stands in goes on with the tokens behind, and
reads from them the same declarations, up to numbers, with the same errors, as it
does where any other simple statement stands in its place. -/
theorem simple_statement_contained {tokens : List Token} {semicolon ending : Token}
    (hsimple : Simple tokens) (hsemicolon : semicolon.is .semicolon)
    (hending : ending.is .endOfFile) (further : List Token) (next : Nat)
    (known : Array Diagnostic) {fuel : Nat}
    (hfuel : 32 * (tokens ++ semicolon :: further).length + 12 ≤ fuel) :
    let start : State := ⟨tokens ++ semicolon :: further, ending, next, known⟩
    ∃ s? middle new,
      declaration? (fuel + 1) start = .ok s? ⟨further, ending, middle, known ++ new⟩ ∧
      (∀ s after, declaration fuel start = .ok s after → s? = some s) ∧
      (∀ halt after, declaration fuel start = .error halt after → s? = none ∧ new ≠ #[]) ∧
      (∀ diagnostic ∈ new, ∃ token ∈ tokens ++ [semicolon],
        ∃ error, diagnostic = .syntactic token error) ∧
      ∀ (tokens' : List Token) (semicolon' : Token), Simple tokens' →
        semicolon'.is .semicolon → 32 * (tokens' ++ semicolon' :: further).length + 12 ≤ fuel →
        let start' : State := ⟨tokens' ++ semicolon' :: further, ending, next, known⟩
        ∃ s?' middle' new',
          declaration? (fuel + 1) start' = .ok s?' ⟨further, ending, middle', known ++ new'⟩ ∧
          ∀ loop, Loop loop → ∃ ss ss' rest last last' later,
            loop (fuel + 2) start =
              .ok (s?.toList ++ ss) ⟨rest, ending, last, known ++ new ++ later⟩ ∧
            loop (fuel + 2) start' =
              .ok (s?'.toList ++ ss') ⟨rest, ending, last', known ++ new' ++ later⟩ ∧
            List.Forall₂ (Stmt.Matches (.shift middle middle')) ss ss' := by
  intro start
  let stretch : Stretch := ⟨tokens, semicolon, further, ending, known, hsemicolon⟩
  have hstart : stretch.Start start := ⟨hsimple, rfl, rfl, rfl⟩
  obtain ⟨s?, ⟨rest, ending', middle, after⟩, hread, hbehind, hok, herror⟩ :=
    declaration?_simple hstart hending hfuel
  obtain rfl : further = rest := hbehind.rest.symm
  obtain rfl : ending = ending' := hbehind.ending.symm
  obtain ⟨new, rfl, hnew⟩ := hbehind.reports
  refine ⟨s?, middle, new, hread, hok, fun halt after h => ?_, hnew, ?_⟩
  · obtain ⟨hnone, hsize⟩ := herror halt after h
    refine ⟨hnone, ?_⟩
    rintro rfl
    simp at hsize
  · intro tokens' semicolon' hsimple' hsemicolon' hfuel' start'
    let stretch' : Stretch := ⟨tokens', semicolon', further, ending, known, hsemicolon'⟩
    have hstart' : stretch'.Start start' := ⟨hsimple', rfl, rfl, rfl⟩
    obtain ⟨s?', ⟨rest', ending', middle', after'⟩, hread', hbehind', -, -⟩ :=
      declaration?_simple hstart' hending hfuel'
    obtain rfl : further = rest' := hbehind'.rest.symm
    obtain rfl : ending = ending' := hbehind'.ending.symm
    obtain ⟨new', rfl, -⟩ := hbehind'.reports
    refine ⟨s?', middle', new', hread', fun loop hloop => ?_⟩
    obtain ⟨word, hword, hbrace⟩ := hsimple.head hsemicolon further
    obtain ⟨word', hword', hbrace'⟩ := hsimple'.head hsemicolon' further
    have hlength : 32 * further.length + 14 ≤ fuel + 1 := by
      simp only [List.length_append, List.length_cons] at hfuel
      omega
    obtain ⟨ss, ss', rest, last, last', later, hss, hss', hmatches⟩ :=
      hloop.independent hending hlength middle middle' (known ++ new) (known ++ new')
    exact ⟨ss, ss', rest, last, last', later, hloop.step hword hbrace hread hss,
      hloop.step hword' hbrace' hread' hss', hmatches⟩

/-- Reading fails at the parenthesis of `print ) ;`, and the `break ;` behind it is
read as it is behind `print nil ;`. -/
theorem misplaced_parenthesis_contained :
    let word (symbol : Symbol) : Token := ⟨.symbol symbol, "", 1⟩
    let further := [word .breakWord, word .semicolon]
    let start (inner : Symbol) : State :=
      ⟨[word .printWord, word inner] ++ word .semicolon :: further, word .endOfFile, 0, #[]⟩
    ∃ stopped, declaration 172 (start .rightParen) = .error .syntaxError stopped ∧
      ∃ middle new, new ≠ #[] ∧
        declaration? 173 (start .rightParen) =
          .ok none ⟨further, word .endOfFile, middle, #[] ++ new⟩ ∧
        ∃ (middle' : Nat) (s?' : Option Stmt) (ss ss' : List Stmt) (state state' : State),
          program 174 (start .rightParen) = .ok ss state ∧
          program 174 (start .nilWord) = .ok (s?'.toList ++ ss') state' ∧
          List.Forall₂ (Stmt.Matches (.shift middle middle')) ss ss' := by
  intro word further start
  obtain ⟨stopped, hstopped⟩ :
      ∃ stopped, declaration 172 (start .rightParen) = .error .syntaxError stopped := ⟨_, rfl⟩
  obtain ⟨s?, middle, new, hread, -, herror, -, hother⟩ :=
    simple_statement_contained (show Simple [word .printWord, word .rightParen] by decide)
      (show (word .semicolon).is .semicolon by decide)
      (show (word .endOfFile).is .endOfFile by decide) further 0 #[]
      (show 32 * ([word .printWord, word .rightParen] ++ word .semicolon :: further).length + 12
        ≤ 172 by decide)
  obtain ⟨rfl, hnew⟩ := herror _ _ hstopped
  obtain ⟨s?', middle', new', -, hloops⟩ :=
    hother [word .printWord, word .nilWord] (word .semicolon) (by decide) (by decide) (by decide)
  obtain ⟨ss, ss', rest, last, last', later, hss, hss', hmatches⟩ := hloops _ .program
  exact ⟨stopped, hstopped, middle, new, hnew, hread, middle', s?', ss, ss', _, _, hss, hss',
    hmatches⟩

end Lox.Parser
