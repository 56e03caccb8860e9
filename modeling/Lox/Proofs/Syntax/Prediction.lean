import Lox.Proofs.Sequencing
import Lox.Proofs.Syntax.Grammar
import Lox.Proofs.Syntax.Phrase

/-!
# Prediction

What it means that a part of the parser reads a language, in front of a language
of continuations, with one token of lookahead.  Where it succeeds, it has passed
a word of its language, and the token it stands at can go on only as the
continuations do.  Where it is interrupted, the tokens passed can still be gone
on with, and no longer with the token at which the interruption is reported.
Both are kept when parts are put together, so that every rule is settled by the
rules it uses.
-/

namespace Lox

/-- The token at which an error has interrupted reading. -/
def Diagnostic.interruption? : Diagnostic → Option Token
  | .syntactic token (.expected _) => some token
  | _ => none

namespace Parser

/-- The tokens at which reading has been interrupted. -/
def State.interruptions (state : State) : List Token :=
  state.diagnostics.toList.filterMap Diagnostic.interruption?

/-- The end of the file comes last and not before. -/
structure State.Ended (state : State) : Prop where
  ending : state.ending.is .endOfFile
  plain : ∀ token ∈ state.rest, token.is .endOfFile = false

/-- How reading a word of `L` in front of one of `K` ends. -/
inductive Outcome {α : Type} (L K : Language Token) (state : State) :
    EStateM.Result Halt State α → Prop where
  | outOfFuel {after : State} : Outcome L K state (.error .outOfFuel after)
  | read {result : α} {after : State} {before : List Token} (hclean : after.interruptions = [])
      (hending : after.ending = state.ending) (hrest : state.rest = before ++ after.rest)
      (hword : before ∈ L)
      (hexact : ∀ further, before ++ after.next :: further ∈ L * K →
        after.next :: further ∈ K) : Outcome L K state (.ok result after)
  | interrupted {ended : EStateM.Result Halt State α} {bad : Token} {before behind : List Token}
      (hfirst : (finalState ended).interruptions.head? = some bad)
      (hinput : state.rest ++ [state.ending] = before ++ bad :: behind)
      (hviable : ∃ further, before ++ further ∈ L * K)
      (himpossible : ∀ further, before ++ bad :: further ∉ L * K) : Outcome L K state ended

/-- The part reads `L` in front of `K` where a token with the property `ahead` is
next, and takes back no report. -/
structure Predicts {α : Type} (ahead : Token → Prop) (L K : Language Token) (part : Parser α) :
    Prop where
  grows (state : State) :
    state.diagnostics.toList <+: (finalState (part state)).diagnostics.toList
  outcome (state : State) (hended : state.Ended) (hahead : ahead state.next)
    (hclean : state.interruptions = []) : Outcome L K state (part state)

/-- Nothing is asked of the next token. -/
abbrev Always (_ : Token) : Prop :=
  True

/-! ## States -/

namespace State

variable {state after : State} {before : List Token}

/-- The next token begins what is to come. -/
theorem exists_input (state : State) :
    ∃ behind, state.rest ++ [state.ending] = state.next :: behind := by
  rw [State.next]
  cases state.rest with
  | nil => exact ⟨[], rfl⟩
  | cons token rest => exact ⟨rest ++ [state.ending], rfl⟩

/-- Before the tokens that are passed and the one behind them comes the first of these. -/
theorem exists_passed (hending : after.ending = state.ending)
    (hrest : state.rest = before ++ after.rest) (further : List Token) :
    ∃ behind, before ++ after.next :: further = state.next :: behind := by
  cases before with
  | nil =>
      have hnext : after.next = state.next := by
        rw [State.next, State.next, hending, hrest, List.nil_append]
      exact ⟨further, by rw [hnext, List.nil_append]⟩
  | cons token before =>
      have hnext : state.next = token := by
        rw [State.next, hrest]
        rfl
      exact ⟨before ++ after.next :: further, by rw [hnext, List.cons_append]⟩

theorem exists_interrupted {bad : Token} {behind : List Token}
    (hinput : state.rest ++ [state.ending] = before ++ bad :: behind) (further : List Token) :
    ∃ behind, before ++ bad :: further = state.next :: behind := by
  obtain ⟨others, hothers⟩ := state.exists_input
  rw [hinput] at hothers
  cases before with
  | nil =>
      obtain ⟨rfl, -⟩ := List.cons.inj hothers
      exact ⟨further, rfl⟩
  | cons token before =>
      obtain ⟨rfl, -⟩ := List.cons.inj hothers
      exact ⟨before ++ bad :: further, rfl⟩

theorem Ended.of_rest (h : state.Ended) (hending : after.ending = state.ending)
    (hrest : state.rest = before ++ after.rest) : after.Ended :=
  ⟨hending ▸ h.ending, fun token htoken =>
    h.plain token (hrest ▸ List.mem_append_right _ htoken)⟩

/-- The end of the file is next exactly where there are no other tokens. -/
theorem Ended.next_is (h : state.Ended) : state.next.is .endOfFile = state.rest.isEmpty := by
  rw [State.next]
  cases hrest : state.rest with
  | nil => exact h.ending
  | cons token rest => exact h.plain token (by simp [hrest])

/-- A token that is not the end of the file is the first of the rest. -/
theorem Ended.rest_eq (h : state.Ended) (hplain : state.next.is .endOfFile = false) :
    state.rest = state.next :: state.rest.tail := by
  rw [h.next_is] at hplain
  cases hrest : state.rest with
  | nil => simp [hrest] at hplain
  | cons token rest => simp [State.next, hrest]

/-- A report that interrupts nothing. -/
theorem interruptions_report {error : SyntaxError} {token : Token}
    (herror : ∀ what, error ≠ .expected what) :
    (state.report token error).interruptions = state.interruptions := by
  have hnone : Diagnostic.interruption? (.syntactic token error) = none := by
    cases error with
    | expected what => exact absurd rfl (herror what)
    | invalidAssignmentTarget | tooManyParameters | tooManyArguments => rfl
  simp [interruptions, State.report, hnone]

theorem interruptions_fail (hclean : state.interruptions = []) (token : Token)
    (what : Expectation) : (state.report token (.expected what)).interruptions = [token] := by
  rw [interruptions] at hclean ⊢
  simp [State.report, hclean, Diagnostic.interruption?]

/-- The first interruption stays the first. -/
theorem head?_interruptions {bad : Token} (h : state.interruptions.head? = some bad)
    (hgrows : state.diagnostics.toList <+: after.diagnostics.toList) :
    after.interruptions.head? = some bad := by
  obtain ⟨new, hnew⟩ := hgrows
  rw [interruptions] at h ⊢
  rw [← hnew, List.filterMap_append, List.head?_append, h]
  rfl

end State

/-! ## Outcomes in a wider language -/

namespace Outcome

variable {α β : Type} {L M K : Language Token} {state : State}
variable {ended : EStateM.Result Halt State α}

/-- What is read of a part of a language that the next token decides for. -/
theorem widen (h : Outcome M K state ended) (hle : ∀ tokens ∈ M, tokens ∈ L)
    (hnext : ∀ further, state.next :: further ∈ L * K → state.next :: further ∈ M * K) :
    Outcome L K state ended := by
  cases h with
  | outOfFuel => exact .outOfFuel
  | read hclean hending hrest hword hexact =>
      refine .read hclean hending hrest (hle _ hword) fun further hfurther => hexact further ?_
      obtain ⟨behind, hbehind⟩ := State.exists_passed hending hrest further
      rw [hbehind] at hfurther ⊢
      exact hnext behind hfurther
  | interrupted hfirst hinput hviable himpossible =>
      refine .interrupted hfirst hinput ?_ fun further hfurther => himpossible further ?_
      · obtain ⟨further, hfurther⟩ := hviable
        exact ⟨further, mul_le_mul_left hle K hfurther⟩
      · obtain ⟨behind, hbehind⟩ := State.exists_interrupted hinput further
        rw [hbehind] at hfurther ⊢
        exact hnext behind hfurther

/-- Only the tokens to come count. -/
theorem of_tokens {state' : State} (h : Outcome L K state ended)
    (hrest : state'.rest = state.rest) (hending : state'.ending = state.ending) :
    Outcome L K state' ended := by
  cases h with
  | outOfFuel => exact .outOfFuel
  | read hclean hending' hrest' hword hexact =>
      exact .read hclean (hending'.trans hending.symm) (hrest.trans hrest') hword hexact
  | interrupted hfirst hinput hviable himpossible =>
      exact .interrupted hfirst (by rw [hrest, hending, hinput]) hviable himpossible

/-- What is read behind a token that has been passed. -/
theorem behind {token : Token} {rest : List Token}
    (h : Outcome M K { state with rest := rest } ended) (hrest : state.rest = token :: rest)
    (hmem : ∀ tokens ∈ M, token :: tokens ∈ L)
    (hstep : ∀ further, token :: further ∈ L * K → further ∈ M * K) :
    Outcome L K state ended := by
  cases h with
  | outOfFuel => exact .outOfFuel
  | @read _ _ before hclean hending hrest' hword hexact =>
      refine .read hclean hending ?_ (hmem before hword) ?_
      · rw [hrest, List.cons_append]
        exact congrArg _ hrest'
      · exact fun further hfurther => hexact further (hstep _ hfurther)
  | @interrupted _ bad before behind hfirst hinput hviable himpossible =>
      have hinput' : state.rest ++ [state.ending] = (token :: before) ++ bad :: behind := by
        rw [hrest, List.cons_append, List.cons_append]
        exact congrArg _ hinput
      refine .interrupted hfirst hinput' ?_ ?_
      · obtain ⟨further, hfurther⟩ := hviable
        obtain ⟨tokens, htokens, others, hothers, happend⟩ := Language.mem_mul.1 hfurther
        refine ⟨further, Language.mem_mul.2 ⟨token :: tokens, hmem _ htokens, others, hothers, ?_⟩⟩
        rw [List.cons_append, List.cons_append, happend]
      · exact fun further hfurther => himpossible further (hstep _ hfurther)

end Outcome

/-! ## Putting parts together -/

namespace Predicts

variable {α β : Type} {ahead ahead' : Token → Prop} {L N M K : Language Token}
variable {part : Parser α} {further : α → Parser β}

theorem ahead_mono (h : Predicts ahead L K part) (himp : ∀ token, ahead' token → ahead token) :
    Predicts ahead' L K part :=
  ⟨h.grows, fun state hended hahead => h.outcome state hended (himp _ hahead)⟩

theorem widen (h : Predicts ahead M K part) (hle : ∀ tokens ∈ M, tokens ∈ L)
    (hnext : ∀ token tokens, ahead token → token :: tokens ∈ L * K → token :: tokens ∈ M * K) :
    Predicts ahead L K part :=
  ⟨h.grows, fun state hended hahead hclean =>
    (h.outcome state hended hahead hclean).widen hle fun tokens => hnext _ tokens hahead⟩

theorem halt : Predicts ahead L K (throw .outOfFuel : Parser α) :=
  ⟨fun _ => List.prefix_rfl, fun _ _ _ _ => .outOfFuel⟩

theorem pure {result : α} (hL : [] ∈ L)
    (hnext : ∀ token tokens, ahead token → token :: tokens ∈ L * K → token :: tokens ∈ K) :
    Predicts ahead L K (pure result) :=
  ⟨fun _ => List.prefix_rfl, fun _ _ hahead hclean =>
    .read hclean rfl rfl hL fun tokens => hnext _ tokens hahead⟩

theorem fail (what : Expectation) (hviable : (L * K).Nonempty)
    (hnext : ∀ token tokens, ahead token → token :: tokens ∉ L * K) :
    Predicts ahead L K (fail what : Parser α) := by
  refine ⟨fun _ => by simp [Parser.fail, finalState, State.report],
    fun state _ hahead hclean => ?_⟩
  obtain ⟨behind, hbehind⟩ := state.exists_input
  rw [← List.nil_append (state.next :: behind)] at hbehind
  refine .interrupted ?_ hbehind hviable fun tokens => hnext _ tokens hahead
  exact congrArg List.head? (State.interruptions_fail hclean _ what)

/-- A sequence reads one language after the other. -/
theorem sequence (hpart : Predicts ahead L (N * K) part)
    (hfurther : ∀ result, Predicts Always N K (further result)) :
    Predicts ahead (L * N) K (part >>= further) := by
  refine ⟨fun state => ?_, fun state hended hahead hclean => ?_⟩
  · have hgrows := hpart.grows state
    cases hresult : part state with
    | ok result after =>
        rw [hresult] at hgrows
        rw [bind_of_ok hresult]
        exact hgrows.trans ((hfurther result).grows after)
    | error halt after =>
        rw [hresult] at hgrows
        rwa [bind_of_error hresult]
  · have hfirst := hpart.outcome state hended hahead hclean
    cases hresult : part state with
    | error halt after =>
        rw [hresult] at hfirst
        rw [bind_of_error hresult]
        cases hfirst with
        | outOfFuel => exact .outOfFuel
        | interrupted hhead hinput hviable himpossible =>
            rw [← mul_assoc] at hviable himpossible
            exact .interrupted hhead hinput hviable himpossible
    | ok result middle =>
        rw [hresult] at hfirst
        rw [bind_of_ok hresult]
        cases hfirst with
        | interrupted hhead hinput hviable himpossible =>
            rw [← mul_assoc] at hviable himpossible
            exact .interrupted (State.head?_interruptions hhead ((hfurther result).grows middle))
              hinput hviable himpossible
        | @read _ _ before hclean' hending hrest hword hexact =>
            have hmiddle := hended.of_rest hending hrest
            have hsecond := (hfurther result).outcome middle hmiddle trivial hclean'
            -- What has been passed first goes on as the second part does.
            have hstep : ∀ {tokens behind}, tokens = middle.next :: behind →
                before ++ tokens ∈ L * N * K → tokens ∈ N * K := by
              rintro _ behind rfl htokens
              rw [mul_assoc] at htokens
              exact hexact behind htokens
            generalize further result middle = ended at hsecond
            cases hsecond with
            | outOfFuel => exact .outOfFuel
            | @read _ after between hclean'' hending' hrest' hword' hexact' =>
                refine .read hclean'' (hending'.trans hending) ?_
                  (Language.append_mem_mul hword hword') fun tokens htokens => ?_
                · rw [hrest, hrest', List.append_assoc]
                · obtain ⟨behind, hbehind⟩ := State.exists_passed hending' hrest' tokens
                  rw [List.append_assoc] at htokens
                  exact hexact' tokens (hstep hbehind htokens)
            | @interrupted _ bad between behind hhead hinput hviable himpossible =>
                have hinput' : state.rest ++ [state.ending] =
                    (before ++ between) ++ bad :: behind := by
                  rw [hrest, ← hending, List.append_assoc, hinput, List.append_assoc]
                refine .interrupted hhead hinput' ?_ ?_
                · obtain ⟨tokens, htokens⟩ := hviable
                  refine ⟨tokens, ?_⟩
                  rw [mul_assoc, List.append_assoc]
                  exact Language.append_mem_mul hword htokens
                · intro tokens htokens
                  obtain ⟨others, hothers⟩ := State.exists_interrupted hinput tokens
                  rw [List.append_assoc] at htokens
                  exact himpossible tokens (hstep hothers htokens)

theorem seq {p q : Phrase} (hpart : Predicts ahead p.language (q.language * K) part)
    (hfurther : ∀ result, Predicts Always q.language K (further result)) :
    Predicts ahead (Phrase.seq p q).language K (part >>= further) := by
  rw [Phrase.language_seq]
  exact hpart.sequence hfurther

/-- The first part reads two phrases at once. -/
theorem seq_pair {p q r : Phrase}
    (hpart : Predicts ahead (Phrase.seq p q).language (r.language * K) part)
    (hfurther : ∀ result, Predicts Always r.language K (further result)) :
    Predicts ahead (Phrase.seq p (.seq q r)).language K (part >>= further) := by
  have hassoc : (Phrase.seq p (.seq q r)).language = (Phrase.seq (.seq p q) r).language := by
    simp only [Phrase.language_seq, mul_assoc]
  rw [hassoc]
  exact hpart.seq hfurther

/-- The part is followed by one that passes no token. -/
theorem idle (h : Predicts ahead L K part)
    (hfurther : ∀ result, Predicts Always 1 K (further result)) :
    Predicts ahead L K (part >>= further) := by
  have hpart : Predicts ahead L (1 * K) part := by rwa [one_mul]
  have hsequence := hpart.sequence hfurther
  rwa [mul_one] at hsequence

/-- Where nothing is left to read. -/
theorem finish {result : α} : Predicts ahead 1 K (Pure.pure result) :=
  .pure Language.nil_mem_one fun token tokens _ h => by rwa [one_mul] at h

theorem map (h : Predicts ahead L K part) {f : α → β} : Predicts ahead L K (f <$> part) := by
  rw [map_eq_pure_bind]
  exact h.idle fun _ => finish

/-! ## Looking -/

theorem peek {further : Token → Parser β}
    (h : ∀ token, Predicts (fun next => next = token ∧ ahead next) L K (further token)) :
    Predicts ahead L K (peek >>= further) :=
  ⟨fun state => (h state.next).grows state, fun state hended hahead hclean =>
    (h state.next).outcome state hended ⟨rfl, hahead⟩ hclean⟩

theorem nextIs {symbol : Symbol} (hsymbol : symbol ≠ .endOfFile) {further : Bool → Parser β}
    (hyes : Predicts (fun next => next.is symbol) L K (further true))
    (hno : Predicts (fun next => next.is symbol = false ∧ ahead next) L K (further false)) :
    Predicts ahead L K (nextIs symbol >>= further) := by
  have hlook : ∀ state, (Parser.nextIs symbol >>= further) state =
      further (state.rest.head?.any (·.is symbol)) state := fun _ => rfl
  refine ⟨fun state => ?_, fun state hended hahead hclean => ?_⟩
  · rw [hlook]
    cases state.rest.head?.any (·.is symbol) with
    | true => exact hyes.grows state
    | false => exact hno.grows state
  · have hnext : state.rest.head?.any (·.is symbol) = state.next.is symbol := by
      rw [State.next]
      cases state.rest with
      | nil =>
          have hending : state.ending.is symbol = false := by
            rw [Token.is, Grammar.kind_of_is hended.ending]
            exact beq_false_of_ne hsymbol.symm
          exact hending.symm
      | cons token rest => rfl
    rw [hlook, hnext]
    cases his : state.next.is symbol with
    | true => exact hyes.outcome state hended his hclean
    | false => exact hno.outcome state hended ⟨his, hahead⟩ hclean

theorem atEnd {further : Bool → Parser β}
    (hyes : Predicts (fun next => next.is .endOfFile ∧ ahead next) L K (further true))
    (hno : Predicts (fun next => next.is .endOfFile = false ∧ ahead next) L K (further false)) :
    Predicts ahead L K (atEnd >>= further) := by
  have hlook : ∀ state, (Parser.atEnd >>= further) state = further state.rest.isEmpty state :=
    fun _ => rfl
  refine ⟨fun state => ?_, fun state hended hahead hclean => ?_⟩
  · rw [hlook]
    cases state.rest.isEmpty with
    | true => exact hyes.grows state
    | false => exact hno.grows state
  · rw [hlook, ← hended.next_is]
    cases his : state.next.is .endOfFile with
    | true => exact hyes.outcome state hended ⟨his, hahead⟩ hclean
    | false => exact hno.outcome state hended ⟨his, hahead⟩ hclean

/-! ## What passes no token -/

theorem freshId {further : Nat → Parser β} (h : ∀ id, Predicts ahead L K (further id)) :
    Predicts ahead L K (freshId >>= further) := by
  refine ⟨fun state => (h state.nextId).grows { state with nextId := state.nextId + 1 },
    fun state hended hahead hclean => ?_⟩
  have hfurther := (h state.nextId).outcome { state with nextId := state.nextId + 1 }
    ⟨hended.ending, hended.plain⟩ hahead hclean
  exact hfurther.of_tokens rfl rfl

/-- A report that interrupts nothing. -/
theorem report {token : Token} {error : SyntaxError} (herror : ∀ what, error ≠ .expected what)
    {further : Unit → Parser β} (h : Predicts ahead L K (further ())) :
    Predicts ahead L K (report token error >>= further) := by
  refine ⟨fun state => ?_, fun state hended hahead hclean => ?_⟩
  · refine List.IsPrefix.trans ?_ (h.grows (state.report token error))
    simp [State.report]
  · have hreport : (state.report token error).interruptions = [] := by
      rw [State.interruptions_report herror, hclean]
    exact (h.outcome (state.report token error) ⟨hended.ending, hended.plain⟩ hahead
      hreport).of_tokens rfl rfl

theorem checkArity {count : Nat} {error : SyntaxError}
    (herror : ∀ what, error ≠ .expected what) {further : Unit → Parser β}
    (h : Predicts ahead L K (further ())) :
    Predicts ahead L K (checkArity count error >>= further) := by
  rw [Parser.checkArity]
  split
  · rw [bind_assoc]
    apply peek
    intro token
    exact report herror (h.ahead_mono fun _ hahead => hahead.2)
  · rwa [pure_bind]

/-- A part that is left out where it is interrupted. -/
theorem attempt (h : Predicts ahead L K part) : Predicts ahead L K (attempt part) := by
  have hkept : ∀ state : State, state.recover.diagnostics = state.diagnostics := by
    intro state
    rw [State.recover]
    split <;> rfl
  refine ⟨fun state => ?_, fun state hended hahead hclean => ?_⟩
  · have hgrows := h.grows state
    rw [Parser.attempt]
    cases hresult : part state with
    | ok result after =>
        rw [hresult] at hgrows
        exact hgrows
    | error halt after =>
        rw [hresult] at hgrows
        cases halt with
        | outOfFuel => exact hgrows
        | syntaxError =>
            rw [finalState, hkept]
            exact hgrows
  · have hpart := h.outcome state hended hahead hclean
    rw [Parser.attempt]
    generalize part state = ended at hpart
    cases hpart with
    | outOfFuel => exact .outOfFuel
    | read hclean' hending hrest hword hexact => exact .read hclean' hending hrest hword hexact
    | interrupted hfirst hinput hviable himpossible =>
        match ended with
        | .ok result after => exact .interrupted hfirst hinput hviable himpossible
        | .error .syntaxError after =>
          refine .interrupted ?_ hinput hviable himpossible
          rwa [State.interruptions, finalState, hkept]
        | .error .outOfFuel after => exact .outOfFuel

/-! ## Passing -/

/-- The next token is a word by itself. -/
theorem advance {terminals : List Terminal}
    (hfits : ∀ token, ahead token → terminals.any (·.fits token.kind))
    (hplain : .symbol .endOfFile ∉ terminals) :
    Predicts ahead (Phrase.token terminals).language K advance := by
  refine ⟨fun _ => List.prefix_rfl, fun state hended hahead hclean => ?_⟩
  have hnext := hfits _ hahead
  have hsome : state.rest = state.next :: state.rest.tail := by
    apply hended.rest_eq
    by_contra hend
    have hkind := Grammar.kind_of_is (by simpa using hend : state.next.is .endOfFile)
    rw [hkind, List.any_eq_true] at hnext
    obtain ⟨terminal, hmem, hterminal⟩ := hnext
    cases terminal with
    | symbol s =>
        obtain rfl : s = .endOfFile := by simpa [Terminal.fits] using hterminal
        exact hplain hmem
    | text | number => simp [Terminal.fits] at hterminal
  refine .read hclean rfl hsome (Phrase.Derives.token hnext) ?_
  intro further hfurther
  obtain ⟨tokens, htokens, others, hothers, happend⟩ := Language.mem_mul.1 hfurther
  cases htokens with
  | token _ =>
      obtain ⟨-, rfl⟩ := List.cons.inj happend
      exact hothers

/-- Going on behind a word that is next. -/
theorem word {symbol : Symbol} (hkind : ∀ token, ahead token → token.kind = .symbol symbol)
    (hsymbol : symbol ≠ .endOfFile) {p : Phrase} {further : Unit → Parser β}
    (h : Predicts Always p.language K (further ())) :
    Predicts ahead (Phrase.seq (.word symbol) p).language K (Parser.advance >>= further) := by
  rw [Phrase.language_seq]
  refine (advance (fun token hahead => ?_) ?_).sequence fun _ => h
  · rw [hkind token hahead]
    simp [Terminal.fits]
  · simpa using hsymbol.symm

/-- Going on by whether the next token is one of the symbols.  Where it is, what the
other branch could begin with that token must be there in the first branch. -/
theorem accept? {symbols : List Symbol} (hsymbols : .endOfFile ∉ symbols)
    (hL : L = (Phrase.words symbols).language * M + N)
    (hdecided : ∀ (token : Token) (tokens : List Token), token.isAny symbols →
      token :: tokens ∈ N * K → tokens ∈ M * K)
    {further : Option Token → Parser β}
    (hsome : ∀ token, Predicts Always M K (further (some token)))
    (hnone : Predicts (fun next => next.isAny symbols = false ∧ ahead next) N K
      (further none)) :
    Predicts ahead L K (accept? symbols >>= further) := by
  have hmem : ∀ token tokens, token :: tokens ∈ L * K ↔
      token.isAny symbols ∧ tokens ∈ M * K ∨ token :: tokens ∈ N * K := by
    intro token tokens
    rw [hL, add_mul, Language.mem_add, mul_assoc, Phrase.cons_mem_words_mul]
  have hyes : ∀ (token : Token) rest ending nextId diagnostics, token.isAny symbols →
      (Parser.accept? symbols >>= further) ⟨token :: rest, ending, nextId, diagnostics⟩ =
        further (some token) ⟨rest, ending, nextId, diagnostics⟩ := by
    intro token rest ending nextId diagnostics hany
    exact bind_of_ok (by simp [Parser.accept?, hany])
  have hno : ∀ state : State, (∀ token ∈ state.rest.head?, token.isAny symbols = false) →
      (Parser.accept? symbols >>= further) state = further none state := by
    rintro ⟨rest, ending, nextId, diagnostics⟩ hhead
    cases rest with
    | nil => rfl
    | cons token rest => exact bind_of_ok (by simp [Parser.accept?, hhead token rfl])
  refine ⟨fun state => ?_, fun state hended hahead hclean => ?_⟩
  · obtain ⟨rest, ending, nextId, diagnostics⟩ := state
    cases rest with
    | nil =>
        rw [hno _ (by simp)]
        exact hnone.grows _
    | cons token rest =>
        cases hany : token.isAny symbols with
        | true =>
            rw [hyes token rest ending nextId diagnostics hany]
            exact (hsome token).grows ⟨rest, ending, nextId, diagnostics⟩
        | false =>
            rw [hno _ (by simpa using hany)]
            exact hnone.grows _
  · cases hany : state.next.isAny symbols with
    | true =>
        have hplain : state.next.is .endOfFile = false := by
          by_contra hend
          exact Grammar.not_isAny_of_is (by simpa using hend) hsymbols hany
        obtain ⟨rest, ending, nextId, diagnostics⟩ := state
        cases rest with
        | nil => exact absurd hended.ending (by simpa [State.next] using hplain)
        | cons token rest =>
            have hrest : (⟨rest, ending, nextId, diagnostics⟩ : State).Ended :=
              hended.of_rest rfl (List.singleton_append (x := token)).symm
            rw [hyes token rest ending nextId diagnostics hany]
            apply Outcome.behind ((hsome token).outcome _ hrest trivial hclean) rfl
            · intro tokens htokens
              rw [hL, Language.mem_add, Phrase.cons_mem_words_mul]
              exact .inl ⟨hany, htokens⟩
            · intro tokens htokens
              rcases (hmem token tokens).1 htokens with ⟨-, h⟩ | h
              · exact h
              · exact hdecided token tokens hany h
    | false =>
        have hhead : ∀ token ∈ state.rest.head?, token.isAny symbols = false := by
          intro token htoken
          rw [← hany, State.next, List.headD_eq_head?_getD, Option.mem_def.1 htoken]
          rfl
        rw [hno state hhead]
        refine (hnone.outcome state hended ⟨hany, hahead⟩ hclean).widen ?_ ?_
        · intro tokens h
          rw [hL]
          exact .inr h
        · intro tokens htokens
          rcases (hmem _ tokens).1 htokens with ⟨h, -⟩ | h
          · rw [hany] at h
            cases h
          · exact h

/-- The next token has to be the symbol. -/
theorem expect {symbol : Symbol} (hsymbol : symbol ≠ .endOfFile) (hK : K.Nonempty)
    (what : Expectation) :
    Predicts ahead (Phrase.word symbol).language K (expect symbol what) := by
  have hmem : ∀ token tokens, token :: tokens ∈ (Phrase.word symbol).language * K ↔
      token.isAny [symbol] ∧ tokens ∈ K :=
    fun _ _ => Phrase.cons_mem_words_mul [symbol]
  apply accept? (M := 1) (N := (Phrase.word symbol).language) (by simpa using hsymbol.symm)
  · rw [mul_one]
    exact (add_idem _).symm
  · intro token tokens _ h
    rw [one_mul]
    exact ((hmem token tokens).1 h).2
  · intro token
    exact finish
  · apply fail what (Phrase.nonempty_mul rfl hK)
    rintro token tokens ⟨hany, -⟩ h
    rw [((hmem token tokens).1 h).1] at hany
    cases hany

/-- Going on if the next token is one of the symbols, and stopping otherwise. -/
theorem accept_opt {symbols : List Symbol} (hsymbols : .endOfFile ∉ symbols)
    (hL : L = (Phrase.words symbols).language * M + 1)
    (hdecided : ∀ (token : Token) (tokens : List Token), token.isAny symbols →
      token :: tokens ∈ K → tokens ∈ M * K)
    {further : Option Token → Parser β}
    (hsome : ∀ token, Predicts Always M K (further (some token)))
    (hnone : Predicts Always 1 K (further none)) :
    Predicts ahead L K (Parser.accept? symbols >>= further) := by
  apply accept? hsymbols hL _ hsome (hnone.ahead_mono fun _ _ => trivial)
  intro token tokens hany h
  rw [one_mul] at h
  exact hdecided token tokens hany h

/-- The only alternative that can begin with the next token. -/
theorem narrow {p : Phrase} {kind : Kind} (hkind : ∀ token, ahead token → token.kind = kind)
    (h : Predicts ahead (p.narrow kind).language K part) : Predicts ahead p.language K part := by
  apply h.widen fun _ => Phrase.mem_of_mem_narrow
  intro token tokens hahead
  rw [← hkind token hahead]
  exact Phrase.mem_narrow

theorem of_rule {nonterminal : Nonterminal}
    (h : Predicts ahead nonterminal.body.language K part) :
    Predicts ahead (Phrase.rule nonterminal).language K part := by
  rwa [Phrase.language_rule]

/-- A part that may be missing is there unless its end comes first. -/
theorem optional {p : Phrase} {closing : Symbol} (hstarts : p.starts (.symbol closing) = false)
    (hclosing : closing ≠ .endOfFile)
    (hK : ∀ (token : Token) (tokens : List Token), token :: tokens ∈ K → token.is closing)
    {result : α} (h : Predicts Always p.language K part) :
    Predicts ahead (Phrase.opt p).language K
      (do if ← Parser.nextIs closing then return result else part) := by
  have hmem : ∀ token tokens, token :: tokens ∈ (Phrase.opt p).language * K →
      token :: tokens ∈ p.language * K ∨ token :: tokens ∈ K := by
    intro token tokens h
    rwa [Phrase.language_opt, add_mul, one_mul, Language.mem_add] at h
  apply nextIs hclosing
  · apply pure Phrase.Derives.absent
    intro token tokens hnext h
    rcases hmem token tokens h with h | h
    · apply Phrase.mem_of_not_starts _ h
      rwa [Grammar.kind_of_is hnext]
    · exact h
  · apply (h.ahead_mono fun _ _ => trivial).widen fun tokens => .present
    rintro token tokens ⟨hplain, -⟩ h
    apply (hmem token tokens h).resolve_right
    intro hmem
    rw [hK token tokens hmem] at hplain
    cases hplain

/-- Repetition ends where the next token begins no further part. -/
theorem many_done {p : Phrase} {result : α}
    (hstarts : ∀ token, ahead token → p.starts token.kind = false) :
    Predicts ahead (Phrase.many p).language K (Pure.pure result) :=
  pure Phrase.Derives.done fun token _ hahead =>
    Phrase.mem_of_not_starts (p := .many p) (hstarts token hahead)

/-- Repetition goes on where the next token can belong to nothing else. -/
theorem many_more {p : Phrase} (hK : ∀ token tokens, ahead token → token :: tokens ∉ K)
    (h : Predicts Always (Phrase.seq p (.many p)).language K part) :
    Predicts ahead (Phrase.many p).language K part := by
  have hlanguage : (Phrase.many p).language = (Phrase.seq p (.many p)).language + 1 := by
    rw [Phrase.language_many, Phrase.language_seq]
  apply (h.ahead_mono fun _ _ => trivial).widen
  · intro tokens h
    rw [hlanguage]
    exact .inl h
  · intro token tokens hahead hmem
    rw [hlanguage, add_mul, one_mul, Language.mem_add] at hmem
    exact hmem.resolve_right (hK token tokens hahead)

end Predicts

end Parser

end Lox
