import Lox.Proofs.Sequencing
import Lox.Proofs.Syntax.Grammar

/-!
# Reading inside the input

What reading a part of a program does to the tokens to come: it passes over
some of them, never runs out of fuel, reports an error whenever it fails, and
what it reads without a report is derived by the tokens it has passed.  The
lemmas follow the ways in which parsers are put together, so that the reading
of each part of the grammar is settled by the tokens it asks for.
-/

namespace Lox.Parser

/-- The state `after` stands at or behind the place where `tokens` were to come
and `reports` errors were known.  If the part `moves`, it stands behind it. -/
structure Passed (moves : Bool) (tokens : List Token) (ending : Token) (reports : Nat)
    (after : State) : Prop where
  ending : after.ending = ending
  suffix : after.rest <:+ tokens
  moved : moves → after.rest.length < tokens.length
  reported : reports ≤ after.diagnostics.size

/-- What a part yields where `tokens` are to come and `next` is the next number.
Where it succeeds without a report, the result satisfies `derives` together with
the tokens still to come and the next number. -/
def Reads {α : Type} (moves : Bool) (tokens : List Token) (next : Nat) (part : Parser α)
    (derives : List Token → Nat → α → Prop) : Prop :=
  ∀ (ending : Token) (diagnostics : Array Diagnostic), ending.is .endOfFile →
    match part ⟨tokens, ending, next, diagnostics⟩ with
    | .ok result after =>
      Passed moves tokens ending diagnostics.size after ∧
        (after.diagnostics.size = diagnostics.size → derives after.rest after.nextId result)
    | .error .syntaxError after => Passed false tokens ending (diagnostics.size + 1) after
    | .error .outOfFuel _ => False

/-- The tokens that have been passed derive the result. -/
def Derived {α : Type} (derives : Nat → List Token → Nat → α → Prop) (tokens : List Token)
    (next : Nat) (rest : List Token) (after : Nat) (result : α) : Prop :=
  ∃ passed, tokens = passed ++ rest ∧ derives next passed after result

theorem Passed.trans {first second moves : Bool} {tokens : List Token} {ending : Token}
    {reports : Nat} {middle after : State} (h : Passed first tokens ending reports middle)
    (hmoves : moves → first ∨ second) (more : Nat)
    (h' : Passed second middle.rest middle.ending (middle.diagnostics.size + more) after) :
    Passed moves tokens ending (reports + more) after where
  ending := h'.ending.trans h.ending
  suffix := h'.suffix.trans h.suffix
  moved hmove := by
    have hle := h.suffix.length_le
    have hle' := h'.suffix.length_le
    rcases hmoves hmove with hfirst | hsecond
    · have := h.moved hfirst
      omega
    · have := h'.moved hsecond
      omega
  reported := by
    have := h.reported
    have := h'.reported
    omega

namespace Reads

variable {α β : Type} {moves first second : Bool} {tokens rest : List Token} {token : Token}
variable {next : Nat} {part : Parser α} {derives : List Token → Nat → α → Prop}
variable {further : α → Parser β} {derives' : List Token → Nat → β → Prop}

theorem pure {result : α} (h : derives tokens next result) :
    Reads false tokens next (pure result) derives := by
  intro ending diagnostics _
  exact ⟨⟨rfl, List.suffix_rfl, by simp, le_rfl⟩, fun _ => h⟩

theorem fail (what : Expectation) : Reads moves tokens next (fail what) derives := by
  intro ending diagnostics _
  refine ⟨rfl, List.suffix_rfl, by simp, ?_⟩
  simp [State.report]

/-- Nothing is read after a failure. -/
theorem fail_sequence (what : Expectation) {further : α → Parser β} :
    Reads moves tokens next (Parser.fail what >>= further) derives' :=
  @fail β moves tokens next derives' what

theorem weaken (h : Reads true tokens next part derives) :
    Reads false tokens next part derives := by
  intro ending diagnostics hending
  have hpart := h ending diagnostics hending
  split at hpart
  · rename_i result after hresult
    exact ⟨⟨hpart.1.ending, hpart.1.suffix, by simp, hpart.1.reported⟩, hpart.2⟩
  · exact hpart
  · exact hpart

theorem mono {derives' : List Token → Nat → α → Prop} (h : Reads moves tokens next part derives)
    (himp : ∀ rest after result, derives rest after result → derives' rest after result) :
    Reads moves tokens next part derives' := by
  intro ending diagnostics hending
  have hpart := h ending diagnostics hending
  split at hpart
  · exact ⟨hpart.1, fun hsize => himp _ _ _ (hpart.2 hsize)⟩
  · exact hpart
  · exact hpart

theorem map {f : α → β} (h : Reads moves tokens next part derives)
    (himp : ∀ rest after result, derives rest after result → derives' rest after (f result)) :
    Reads moves tokens next (f <$> part) derives' := by
  intro ending diagnostics hending
  have hpart := h ending diagnostics hending
  split at hpart
  · rename_i result after hresult
    rw [map_of_ok hresult]
    exact ⟨hpart.1, fun hsize => himp _ _ _ (hpart.2 hsize)⟩
  · rename_i after hresult
    rw [map_of_error hresult]
    exact hpart
  · exact hpart.elim

/-- A sequence moves if one of its parts does.  Where the whole reports nothing,
neither part does, so the first has read what it should. -/
theorem sequence (hpart : Reads first tokens next part derives)
    (hmoves : moves → first ∨ second)
    (hrest : ∀ rest middle result, rest.length ≤ tokens.length →
      (first → rest.length < tokens.length) →
      Reads second rest middle (further result) fun last after value =>
        derives rest middle result → derives' last after value) :
    Reads moves tokens next (part >>= further) derives' := by
  intro ending diagnostics hending
  have hfirst := hpart ending diagnostics hending
  split at hfirst
  · rename_i result after hresult
    obtain ⟨hpassed, hderives⟩ := hfirst
    obtain ⟨rest, ending', middle, reported⟩ := after
    obtain rfl : ending' = ending := hpassed.ending
    have hsecond := hrest rest middle result hpassed.suffix.length_le hpassed.moved ending'
      reported hending
    rw [bind_of_ok hresult]
    split at hsecond
    · refine ⟨hpassed.trans hmoves 0 hsecond.1, fun hsize => ?_⟩
      have hle := hpassed.reported
      have hle' := hsecond.1.reported
      dsimp only at hle
      exact hsecond.2 (by omega) (hderives (by dsimp only; omega))
    · exact hpassed.trans (fun hmove => absurd hmove (by simp)) 1 hsecond
    · exact hsecond
  · rename_i after hresult
    rw [bind_of_error hresult]
    exact hfirst
  · exact hfirst.elim

/-- After a part that moves, the rest need not. -/
theorem bind (hpart : Reads true tokens next part derives)
    (hrest : ∀ rest middle result, rest.length < tokens.length →
      Reads false rest middle (further result) fun last after value =>
        derives rest middle result → derives' last after value) :
    Reads moves tokens next (part >>= further) derives' :=
  hpart.sequence (fun _ => .inl rfl) fun rest middle result _ hmoved =>
    hrest rest middle result (hmoved rfl)

theorem bind_still (hpart : Reads false tokens next part derives)
    (hrest : ∀ rest middle result, rest.length ≤ tokens.length →
      Reads moves rest middle (further result) fun last after value =>
        derives rest middle result → derives' last after value) :
    Reads moves tokens next (part >>= further) derives' :=
  hpart.sequence .inr fun rest middle result hle _ => hrest rest middle result hle

/-- Going on where the first part has left the state unchanged. -/
theorem of_eq {whole other : Parser β}
    (heq : ∀ ending diagnostics, ending.is .endOfFile →
      whole ⟨tokens, ending, next, diagnostics⟩ = other ⟨tokens, ending, next, diagnostics⟩)
    (h : Reads moves tokens next other derives') : Reads moves tokens next whole derives' := by
  intro ending diagnostics hending
  rw [heq ending diagnostics hending]
  exact h ending diagnostics hending

theorem freshId {further : Nat → Parser β}
    (h : Reads moves tokens (next + 1) (further next) derives') :
    Reads moves tokens next (freshId >>= further) derives' :=
  fun ending diagnostics hending => h ending diagnostics hending

/-- Going on after the next token. -/
theorem behind {whole other : Parser β}
    (heq : ∀ ending diagnostics, whole ⟨token :: rest, ending, next, diagnostics⟩ =
      other ⟨rest, ending, next, diagnostics⟩)
    (h : Reads false rest next other derives') :
    Reads moves (token :: rest) next whole derives' := by
  intro ending diagnostics hending
  have hother := h ending diagnostics hending
  rw [heq ending diagnostics]
  split at hother
  · obtain ⟨hpassed, hderives⟩ := hother
    refine ⟨⟨hpassed.ending, hpassed.suffix.trans (List.suffix_cons _ _), fun _ => ?_,
      hpassed.reported⟩, hderives⟩
    exact Nat.lt_succ_of_le hpassed.suffix.length_le
  · exact ⟨hother.ending, hother.suffix.trans (List.suffix_cons _ _), by simp, hother.reported⟩
  · exact hother

theorem accept? {symbols : List Symbol} {further : Option Token → Parser β}
    (hsome : ∀ token rest, tokens = token :: rest → token.isAny symbols →
      Reads false rest next (further (some token)) derives')
    (hnone : (∀ token ∈ tokens.head?, ¬ token.isAny symbols) →
      Reads moves tokens next (further none) derives') :
    Reads moves tokens next (accept? symbols >>= further) derives' := by
  cases tokens with
  | nil => exact of_eq (fun _ _ _ => rfl) (hnone (by simp))
  | cons token rest =>
      by_cases hany : token.isAny symbols
      · refine behind (fun ending diagnostics => ?_) (hsome token rest rfl hany)
        exact bind_of_ok (by simp [Parser.accept?, hany])
      · refine of_eq (fun ending diagnostics _ => ?_) (hnone (by simpa using hany))
        exact bind_of_ok (by simp [Parser.accept?, hany])

theorem expect {symbol : Symbol} {what : Expectation} {further : Token → Parser β}
    (h : ∀ token rest, tokens = token :: rest → token.is symbol →
      Reads false rest next (further token) derives') :
    Reads moves tokens next (expect symbol what >>= further) derives' := by
  rw [Parser.expect, bind_assoc]
  apply accept?
  · intro token rest htokens hany
    rw [pure_bind]
    exact h token rest htokens (by simpa [Token.isAny] using hany)
  · intro _
    exact fail_sequence what

theorem nextIs {symbol : Symbol} {further : Bool → Parser β}
    (hyes : ∀ token rest, tokens = token :: rest → token.is symbol →
      Reads moves tokens next (further true) derives')
    (hno : Reads moves tokens next (further false) derives') :
    Reads moves tokens next (nextIs symbol >>= further) derives' := by
  cases tokens with
  | nil => exact of_eq (fun _ _ _ => rfl) hno
  | cons token rest =>
      have hnext : ∀ ending diagnostics, (Parser.nextIs symbol >>= further)
          ⟨token :: rest, ending, next, diagnostics⟩ =
          further (token.is symbol) ⟨token :: rest, ending, next, diagnostics⟩ :=
        fun _ _ => rfl
      cases his : token.is symbol with
      | true => exact of_eq (fun _ _ _ => by rw [hnext, his]) (hyes token rest rfl his)
      | false => exact of_eq (fun _ _ _ => by rw [hnext, his]) hno

theorem atEnd {further : Bool → Parser β}
    (hyes : tokens = [] → Reads moves [] next (further true) derives')
    (hno : ∀ token rest, tokens = token :: rest →
      Reads moves tokens next (further false) derives') :
    Reads moves tokens next (atEnd >>= further) derives' := by
  cases tokens with
  | nil => exact of_eq (fun _ _ _ => rfl) (hyes rfl)
  | cons token rest => exact of_eq (fun _ _ _ => rfl) (hno token rest rfl)

/-- The token that `peek` gives: the next one, or the end of the file. -/
def Upcoming (tokens : List Token) (token : Token) : Prop :=
  tokens.head? = some token ∨ tokens = [] ∧ token.is .endOfFile

theorem peek {further : Token → Parser β}
    (h : ∀ token, Upcoming tokens token → Reads moves tokens next (further token) derives') :
    Reads moves tokens next (peek >>= further) derives' := by
  intro ending diagnostics hending
  cases tokens with
  | nil => exact h ending (.inr ⟨rfl, hending⟩) ending diagnostics hending
  | cons token rest => exact h token (.inl rfl) ending diagnostics hending

theorem Upcoming.eq_cons (h : Upcoming tokens token) {kind : Kind} (hkind : token.kind = kind)
    (hne : kind ≠ .symbol .endOfFile) : ∃ rest, tokens = token :: rest := by
  rcases h with h | ⟨-, h⟩
  · exact List.head?_eq_some_iff.1 h
  · exact absurd (hkind ▸ Grammar.kind_of_is h) hne

/-- Passing over a token of a kind that is not the end of the file. -/
theorem advance {further : Unit → Parser β} (hupcoming : Upcoming tokens token) {kind : Kind}
    (hkind : token.kind = kind) (hne : kind ≠ .symbol .endOfFile)
    (h : ∀ rest, tokens = token :: rest → Reads false rest next (further ()) derives') :
    Reads moves tokens next (advance >>= further) derives' := by
  obtain ⟨rest, rfl⟩ := hupcoming.eq_cons hkind hne
  exact behind (fun _ _ => rfl) (h rest rfl)

/-- A report leaves nothing to be derived. -/
theorem report {error : SyntaxError} {further : Unit → Parser β} (symbol : Token)
    (h : Reads moves tokens next (further ()) fun _ _ _ => True) :
    Reads moves tokens next (report symbol error >>= further) derives' := by
  intro ending diagnostics hending
  have hrest := h ending (diagnostics.push (.syntactic symbol error)) hending
  have hrun : (Parser.report symbol error >>= further) ⟨tokens, ending, next, diagnostics⟩ =
      further () ⟨tokens, ending, next, diagnostics.push (.syntactic symbol error)⟩ := rfl
  rw [hrun]
  split at hrest
  · obtain ⟨hpassed, -⟩ := hrest
    have hreported := hpassed.reported
    rw [Array.size_push] at hreported
    exact ⟨⟨hpassed.ending, hpassed.suffix, hpassed.moved, by omega⟩, by omega⟩
  · have hreported := hrest.reported
    rw [Array.size_push] at hreported
    exact ⟨hrest.ending, hrest.suffix, by simp, by omega⟩
  · exact hrest

/-- Nothing is reported only while there are fewer than the most that may be. -/
theorem checkArity {count : Nat} {error : SyntaxError} {further : Unit → Parser β}
    (h : Reads moves tokens next (further ()) fun rest after value =>
      count < maxArity → derives' rest after value) :
    Reads moves tokens next (checkArity count error >>= further) derives' := by
  rw [Parser.checkArity]
  split
  · rw [bind_assoc]
    apply peek
    intro token _
    exact report token (h.mono fun _ _ _ _ => trivial)
  · rename_i hcount
    rw [pure_bind]
    exact h.mono fun _ _ _ hderives => hderives (by omega)

/-- Recovery after an error goes on behind the token at which reading failed. -/
theorem recover_passed {reports : Nat} {ending : Token} {after : State} (hne : tokens ≠ [])
    (h : Passed false tokens ending reports after) :
    Passed true tokens ending reports after.recover := by
  have hlength := h.suffix.length_le
  have hpositive := List.length_pos_of_ne_nil hne
  rw [State.recover]
  split
  · rename_i hrest
    exact ⟨h.ending, h.suffix, fun _ => by simpa [hrest] using hpositive, h.reported⟩
  · rename_i token rest hrest
    have hsuffix := resume_suffix (token.is .semicolon) rest
    have hle := hsuffix.length_le
    rw [hrest, List.length_cons] at hlength
    refine ⟨h.ending, (hsuffix.trans (List.suffix_cons token rest)).trans (hrest ▸ h.suffix),
      fun _ => ?_, h.reported⟩
    dsimp only
    omega
where
  resume_suffix (afterSemicolon : Bool) (tokens : List Token) :
      resume afterSemicolon tokens <:+ tokens := by
    induction tokens generalizing afterSemicolon with
    | nil => exact List.suffix_rfl
    | cons token rest ih =>
        rw [resume]
        split
        · exact List.suffix_rfl
        · exact (ih _).trans (List.suffix_cons _ _)

/-- A part that is left out has reported an error. -/
theorem attempt (hne : tokens ≠ []) (h : Reads true tokens next part derives) :
    Reads true tokens next (attempt part) fun rest after result? =>
      ∃ result, result? = some result ∧ derives rest after result := by
  intro ending diagnostics hending
  have hpart := h ending diagnostics hending
  rw [Parser.attempt]
  generalize part ⟨tokens, ending, next, diagnostics⟩ = ended at hpart
  match ended with
  | .ok result after => exact ⟨hpart.1, fun hsize => ⟨result, rfl, hpart.2 hsize⟩⟩
  | .error .syntaxError after =>
    have hpassed := recover_passed hne hpart
    refine ⟨⟨hpassed.ending, hpassed.suffix, hpassed.moved, ?_⟩, fun hsize => ?_⟩
    · exact Nat.le_of_succ_le hpassed.reported
    · have := hpassed.reported
      omega
  | .error .outOfFuel after => exact hpart.elim

end Reads

end Lox.Parser
