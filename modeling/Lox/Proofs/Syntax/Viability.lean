import Lox.Proofs.Syntax.Prediction.Statement
import Lox.Proofs.Syntax.Reading.Statement
import Mathlib.Order.Bounds.Basic

/-!
# The first interruption of reading

Reading is interrupted exactly where the tokens are no program of the written
grammar, and first at the token with which they can no longer be gone on with to
one.
-/

namespace Lox

open Phrase

/-- The tokens begin some program. -/
def Viable (tokens : List Token) : Prop :=
  ∃ further, Sentence (tokens ++ further)

theorem Viable.take {tokens : List Token} (h : Viable tokens) (k : Nat) :
    Viable (tokens.take k) := by
  obtain ⟨further, hfurther⟩ := h
  refine ⟨tokens.drop k ++ further, ?_⟩
  rwa [← List.append_assoc, List.take_append_drop]

theorem viable_take {tokens : List Token} (h : Sentence tokens) (k : Nat) :
    Viable (tokens.take k) :=
  Viable.take ⟨[], by rwa [List.append_nil]⟩ k

theorem sentence_iff {tokens : List Token} :
    Sentence tokens ↔
      tokens ∈ (many (rule .declaration)).language * (word .endOfFile).language := by
  rw [← language_seq, Sentence, language_rule]
  rfl

theorem TokenStream.ofTokens_ended {body : List Token} {ending : Token}
    (hbody : ∀ token ∈ body, token.is .endOfFile = false) (hending : ending.is .endOfFile) :
    ofTokens (body ++ [ending]) = ⟨body, ending⟩ := by
  have hplain : ∀ token ∈ body, (!token.is .endOfFile) = true := fun token htoken => by
    rw [hbody token htoken, Bool.not_false]
  have hnone : body.find? (·.is .endOfFile) = none := by
    rw [List.find?_eq_none]
    exact fun token htoken => by rw [hbody token htoken, Bool.false_eq_true, not_false_iff]; trivial
  rw [ofTokens, List.takeWhile_append_of_pos hplain, List.find?_append, hnone]
  simp [hending]

namespace Parser

/-- A program is read to the end of the file. -/
theorem program_rest {fuel : Nat} {state after : State} {ss : List Stmt}
    (h : program fuel state = .ok ss after) : after.rest = [] := by
  induction fuel generalizing state ss with
  | zero => cases h
  | succ fuel ih =>
      rw [program] at h
      obtain ⟨ended, middle, hended, h⟩ := exists_of_bind_ok h
      obtain ⟨rfl, rfl⟩ : state.rest.isEmpty = ended ∧ state = middle := by
        cases hended
        exact ⟨rfl, rfl⟩
      split at h
      · rename_i hempty
        cases h
        exact List.isEmpty_iff.1 hempty
      · obtain ⟨first, next, -, h⟩ := exists_of_bind_ok h
        obtain ⟨rest, last, hrest, h⟩ := exists_of_bind_ok h
        cases h
        exact ih hrest

end Parser

namespace Parsed

open Lox.Parser

/-- How reading a whole program ends. -/
theorem ofStream_outcome (stream : TokenStream)
    (hbody : ∀ token ∈ stream.body, token.is .endOfFile = false)
    (hending : stream.ending.is .endOfFile) (next : Nat) :
    let interruptions := (ofStream stream next).diagnostics.filterMap Diagnostic.interruption?
    interruptions = [] ∧ Sentence (stream.body ++ [stream.ending]) ∨
      ∃ before bad behind, interruptions.head? = some bad ∧
        stream.body ++ [stream.ending] = before ++ bad :: behind ∧ Viable before ∧
        ¬ Viable (before ++ [bad]) := by
  let state : State := ⟨stream.body, stream.ending, next, #[]⟩
  have hfuel : 32 * stream.body.length + 14 ≤ fuel stream := by
    rw [fuel]
    omega
  have hreads := program_reads next hfuel stream.ending #[] hending
  have houtcome := (program_predicts (fuel stream)).outcome state ⟨hending, hbody⟩ trivial rfl
  have hofStream : (ofStream stream next).diagnostics =
      (finalState (program (fuel stream) state)).diagnostics.toList := by
    rw [ofStream]
    split <;> rename_i hresult <;> rw [hresult] <;> rfl
  intro interruptions
  have hinterruptions : interruptions =
      (finalState (program (fuel stream) state)).interruptions :=
    congrArg (List.filterMap Diagnostic.interruption?) hofStream
  rw [hinterruptions]
  generalize hended : program (fuel stream) state = ended at houtcome hreads
  cases houtcome with
  | outOfFuel => exact hreads.elim
  | @read ss after before hclean _ hrest hword _ =>
      refine .inl ⟨hclean, ?_⟩
      have hbefore : stream.body = before := by
        have hempty := program_rest hended
        rwa [hempty, List.append_nil] at hrest
      rw [sentence_iff, hbefore]
      apply Language.append_mem_mul hword
      exact (mem_words [.endOfFile]).2
        ⟨stream.ending, rfl, by simpa [Token.isAny] using hending⟩
  | @interrupted _ bad before behind hfirst hinput hviable himpossible =>
      refine .inr ⟨before, bad, behind, hfirst, hinput, ?_, ?_⟩
      · obtain ⟨further, hfurther⟩ := hviable
        exact ⟨further, sentence_iff.2 hfurther⟩
      · rintro ⟨further, hfurther⟩
        rw [sentence_iff, List.append_assoc] at hfurther
        exact himpossible further hfurther

end Parsed

/-- Reading is interrupted by an error exactly if the tokens, of which only the last
is the end of the file, are no program.  The first such error is at the token by
which they stop being the beginning of one. -/
theorem interrupted_at_first_impossible_token {body : List Token} {ending : Token}
    (hbody : ∀ token ∈ body, token.is .endOfFile = false) (hending : ending.is .endOfFile)
    (next : Nat) :
    let tokens := body ++ [ending]
    let interruptions :=
      (Parsed.ofStream (.ofTokens tokens) next).diagnostics.filterMap Diagnostic.interruption?
    (interruptions ≠ [] ↔ ¬ Sentence tokens) ∧
      ∀ token ∈ interruptions.head?,
        ∃ k, IsLeast {k | k < tokens.length ∧ ¬ Viable (tokens.take (k + 1))} k ∧
          tokens[k]? = some token := by
  intro tokens interruptions
  have hstream : TokenStream.ofTokens tokens = ⟨body, ending⟩ :=
    TokenStream.ofTokens_ended hbody hending
  have hinterruptions : interruptions =
      (Parsed.ofStream ⟨body, ending⟩ next).diagnostics.filterMap Diagnostic.interruption? := by
    rw [← hstream]
  rw [hinterruptions]
  rcases Parsed.ofStream_outcome ⟨body, ending⟩ hbody hending next with
    ⟨hclean, hsentence⟩ | ⟨before, bad, behind, hfirst, hinput, hviable, hbad⟩
  · refine ⟨iff_of_false (fun h => h hclean) (fun h => h hsentence), ?_⟩
    rw [hclean]
    rintro token ⟨⟩
  · have htokens : tokens = before ++ bad :: behind := hinput
    have hbad : ¬ Viable (tokens.take (before.length + 1)) := by
      rwa [htokens, List.take_length_add_append, List.take_succ_cons, List.take_zero]
    constructor
    · refine iff_of_true (fun h => ?_) fun hsentence => hbad (viable_take hsentence _)
      rw [h] at hfirst
      cases hfirst
    · rw [hfirst]
      rintro token ⟨⟩
      refine ⟨before.length, ⟨⟨?_, hbad⟩, ?_⟩, ?_⟩
      · rw [htokens]
        simp
      · rintro j ⟨-, hj⟩
        by_contra hlt
        apply hj
        rw [htokens, List.take_append_of_le_length (by omega)]
        exact hviable.take _
      · rw [htokens]
        simp

/-- `print ) ;` is no program, and stops being the beginning of one at the
parenthesis. -/
theorem parenthesis_impossible_behind_print :
    let tokens : List Token := [⟨.symbol .printWord, "print", 1⟩,
      ⟨.symbol .rightParen, ")", 1⟩, ⟨.symbol .semicolon, ";", 1⟩, ⟨.symbol .endOfFile, "", 1⟩]
    ¬ Sentence tokens ∧ IsLeast {k | k < tokens.length ∧ ¬ Viable (tokens.take (k + 1))} 1 := by
  let body : List Token := [⟨.symbol .printWord, "print", 1⟩,
    ⟨.symbol .rightParen, ")", 1⟩, ⟨.symbol .semicolon, ";", 1⟩]
  let ending : Token := ⟨.symbol .endOfFile, "", 1⟩
  have hfirst : ((Parsed.ofStream (.ofTokens (body ++ [ending])) 0).diagnostics.filterMap
      Diagnostic.interruption?).head? = some ⟨.symbol .rightParen, ")", 1⟩ := rfl
  obtain ⟨hthrown, hleast⟩ :=
    interrupted_at_first_impossible_token
      (show ∀ token ∈ body, token.is .endOfFile = false by decide)
      (show ending.is .endOfFile by decide) 0
  obtain ⟨k, hk, htoken⟩ := hleast _ (Option.mem_def.2 hfirst)
  refine ⟨hthrown.1 fun h => ?_, ?_⟩
  · rw [h] at hfirst
    cases hfirst
  · -- The parenthesis stands in the list once.
    have hlt : k < 4 := hk.1.1
    match k, hlt, htoken with
    | 1, _, _ => exact hk
    | 0, _, h | 2, _, h | 3, _, h => simp [body, ending] at h

end Lox
