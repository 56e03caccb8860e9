import Lox.Token.Stream

/-!
# Spelling of tokens

A symbol that is read from a source is a mark or the symbol of the word that it
is spelled as.  So a token is the word for the receiver exactly when it is
spelled as that word, no name of a program is spelled like it, and the end of
the file is not spelled at all.
-/

namespace Lox

/-- The token is the word for the receiver exactly when it is spelled `this`. -/
def Token.Spelled (token : Token) : Prop :=
  token.is .thisWord ↔ token.lexeme = "this"

theorem Token.spelled_ending (line : Nat) : (Token.ending line).Spelled := by
  simp [Token.Spelled, Token.ending, Token.is]

theorem Token.Spelled.ne_this {token : Token} (h : token.Spelled) (hname : token.is .identifier) :
    token.lexeme ≠ "this" := by
  intro hlexeme
  have hthis := h.2 hlexeme
  unfold Token.is at hname hthis
  split at hname
  · rename_i symbol hkind
    rw [hkind] at hthis
    simp at hname hthis
    rw [hname] at hthis
    cases hthis
  · cases hname

/-- The symbols that are spelled without letters. -/
def Symbol.marks : List Symbol :=
  [leftParen, rightParen, leftBrace, rightBrace, leftBracket, rightBracket, comma, dot, minus,
    plus, semicolon, slash, star, bang, bangEqual, equal, equalEqual, greater, greaterEqual, less,
    lessEqual]

/-- A word is a name or one of the reserved words. -/
theorem Symbol.ofWord_cases (word : String) :
    ofWord word = identifier ∨ (word, ofWord word) ∈ reserved := by
  unfold ofWord
  cases hlookup : reserved.lookup word with
  | none => exact .inl rfl
  | some symbol =>
      obtain ⟨before, after, heq, -⟩ := List.lookup_eq_some_iff.1 hlookup
      exact .inr (by simp [heq])

theorem Symbol.ofWord_eq_thisWord (word : String) : ofWord word = thisWord ↔ word = "this" := by
  constructor
  · intro hword
    rcases ofWord_cases word with hname | hmem
    · rw [hname] at hword
      cases hword
    · simpa [reserved, hword] using hmem
  · rintro rfl
    decide

theorem Symbol.ofWord_ne_endOfFile (word : String) : ofWord word ≠ endOfFile := by
  intro hword
  rcases ofWord_cases word with hname | hmem
  · rw [hname] at hword
    cases hword
  · simp [reserved, hword] at hmem

namespace Segment

theorem single?_mem_marks {c : Char} {symbol : Symbol} (h : single? c = some symbol) :
    symbol ∈ Symbol.marks := by
  unfold single? at h
  split at h <;> cases h <;> decide

theorem paired?_mem_marks {c : Char} {alone withEqual : Symbol}
    (h : paired? c = some (alone, withEqual)) :
    alone ∈ Symbol.marks ∧ withEqual ∈ Symbol.marks := by
  unfold paired? at h
  split at h <;> cases h <;> decide

theorem slash_mem_marks {following : List Char} {symbol : Symbol}
    (h : (slash following).piece = .token (.symbol symbol)) : symbol ∈ Symbol.marks := by
  unfold slash at h
  split at h <;> cases h
  decide

theorem string_ne_symbol (following : List Char) (symbol : Symbol) :
    (string following).piece ≠ .token (.symbol symbol) := by
  intro h
  unfold string at h
  split at h <;> cases h

theorem number_ne_symbol (first : Char) (following : List Char) (symbol : Symbol) :
    (number first following).piece ≠ .token (.symbol symbol) := by
  intro h
  unfold number at h
  dsimp only at h
  split at h
  · split at h <;> cases h
  · cases h

/-- A symbol is a mark or the symbol of the word that it is spelled as. -/
theorem symbol_of_ofText {first : Char} {following : List Char} {symbol : Symbol} :
    (ofText first following).piece = .token (.symbol symbol) →
      symbol ∈ Symbol.marks ∨ symbol = .ofWord (String.ofList (ofText first following).text) := by
  unfold ofText
  split
  · rename_i hsingle
    rintro ⟨⟩
    exact .inl (single?_mem_marks hsingle)
  · rename_i hpaired
    split
    · rintro ⟨⟩
      exact .inl (paired?_mem_marks hpaired).2
    · rintro ⟨⟩
      exact .inl (paired?_mem_marks hpaired).1
  · split
    · exact fun h => .inl (slash_mem_marks h)
    · split
      · exact fun h => absurd h (string_ne_symbol following symbol)
      · split
        · rintro ⟨⟩
        · split
          · exact fun h => absurd h (number_ne_symbol first following symbol)
          · split
            · rintro ⟨⟩
              exact .inr rfl
            · rintro ⟨⟩

/-- Only a word is the word for the receiver. -/
theorem text_of_thisWord {first : Char} {following : List Char}
    (h : (ofText first following).piece = .token (.symbol .thisWord)) :
    String.ofList (ofText first following).text = "this" := by
  rcases symbol_of_ofText h with hmark | hword
  · exact absurd hmark (by decide)
  · exact (Symbol.ofWord_eq_thisWord _).1 hword.symm

/-- The end of the file is not spelled at all. -/
theorem ofText_ne_endOfFile (first : Char) (following : List Char) :
    (ofText first following).piece ≠ .token (.symbol .endOfFile) := by
  intro h
  rcases symbol_of_ofText h with hmark | hword
  · exact absurd hmark (by decide)
  · exact Symbol.ofWord_ne_endOfFile _ hword.symm

/-- What is spelled like the word for the receiver is that word. -/
theorem piece_of_spelled {first : Char} {following : List Char}
    (h : String.ofList (ofText first following).text = "this") :
    (ofText first following).piece = .token (.symbol .thisWord) := by
  have htext : (ofText first following).text = ['t', 'h', 'i', 's'] :=
    String.ofList_injective h
  have happend := ofText_append first following
  rw [htext] at happend
  obtain ⟨rfl, -⟩ := List.cons.inj happend
  have hword : ofText 't' following = word 't' following := rfl
  rw [hword] at htext ⊢
  simp only [word, run] at htext ⊢
  rw [htext, (Symbol.ofWord_eq_thisWord _).2 rfl]

theorem spelled_item? (line : Nat) (first : Char) (following : List Char) (token : Token)
    (h : (ofText first following).item? line = some (.ok token)) : token.Spelled := by
  unfold item? at h
  split at h <;> simp at h
  rename_i kind hkind
  subst h
  constructor
  · intro hthis
    apply text_of_thisWord
    unfold Token.is at hthis
    cases kind <;> simp_all
  · intro hlexeme
    have hpiece := piece_of_spelled hlexeme
    rw [hkind] at hpiece
    cases hpiece
    rfl

theorem spelled_items (line : Nat) (source : List Char) (token : Token)
    (h : .ok token ∈ items line (all source)) : token.Spelled := by
  induction source using all.induct generalizing line with
  | case1 =>
      simp only [all, items, List.mem_singleton, Except.ok.injEq] at h
      subst h
      exact Token.spelled_ending line
  | case2 first following ih =>
      rw [all, items] at h
      split at h
      · rename_i item hitem
        rcases List.mem_cons.1 h with rfl | h
        · exact spelled_item? _ first following token hitem
        · exact ih _ h
      · exact ih _ h

end Segment

/-- Every token of a source is spelled as its kind. -/
theorem TokenStream.spelled_ofSource (source : String) :
    (ofSource source).1.ending.Spelled ∧ ∀ token ∈ (ofSource source).1.body, token.Spelled := by
  have hitems : ∀ token ∈ (Item.ofSource source).filterMap Item.token?, token.Spelled := by
    intro token htoken
    obtain ⟨item, hitem, hsome⟩ := List.mem_filterMap.1 htoken
    cases item with
    | error diagnostic => cases hsome
    | ok other =>
        cases hsome
        exact Segment.spelled_items 1 source.toList token hitem
  refine ⟨?_, fun token htoken => hitems token (List.takeWhile_subset _ htoken)⟩
  cases hfind : ((Item.ofSource source).filterMap Item.token?).find? (·.is .endOfFile) with
  | none =>
      simp only [ofSource, ofTokens, hfind, Option.getD_none]
      exact Token.spelled_ending 1
  | some token =>
      simp only [ofSource, ofTokens, hfind, Option.getD_some]
      exact hitems token (List.mem_of_find?_eq_some hfind)

end Lox
