import Lox.Proofs.Token.Longest

/-!
# Scanning tokens again

The lexeme of a token is a token by itself, and it ends before a blank whatever
comes behind: only a string goes over blanks, and it has been closed by then.  So
the lexemes of a source, written with blanks between them, are scanned again as
the same tokens.
-/

namespace Lox

namespace Segment

open Decimal (isDigit)

/-! ## Blanks -/

theorem isBlank_iff {c : Char} : isBlank c ↔ c ∈ [' ', '\t', '\r', '\n'] := by
  simp [isBlank, or_assoc, or_comm, or_left_comm]

theorem not_isBlank_of_isWordCharacter {c : Char} (h : isWordCharacter c) : ¬ isBlank c := by
  rw [isBlank_iff]
  intro hmem
  simp only [List.mem_cons, List.not_mem_nil, or_false] at hmem
  rcases hmem with rfl | rfl | rfl | rfl <;> exact absurd h (by decide)

theorem not_isBlank_of_isDigit {c : Char} (h : isDigit c) : ¬ isBlank c :=
  not_isBlank_of_isWordCharacter (by simp [isWordCharacter, h])

theorem not_isBlank_of_mark {spelling : String} {symbol : Symbol}
    (h : (spelling, symbol) ∈ Symbol.spellings) : ∀ c ∈ spelling.toList, ¬ isBlank c := by
  have hall : Symbol.spellings.all (·.1.toList.all (! isBlank ·)) := by decide
  intro c hmem
  simpa using List.all_eq_true.1 (List.all_eq_true.1 hall _ h) c hmem

/-- Blanks in front of a text only move it further down. -/
theorem yields_blanks (line : Nat) {blanks : List Char} (h : ∀ c ∈ blanks, isBlank c)
    (text : List Char) :
    yields line (all (blanks ++ text)) = yields (line + blanks.count '\n') (all text) := by
  induction blanks generalizing line with
  | nil => rfl
  | cons c blanks ih =>
      obtain ⟨hc, hblanks⟩ := List.forall_mem_cons.1 h
      have hsegment : ofText c (blanks ++ text) = ⟨.blank, [c], blanks ++ text⟩ := by
        have hmem := isBlank_iff.1 hc
        simp only [List.mem_cons, List.not_mem_nil, or_false] at hmem
        rcases hmem with rfl | rfl | rfl | rfl <;> rfl
      have hcount : (c :: blanks).count '\n' = [c].count '\n' + blanks.count '\n' :=
        @List.count_append _ _ _ [c] _
      rw [List.cons_append, all, hsegment, yields, ih _ hblanks, hcount, Nat.add_assoc]
      rfl

end Segment

namespace Lexeme

open Segment

variable {first c : Char} {text further : List Char} {piece : Piece} {kind : Kind}

/-- A lexeme by itself is one segment. -/
theorem ofText_alone (h : Lexeme (first :: text) piece) :
    ofText first text = ⟨piece, first :: text, []⟩ := by
  have hcovered : (ofText first (text ++ [])).Covers (first :: text) piece [] := h.covered
  rw [List.append_nil] at hcovered
  refine hcovered.resolve_left fun hlonger => ?_
  have hlength := congrArg List.length (ofText_append first text)
  rw [List.length_append] at hlength
  omega

/-- A token that begins with a slash is nothing else. -/
theorem eq_nil_of_slash (h : Lexeme ('/' :: text) (.token kind)) : text.head? ≠ some '/' := by
  intro hslash
  obtain ⟨more, rfl⟩ : ∃ more, text = '/' :: more := List.head?_eq_some_iff.1 hslash
  have hpiece := congrArg Segment.piece h.ofText_alone
  cases hpiece

/-- What a token goes on with behind a blank belongs to no lexeme with it. -/
theorem not_extended (h : Lexeme text (.token kind)) (hblank : isBlank c) :
    ¬ Lexeme (text ++ c :: further) piece := by
  obtain ⟨first, more, rfl⟩ := List.exists_cons_of_ne_nil h.ne_nil
  have hmem : c ∈ first :: more ++ c :: further := by simp
  generalize hwhole : first :: more ++ c :: further = whole at hmem
  intro hlonger
  cases hlonger with
  | mark hmark => exact not_isBlank_of_mark hmark c hmem hblank
  | whole _ hdigits => exact not_isBlank_of_isDigit (hdigits c hmem) hblank
  | fraction _ hdigits _ hdigits' =>
      rcases List.mem_append.1 hmem with hmem | hmem
      · exact not_isBlank_of_isDigit (hdigits c hmem) hblank
      · rcases List.mem_cons.1 hmem with rfl | hmem
        · exact absurd hblank (by decide)
        · exact not_isBlank_of_isDigit (hdigits' c hmem) hblank
  | word hfirst hfollowing _ =>
      rcases List.mem_cons.1 hmem with rfl | hmem
      · exact not_isBlank_of_isWordCharacter (by simp [isWordCharacter, hfirst]) hblank
      · exact not_isBlank_of_isWordCharacter (hfollowing c hmem) hblank
  | @string content hcontent =>
      have hparts : first = '"' ∧ more ++ c :: further = content ++ ['"'] := List.cons.inj hwhole
      obtain ⟨rfl, hmore⟩ := hparts
      have hlength : more.length ≤ content.length := by
        have := congrArg List.length hmore
        simp only [List.length_append, List.length_cons, List.length_nil] at this
        omega
      have hinside : more <+: content :=
        List.prefix_of_prefix_length_le ⟨_, hmore⟩ (List.prefix_append _ _) hlength
      exact hcontent (hinside.subset h.quote_mem)
  | @comment content _ =>
      have hparts : first = '/' ∧ more ++ c :: further = '/' :: content := List.cons.inj hwhole
      obtain ⟨rfl, hmore⟩ := hparts
      cases more with
      | nil =>
          obtain ⟨rfl, -⟩ := List.cons.inj hmore
          exact absurd hblank (by decide)
      | cons other more =>
          obtain ⟨rfl, -⟩ := List.cons.inj hmore
          exact h.eq_nil_of_slash rfl
  | blank _ =>
      have hlength := congrArg List.length hwhole
      simp at hlength

/-- Before a blank a token is cut off whole. -/
theorem ofText_before_blank (h : Lexeme (first :: text) (.token kind)) (hblank : isBlank c) :
    ofText first (text ++ c :: further) = ⟨.token kind, first :: text, c :: further⟩ := by
  refine h.covered.resolve_left fun hlonger => ?_
  have hwhole := ofText_append first (text ++ c :: further)
  rcases lexeme_ofText first (text ++ c :: further) with hlexeme | ⟨rfl, hopen, -⟩ | ⟨-, hsegment⟩
  · generalize (ofText first (text ++ c :: further)).text = longer at *
    obtain ⟨beyond, rfl⟩ : first :: text <+: longer :=
      List.prefix_of_prefix_length_le ⟨_, rfl⟩ ⟨_, hwhole⟩ (Nat.le_of_lt hlonger)
    cases beyond with
    | nil => simp at hlonger
    | cons d beyond =>
        rw [List.append_assoc, ← List.cons_append, List.append_cancel_left_eq] at hwhole
        obtain ⟨rfl, -⟩ := List.cons.inj hwhole
        exact h.not_extended hblank hlexeme
  · exact hopen (List.mem_append_left _ h.quote_mem)
  · simp [hsegment] at hlonger

end Lexeme

/-! ## Tokens and their lexemes -/

/-- The lexemes in order, with blanks between each two of them. -/
inductive Spaced : List String → String → Prop where
  | nil : Spaced [] ""
  | single (lexeme : String) : Spaced [lexeme] lexeme
  | cons (lexeme separator : String) {lexemes : List String} {text : String}
    (hseparator : separator ≠ "") (hblank : ∀ c ∈ separator.toList, c ∈ [' ', '\t', '\r', '\n'])
    (hne : lexemes ≠ []) (h : Spaced lexemes text) :
    Spaced (lexeme :: lexemes) (lexeme ++ separator ++ text)

/-- What a token is, wherever it stands. -/
def Token.content (token : Token) : Kind × String :=
  (token.kind, token.lexeme)

namespace Segment

theorem lexeme_item? {line : Nat} {first : Char} {following : List Char} {token : Token}
    (h : (ofText first following).item? line = some (.ok token)) :
    Lexeme token.lexeme.toList (.token token.kind) := by
  have hsegment := lexeme_ofText first following
  generalize ofText first following = segment at h hsegment
  obtain ⟨piece, text, rest⟩ := segment
  cases piece <;> simp [item?] at h
  subst h
  simp only [Segment.mk.injEq, reduceCtorEq, false_and, and_false, or_false] at hsegment
  simpa using hsegment

theorem lexeme_of_mem_yields {line : Nat} {text : List Char} {token : Token}
    (h : .ok token ∈ yields line (all text)) : Lexeme token.lexeme.toList (.token token.kind) := by
  induction text using all.induct generalizing line with
  | case1 =>
      rw [all, yields] at h
      cases h
  | case2 first following ih =>
      rw [all, yields, List.mem_append, Option.mem_toList] at h
      exact h.elim lexeme_item? ih

/-- Where the lexeme of a token is cut off whole, it is that token again. -/
theorem yields_token {token : Token} {rest : List Char}
    (h : ∀ first text, token.lexeme.toList = first :: text →
      ofText first (text ++ rest) = ⟨.token token.kind, first :: text, rest⟩)
    (hlexeme : Lexeme token.lexeme.toList (.token token.kind)) (line : Nat) :
    ∃ token' : Token, token'.content = token.content ∧
      yields line (all (token.lexeme.toList ++ rest)) =
        .ok token' :: yields token'.line (all rest) := by
  obtain ⟨first, text, htext⟩ := List.exists_cons_of_ne_nil hlexeme.ne_nil
  refine ⟨⟨token.kind, token.lexeme, line + (first :: text).count '\n'⟩, rfl, ?_⟩
  rw [htext, List.cons_append, all, h first text htext, yields]
  simp [item?, ← htext]

/-- The lexemes of tokens with blanks between them yield the same tokens. -/
theorem yields_spaced {lexemes : List String} {text : String} (h : Spaced lexemes text)
    (line : Nat) {tokens : List Token} (htokens : tokens.map Token.lexeme = lexemes)
    (hlexemes : ∀ token ∈ tokens, Lexeme token.lexeme.toList (.token token.kind)) :
    ∃ tokens' : List Token, yields line (all text.toList) = tokens'.map .ok ∧
      tokens'.map Token.content = tokens.map Token.content := by
  induction h generalizing line tokens with
  | nil =>
      obtain rfl := List.map_eq_nil_iff.1 htokens
      exact ⟨[], by rw [String.toList_empty, all]; rfl, rfl⟩
  | single lexeme =>
      obtain ⟨token, rfl, rfl⟩ := List.map_eq_singleton_iff.1 htokens
      have hlexeme := List.forall_mem_singleton.1 hlexemes
      have hcut : ∀ first text, token.lexeme.toList = first :: text →
          ofText first (text ++ []) = ⟨.token token.kind, first :: text, []⟩ := by
        intro first text htext
        rw [htext] at hlexeme
        rw [List.append_nil, hlexeme.ofText_alone]
      obtain ⟨token', hcontent, hyields⟩ := yields_token hcut hlexeme line
      rw [List.append_nil, all] at hyields
      exact ⟨[token'], hyields, congrArg ([·]) hcontent⟩
  | @cons _ separator _ text hseparator hblank _ _ ih =>
      obtain ⟨token, tokens, rfl, rfl, hmore⟩ := List.map_eq_cons_iff.1 htokens
      obtain ⟨hlexeme, hlexemes⟩ := List.forall_mem_cons.1 hlexemes
      obtain ⟨c, blanks, hchars⟩ : ∃ c blanks, separator.toList = c :: blanks :=
        List.exists_cons_of_ne_nil (by simpa using hseparator)
      have hblanks : ∀ d ∈ c :: blanks, isBlank d := fun d hd =>
        isBlank_iff.2 (hblank d (hchars ▸ hd))
      have hbehind := (List.forall_mem_cons.1 hblanks).1
      have hcut : ∀ first more, token.lexeme.toList = first :: more →
          ofText first (more ++ (separator.toList ++ text.toList)) =
            ⟨.token token.kind, first :: more, separator.toList ++ text.toList⟩ := by
        intro first more htext
        rw [htext] at hlexeme
        rw [hchars]
        exact hlexeme.ofText_before_blank hbehind
      obtain ⟨token', hcontent, hyields⟩ := yields_token hcut hlexeme line
      obtain ⟨tokens', hrest, hcontents⟩ := ih (token'.line + separator.toList.count '\n') hmore
        hlexemes
      refine ⟨token' :: tokens', ?_, congrArg₂ List.cons hcontent hcontents⟩
      rw [String.toList_append, String.toList_append, List.append_assoc, hyields,
        yields_blanks _ (hchars ▸ hblanks), hrest, List.map_cons]

end Segment

/-- The lexeme of a token belongs to the class of its kind. -/
theorem TokenStream.lexeme_ofSource {source : String} {token : Token}
    (h : token ∈ (ofSource source).1.body) :
    Lexeme token.lexeme.toList (.token token.kind) := by
  rw [ofSource_eq] at h
  obtain ⟨item, hitem, hsome⟩ := List.mem_filterMap.1 h
  cases item with
  | error diagnostic => cases hsome
  | ok other =>
      cases hsome
      exact Segment.lexeme_of_mem_yields hitem

/-- The lexemes of a source are written with blanks between each two of them.  That
text has no lexical errors, and it has the same tokens in the same order, on whatever
lines, and then the end of the file. -/
theorem TokenStream.ofSource_spaced {source text : String}
    (hspaced : Spaced ((ofSource source).1.body.map Token.lexeme) text) :
    (ofSource text).2 = [] ∧
      (ofSource text).1.body.map Token.content = (ofSource source).1.body.map Token.content ∧
      Item.ofSource text = (ofSource text).1.body.map .ok ++
        [.ok (Token.ending (1 + text.toList.count '\n'))] := by
  obtain ⟨tokens, hyields, hcontent⟩ := Segment.yields_spaced hspaced 1 rfl fun _ => lexeme_ofSource
  have htokens : (tokens.map .ok).filterMap Item.token? = tokens := by
    rw [List.filterMap_map]
    exact List.filterMap_some
  have hnone : (tokens.map .ok).filterMap Item.diagnostic? = [] := by
    rw [List.filterMap_map, List.filterMap_eq_nil_iff]
    exact fun _ _ => rfl
  rw [ofSource_eq text]
  simp only [hyields, htokens, hnone]
  refine ⟨trivial, hcontent, ?_⟩
  rw [Item.ofSource, Segment.items_eq, Segment.lineEnds_all, hyields]

/-- A number before a point, slashes and an equals sign that stood alone, a string
with slashes over a line end and a word with a digit behind it. -/
theorem TokenStream.ofSource_spaced_of_slashes :
    let source := "7 . / / ! = \"//\n\"x1"
    let text := "7\t.\n/ /\r!  =\n\n\"//\n\" x1"
    let lexemes := ["7", ".", "/", "/", "!", "=", "\"//\n\"", "x1"]
    (ofSource source).1.body.map Token.lexeme = lexemes ∧ Spaced lexemes text ∧
      (ofSource text).2 = [] ∧
      (ofSource text).1.body.map Token.content = (ofSource source).1.body.map Token.content := by
  intro source text lexemes
  have hlexemes : (ofSource source).1.body.map Token.lexeme = lexemes := by decide +kernel
  have hspaced : Spaced lexemes text := by
    have h := Spaced.cons "\"//\n\"" " " (by decide) (by simp) (by decide)
      (.single "x1")
    have h := h.cons "=" "\n\n" (by decide) (by simp) (by decide)
    have h := h.cons "!" "  " (by decide) (by simp) (by decide)
    have h := h.cons "/" "\r" (by decide) (by simp) (by decide)
    have h := h.cons "/" " " (by decide) (by simp) (by decide)
    have h := h.cons "." "\n" (by decide) (by simp) (by decide)
    exact h.cons "7" "\t" (by decide) (by simp) (by decide)
  obtain ⟨hclean, hcontent, -⟩ := ofSource_spaced (hlexemes ▸ hspaced)
  exact ⟨hlexemes, hspaced, hclean, hcontent⟩

end Lox
