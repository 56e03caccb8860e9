import Lox.Proofs.Token.Seam
import Mathlib.Data.List.TakeWhile

/-!
# Longest match

The lexical classes are sets of texts, said without a scanner.  Wherever a
segment starts, it is the longest text of any class that the source goes on
with; where there is none, it is one error: the rest of the source after a
quotation mark, and one character otherwise.
-/

namespace Lox

/-- The punctuators and operators with their spellings. -/
def Symbol.spellings : List (String × Symbol) :=
  [("(", leftParen), (")", rightParen), ("\x7b", leftBrace), ("\x7d", rightBrace),
    ("[", leftBracket), ("]", rightBracket), (",", comma), (".", dot), ("-", minus),
    ("+", plus), (";", semicolon), ("/", slash), ("*", star), ("!", bang),
    ("!=", bangEqual), ("=", equal), ("==", equalEqual), (">", greater),
    (">=", greaterEqual), ("<", less), ("<=", lessEqual)]

/-- The whole word is one of the reserved words, or it is a name. -/
inductive Symbol.Names (word : String) : Symbol → Prop where
  | reserved {symbol : Symbol} (h : (word, symbol) ∈ Symbol.reserved) : Names word symbol
  | name (h : ∀ symbol, (word, symbol) ∉ Symbol.reserved) : Names word identifier

/-- The text belongs to a lexical class, as this piece. -/
inductive Lexeme : List Char → Piece → Prop where
  | mark {spelling : String} {symbol : Symbol} (h : (spelling, symbol) ∈ Symbol.spellings) :
    Lexeme spelling.toList (.token (.symbol symbol))
  | string {content : List Char} (h : '"' ∉ content) :
    Lexeme ('"' :: content ++ ['"']) (.token (.text (String.ofList content)))
  | whole {digits : List Char} (hne : digits ≠ []) (h : ∀ c ∈ digits, Decimal.isDigit c) :
    Lexeme digits (.token (.number (Decimal.ofNumeral digits)))
  | fraction {digits more : List Char} (hne : digits ≠ []) (h : ∀ c ∈ digits, Decimal.isDigit c)
    (hmore : more ≠ []) (h' : ∀ c ∈ more, Decimal.isDigit c) :
    Lexeme (digits ++ '.' :: more) (.token (.number (Decimal.ofNumeral (digits ++ '.' :: more))))
  | word {first : Char} {following : List Char} {symbol : Symbol}
    (hfirst : Segment.isLetter first) (h : ∀ c ∈ following, Segment.isWordCharacter c)
    (hsymbol : Symbol.Names (String.ofList (first :: following)) symbol) :
    Lexeme (first :: following) (.token (.symbol symbol))
  | comment {content : List Char} (h : '\n' ∉ content) :
    Lexeme ('/' :: '/' :: content) .comment
  | blank {c : Char} (h : c ∈ [' ', '\t', '\r', '\n']) : Lexeme [c] .blank

theorem LexicalError.message_unexpected (c : Char) :
    (unexpected c).message = "Unexpected character: " ++ String.singleton c :=
  rfl

/-! ## Words -/

theorem Symbol.names_ofWord (word : String) : Names word (ofWord word) := by
  unfold ofWord
  cases hlookup : Symbol.reserved.lookup word with
  | none =>
      refine .name fun symbol hmem => ?_
      rw [List.lookup_eq_none_iff] at hlookup
      simpa using hlookup _ hmem
  | some symbol =>
      obtain ⟨before, after, heq, -⟩ := List.lookup_eq_some_iff.1 hlookup
      exact .reserved (by simp [heq])

/-- No word is reserved twice. -/
theorem Symbol.Names.eq_ofWord {word : String} {symbol : Symbol} (h : Names word symbol) :
    symbol = ofWord word := by
  have hreserved : ∀ entry ∈ Symbol.reserved, entry.2 = ofWord entry.1 := by decide
  cases h with
  | reserved hmem => exact hreserved _ hmem
  | name hnone =>
      rcases ofWord_cases word with hname | hmem
      · exact hname.symm
      · exact absurd hmem (hnone _)

namespace Segment

open Decimal (isDigit)

/-! ## Which class a character begins -/

/-- The characters that begin a mark, the slash apart. -/
def openings : List Char :=
  ['(', ')', '\x7b', '\x7d', '[', ']', ',', '.', '-', '+', ';', '*', '!', '=', '<', '>']

/-- The characters that begin a mark, a string or a blank. -/
def distinguished : List Char :=
  openings ++ ['/', '"', ' ', '\r', '\t', '\n']

theorem mem_openings_of_single? {c : Char} {symbol : Symbol} (h : single? c = some symbol) :
    c ∈ openings := by
  unfold single? at h
  split at h <;> cases h <;> simp [openings]

theorem mem_openings_of_paired? {c : Char} {symbols : Symbol × Symbol}
    (h : paired? c = some symbols) : c ∈ openings := by
  unfold paired? at h
  split at h <;> cases h <;> simp [openings]

/-- A character of a class without those begins none of the three. -/
theorem undistinguished {belongs : Char → Bool} (hnone : distinguished.all (!belongs ·)) {c : Char}
    (h : belongs c) :
    single? c = none ∧ paired? c = none ∧ ∀ d ∈ ['/', '"', ' ', '\r', '\t', '\n'], c ≠ d := by
  have hnotMem : c ∉ distinguished := by
    intro hmem
    simpa [h] using List.all_eq_true.1 hnone c hmem
  obtain ⟨hopening, hother⟩ := not_or.1 (mt List.mem_append.2 hnotMem)
  refine ⟨?_, ?_, ?_⟩
  · rw [Option.eq_none_iff_forall_not_mem]
    exact fun _ hsingle => hopening (mem_openings_of_single? hsingle)
  · rw [Option.eq_none_iff_forall_not_mem]
    exact fun _ hpaired => hopening (mem_openings_of_paired? hpaired)
  · rintro d hd rfl
    exact hother hd

/-- A letter or digit begins a number or a word. -/
theorem ofText_of_isWordCharacter {first : Char} (h : isWordCharacter first)
    (following : List Char) :
    ofText first following =
      if isDigit first then number first following else word first following := by
  obtain ⟨hsingle, hpaired, hother⟩ := undistinguished (by decide) h
  have hblank : isBlank first = false := by
    simp [isBlank, hother]
  have hletter : isDigit first = false → isLetter first := by
    intro hdigit
    simpa [isWordCharacter, hdigit] using h
  have hslash : first ≠ '/' := hother _ (by simp)
  have hquote : first ≠ '"' := hother _ (by simp)
  cases hdigit : isDigit first with
  | true => simp [ofText, hsingle, hpaired, hslash, hquote, hblank, hdigit]
  | false => simp [ofText, hsingle, hpaired, hslash, hquote, hblank, hdigit, hletter hdigit]

theorem ofText_of_isDigit {first : Char} (h : isDigit first) (following : List Char) :
    ofText first following = number first following := by
  have hword : isWordCharacter first := by simp [isWordCharacter, h]
  rw [ofText_of_isWordCharacter hword, if_pos h]

theorem not_isDigit_of_isLetter {c : Char} (h : isLetter c) : ¬ isDigit c := by
  intro hdigit
  simp only [isDigit, Bool.and_eq_true, decide_eq_true_eq] at hdigit
  simp only [isLetter, Bool.or_eq_true, Bool.and_eq_true, decide_eq_true_eq, beq_iff_eq] at h
  rcases h with (h | h) | rfl
  · exact absurd (Char.le_trans h.1 hdigit.2) (by decide)
  · exact absurd (Char.le_trans h.1 hdigit.2) (by decide)
  · exact absurd hdigit (by decide)

theorem ofText_of_isLetter {first : Char} (h : isLetter first) (following : List Char) :
    ofText first following = word first following := by
  have hword : isWordCharacter first := by simp [isWordCharacter, h]
  rw [ofText_of_isWordCharacter hword, if_neg (not_isDigit_of_isLetter h)]

/-! ## A segment is at least as long as a lexeme -/

section Munch

variable {first : Char} {text rest : List Char} {piece : Piece}

/-- Either more is cut off than the given text, or just that, as the given piece. -/
def Covers (segment : Segment) (text : List Char) (piece : Piece) (rest : List Char) : Prop :=
  text.length < segment.text.length ∨ segment = ⟨piece, text, rest⟩

theorem takeWhile_eq_nil_or (p : Char → Bool) (rest : List Char) :
    rest.takeWhile p ≠ [] ∨ rest.takeWhile p = [] ∧ rest.dropWhile p = rest := by
  cases rest with
  | nil => exact .inr ⟨rfl, rfl⟩
  | cons c rest => cases hc : p c <;> simp [hc]

theorem run_covers {belongs : Char → Bool} (classify : List Char → Piece)
    (h : ∀ c ∈ text, belongs c) :
    (run belongs classify first (text ++ rest)).Covers (first :: text)
      (classify (first :: text)) rest := by
  simp only [run, List.takeWhile_append_of_pos h, List.dropWhile_append_of_pos h]
  rcases takeWhile_eq_nil_or belongs rest with hmore | ⟨hnone, hrest⟩
  · left
    have := List.length_pos_iff.2 hmore
    simp only [List.length_cons, List.length_append]
    omega
  · right
    rw [hnone, hrest, List.append_nil]

theorem string_covers (h : '"' ∉ text) :
    (string (text ++ '"' :: rest)).Covers ('"' :: text ++ ['"'])
      (.token (.text (String.ofList text))) rest := by
  have hinside : ∀ c ∈ text, (c != '"') = true := by
    intro c hc
    simpa using fun heq : c = '"' => h (heq ▸ hc)
  right
  simp [string, List.takeWhile_append_of_pos hinside, List.dropWhile_append_of_pos hinside]

theorem number_covers_whole (h : ∀ c ∈ text, isDigit c) :
    (number first (text ++ rest)).Covers (first :: text)
      (.token (.number (Decimal.ofNumeral (first :: text)))) rest := by
  simp only [number, List.takeWhile_append_of_pos h, List.dropWhile_append_of_pos h]
  rcases takeWhile_eq_nil_or isDigit rest with hmore | ⟨hnone, hrest⟩
  · left
    have := List.length_pos_iff.2 hmore
    split
    · split <;> simp <;> omega
    · simp
      omega
  · rw [hnone, hrest, List.append_nil]
    split
    · split
      · left
        simp
      · exact .inr rfl
    · exact .inr rfl

theorem number_covers_fraction {digits : List Char} (h : ∀ c ∈ text, isDigit c)
    (hne : digits ≠ []) (h' : ∀ c ∈ digits, isDigit c) :
    (number first (text ++ '.' :: digits ++ rest)).Covers (first :: text ++ '.' :: digits)
      (.token (.number (Decimal.ofNumeral (first :: text ++ '.' :: digits)))) rest := by
  obtain ⟨digit, more, rfl⟩ := List.exists_cons_of_ne_nil hne
  obtain ⟨hdigit, hmore⟩ := List.forall_mem_cons.1 h'
  have hpoint : isDigit '.' = false := by decide
  have htake : (text ++ '.' :: digit :: more ++ rest).takeWhile isDigit = text := by
    simp [List.takeWhile_append_of_pos h, hpoint]
  have hdrop : (text ++ '.' :: digit :: more ++ rest).dropWhile isDigit =
      '.' :: digit :: (more ++ rest) := by
    simp [List.dropWhile_append_of_pos h, hpoint]
  simp only [number, htake, hdrop, hdigit, if_true, List.takeWhile_append_of_pos hmore,
    List.dropWhile_append_of_pos hmore]
  rcases takeWhile_eq_nil_or isDigit rest with hafter | ⟨hnone, hrest⟩
  · left
    have := List.length_pos_iff.2 hafter
    simp only [List.length_append, List.length_cons]
    omega
  · right
    rw [hnone, hrest, List.append_nil]

theorem slash_covers_slash : (slash rest).Covers ['/'] (.token (.symbol .slash)) rest := by
  match rest with
  | [] => exact .inr rfl
  | c :: more =>
    by_cases hslash : c = '/'
    · subst hslash
      left
      simp [slash, run]
    · right
      simp [slash, hslash]

theorem slash_covers_comment (h : '\n' ∉ text) :
    (slash ('/' :: text ++ rest)).Covers ('/' :: '/' :: text) .comment rest := by
  apply run_covers fun _ => .comment
  intro c hc
  rcases List.mem_cons.1 hc with rfl | hc
  · decide
  · simpa using fun heq : c = '\n' => h (heq ▸ hc)

/-- The two symbols that a character can begin, of which the second needs an
equals sign behind it. -/
theorem paired_covers {alone withEqual : Symbol} (hsingle : single? first = none)
    (h : paired? first = some (alone, withEqual)) :
    (ofText first rest).Covers [first] (.token (.symbol alone)) rest ∧
      (ofText first ('=' :: rest)).Covers [first, '='] (.token (.symbol withEqual)) rest := by
  simp only [ofText, hsingle, h]
  refine ⟨?_, .inr rfl⟩
  split
  · left
    simp
  · exact .inr rfl

theorem spellings_cases {spelling : String} {symbol : Symbol}
    (h : (spelling, symbol) ∈ Symbol.spellings) :
    (∃ c, spelling.toList = [c] ∧ single? c = some symbol) ∨
      (∃ c other, spelling.toList = [c] ∧ single? c = none ∧ paired? c = some (symbol, other)) ∨
      (∃ c other, spelling.toList = [c, '='] ∧ single? c = none ∧
        paired? c = some (other, symbol)) ∨
      spelling.toList = ['/'] ∧ symbol = .slash := by
  have hall : ∀ entry ∈ Symbol.spellings,
      (∃ c, entry.1.toList = [c] ∧ single? c = some entry.2) ∨
        (∃ c other, entry.1.toList = [c] ∧ single? c = none ∧
          paired? c = some (entry.2, other)) ∨
        (∃ c other, entry.1.toList = [c, '='] ∧ single? c = none ∧
          paired? c = some (other, entry.2)) ∨
        entry.1.toList = ['/'] ∧ entry.2 = .slash := by
    simp [Symbol.spellings, single?, paired?]
  exact hall _ h

theorem mark_covers {spelling : String} {symbol : Symbol}
    (h : (spelling, symbol) ∈ Symbol.spellings) (hspelling : spelling.toList = first :: text) :
    (ofText first (text ++ rest)).Covers (first :: text) (.token (.symbol symbol)) rest := by
  rw [← hspelling]
  rcases spellings_cases h with ⟨c, hc, hsingle⟩ | ⟨c, other, hc, hsingle, hpaired⟩ |
    ⟨c, other, hc, hsingle, hpaired⟩ | ⟨hc, rfl⟩
  · obtain ⟨rfl, rfl⟩ := List.cons.inj (hspelling.symm.trans hc)
    rw [hc]
    right
    simp [ofText, hsingle]
  · obtain ⟨rfl, rfl⟩ := List.cons.inj (hspelling.symm.trans hc)
    rw [hc]
    exact (paired_covers hsingle hpaired).1
  · obtain ⟨rfl, rfl⟩ := List.cons.inj (hspelling.symm.trans hc)
    rw [hc]
    exact (paired_covers hsingle hpaired).2
  · obtain ⟨rfl, rfl⟩ := List.cons.inj (hspelling.symm.trans hc)
    rw [hc]
    exact slash_covers_slash

end Munch

end Segment

namespace Lexeme

open Segment

variable {first : Char} {text rest : List Char} {piece : Piece}

/-- A text that a lexeme begins is cut off behind the lexeme or further on. -/
theorem covered (h : Lexeme (first :: text) piece) :
    (ofText first (text ++ rest)).Covers (first :: text) piece rest := by
  generalize hwhole : first :: text = whole at h
  cases h with
  | mark hmem =>
      rw [← hwhole]
      exact mark_covers hmem hwhole.symm
  | @string content hcontent =>
      have hparts : first = '"' ∧ text = content ++ ['"'] := List.cons.inj hwhole
      obtain ⟨rfl, rfl⟩ := hparts
      have hstring : ofText '"' (content ++ ['"'] ++ rest) =
          Segment.string (content ++ '"' :: rest) := by
        rw [List.append_assoc]
        rfl
      rw [hstring]
      exact string_covers hcontent
  | whole hne hdigits =>
      subst hwhole
      obtain ⟨hfirst, htext⟩ := List.forall_mem_cons.1 hdigits
      rw [ofText_of_isDigit hfirst]
      exact number_covers_whole htext
  | @fraction digits more hne hdigits hmore hdigits' =>
      obtain ⟨digit, digits, rfl⟩ := List.exists_cons_of_ne_nil hne
      obtain ⟨rfl, rfl⟩ := List.cons.inj hwhole
      obtain ⟨hfirst, htext⟩ := List.forall_mem_cons.1 hdigits
      rw [ofText_of_isDigit hfirst]
      exact number_covers_fraction htext hmore hdigits'
  | word hfirst hfollowing hsymbol =>
      obtain ⟨rfl, rfl⟩ := List.cons.inj hwhole
      rw [ofText_of_isLetter hfirst, hsymbol.eq_ofWord]
      exact run_covers _ hfollowing
  | comment hcontent =>
      obtain ⟨rfl, rfl⟩ := List.cons.inj hwhole
      exact slash_covers_comment hcontent
  | blank hblank =>
      obtain ⟨rfl, rfl⟩ := List.cons.inj hwhole
      right
      simp only [List.mem_cons, List.not_mem_nil, or_false] at hblank
      rcases hblank with rfl | rfl | rfl | rfl <;> rfl

theorem ne_nil (h : Lexeme text piece) : text ≠ [] := by
  cases h with
  | mark hmem =>
      rcases spellings_cases hmem with ⟨c, hc, -⟩ | ⟨c, other, hc, -⟩ | ⟨c, other, hc, -⟩ | ⟨hc, -⟩
      all_goals simp [hc]
  | whole hne _ => exact hne
  | fraction hne _ _ _ => simp
  | string _ => simp
  | word _ _ _ => simp
  | comment _ => simp
  | blank _ => simp

/-- A lexeme that begins with a quotation mark goes on to the next one. -/
theorem quote_mem (h : Lexeme ('"' :: text) piece) : '"' ∈ text := by
  generalize hwhole : '"' :: text = whole at h
  cases h with
  | mark hmem =>
      rcases spellings_cases hmem with ⟨c, hc, hsingle⟩ | ⟨c, other, hc, -, hpaired⟩ |
        ⟨c, other, hc, -, hpaired⟩ | ⟨hc, rfl⟩
      · obtain ⟨rfl, -⟩ := List.cons.inj (hwhole.trans hc)
        cases hsingle
      · obtain ⟨rfl, -⟩ := List.cons.inj (hwhole.trans hc)
        cases hpaired
      · obtain ⟨rfl, -⟩ := List.cons.inj (hwhole.trans hc)
        cases hpaired
      · cases hwhole.trans hc
  | string hcontent =>
      obtain ⟨-, rfl⟩ := List.cons.inj hwhole
      simp
  | whole hne hdigits =>
      subst hwhole
      exact absurd (List.forall_mem_cons.1 hdigits).1 (by decide)
  | fraction hne hdigits hmore hdigits' =>
      obtain ⟨digit, digits, rfl⟩ := List.exists_cons_of_ne_nil hne
      obtain ⟨rfl, -⟩ := List.cons.inj hwhole
      exact absurd (List.forall_mem_cons.1 hdigits).1 (by decide)
  | word hfirst hfollowing hsymbol =>
      obtain ⟨rfl, -⟩ := List.cons.inj hwhole
      exact absurd hfirst (by decide)
  | comment hcontent => cases hwhole
  | blank hblank =>
      obtain ⟨rfl, -⟩ := List.cons.inj hwhole
      exact absurd hblank (by decide)

end Lexeme

namespace Segment

open Decimal (isDigit)

/-! ## A segment is a lexeme or one error -/

theorem lexeme_single {c : Char} {symbol : Symbol} (h : single? c = some symbol) :
    Lexeme [c] (.token (.symbol symbol)) := by
  have hmem : (String.ofList [c], symbol) ∈ Symbol.spellings := by
    unfold single? at h
    split at h <;> cases h <;> decide
  simpa using Lexeme.mark hmem

theorem lexeme_paired {c : Char} {alone withEqual : Symbol}
    (h : paired? c = some (alone, withEqual)) :
    Lexeme [c] (.token (.symbol alone)) ∧ Lexeme [c, '='] (.token (.symbol withEqual)) := by
  have hmem : (String.ofList [c], alone) ∈ Symbol.spellings ∧
      (String.ofList [c, '='], withEqual) ∈ Symbol.spellings := by
    unfold paired? at h
    split at h <;> cases h <;> decide
  exact ⟨by simpa using Lexeme.mark hmem.1, by simpa using Lexeme.mark hmem.2⟩

theorem lexeme_slash (following : List Char) :
    Lexeme (slash following).text (slash following).piece := by
  unfold slash
  split
  · rename_i more
    have hline : '\n' ∉ more.takeWhile (· != '\n') := fun hmem => by
      simpa using List.mem_takeWhile_imp hmem
    simpa [run] using Lexeme.comment hline
  · have hmem : ("/", Symbol.slash) ∈ Symbol.spellings := by decide
    exact .mark hmem

theorem lexeme_number {first : Char} (h : isDigit first) (following : List Char) :
    Lexeme (number first following).text (number first following).piece := by
  have hdigits : ∀ c ∈ first :: following.takeWhile isDigit, isDigit c := by
    intro c hc
    rcases List.mem_cons.1 hc with rfl | hc
    · exact h
    · exact List.mem_takeWhile_imp hc
  unfold number
  dsimp only
  split
  · split
    · rename_i digit more hrest hdigit
      refine .fraction (by simp) hdigits (by simp) fun c hc => ?_
      rcases List.mem_cons.1 hc with rfl | hc
      · exact hdigit
      · exact List.mem_takeWhile_imp hc
    · exact .whole (by simp) hdigits
  · exact .whole (by simp) hdigits

theorem lexeme_word {first : Char} (h : isLetter first) (following : List Char) :
    Lexeme (word first following).text (word first following).piece :=
  .word h (fun _ hc => List.mem_takeWhile_imp hc) (Symbol.names_ofWord _)

theorem lexeme_string (following : List Char) :
    Lexeme (string following).text (string following).piece ∨
      '"' ∉ following ∧ string following = ⟨.unterminated, '"' :: following, []⟩ := by
  have hwhole := List.takeWhile_append_dropWhile (p := (· != '"')) (l := following)
  have hinside : '"' ∉ following.takeWhile (· != '"') := fun hmem => by
    simpa using List.mem_takeWhile_imp hmem
  unfold string
  split
  · rename_i hrest
    rw [hrest, List.append_nil] at hwhole
    right
    simp [hwhole, hwhole ▸ hinside]
  · rename_i quote rest hrest
    left
    have hquote : quote = '"' := by
      have hhead := List.head?_dropWhile_not (· != '"') following
      simpa [hrest] using hhead
    subst hquote
    exact .string hinside

/-- What a segment can be, by what its text begins with. -/
theorem lexeme_ofText (first : Char) (following : List Char) :
    Lexeme (ofText first following).text (ofText first following).piece ∨
      (first = '"' ∧ '"' ∉ following ∧
        ofText first following = ⟨.unterminated, '"' :: following, []⟩) ∨
      first ≠ '"' ∧ ofText first following = ⟨.unexpected first, [first], following⟩ := by
  unfold ofText
  split
  · rename_i hsingle
    exact .inl (lexeme_single hsingle)
  · rename_i hpaired
    split
    · exact .inl (lexeme_paired hpaired).2
    · exact .inl (lexeme_paired hpaired).1
  · split
    · exact .inl (lexeme_slash following)
    · split
      · rename_i hquote
        rcases lexeme_string following with hlexeme | hopen
        · exact .inl hlexeme
        · exact .inr (.inl ⟨beq_iff_eq.1 hquote, hopen⟩)
      · rename_i hquote
        split
        · rename_i hblank
          refine .inl (.blank ?_)
          simpa [isBlank, or_assoc, or_comm, or_left_comm] using hblank
        · split
          · rename_i hdigit
            exact .inl (lexeme_number hdigit following)
          · split
            · rename_i hletter
              exact .inl (lexeme_word hletter following)
            · exact .inr (.inr ⟨by simpa using hquote, rfl⟩)

/-- A segment of a text is cut off where the segments before it end, and those
after it are the segments of the rest. -/
theorem all_split {text : List Char} {before after : List Segment} {segment : Segment}
    (h : all text = before ++ segment :: after) :
    ∃ first following, segment = ofText first following ∧ after = all segment.rest ∧
      (before.map Segment.text).flatten ++ first :: following = text := by
  induction before generalizing text with
  | nil =>
      cases text with
      | nil => cases h.symm.trans (by rw [all])
      | cons first following =>
          rw [all, List.nil_append] at h
          obtain ⟨rfl, rfl⟩ := List.cons.inj h
          exact ⟨first, following, rfl, rfl, rfl⟩
  | cons earlier before ih =>
      cases text with
      | nil => cases h.symm.trans (by rw [all])
      | cons first following =>
          rw [all, List.cons_append] at h
          obtain ⟨rfl, hall⟩ := List.cons.inj h
          obtain ⟨c, more, hsegment, hafter, hflatten⟩ := ih hall
          refine ⟨c, more, hsegment, hafter, ?_⟩
          rw [List.map_cons, List.flatten_cons, List.append_assoc, hflatten, ofText_append]

/-- A lexeme that the text begins with is shorter than the first segment, or it
is the first segment. -/
theorem lexeme_le {first : Char} {following text : List Char} {piece : Piece}
    (h : Lexeme text piece) (hstarts : text <+: first :: following) :
    text.length < (ofText first following).text.length ∨
      text = (ofText first following).text ∧ piece = (ofText first following).piece := by
  obtain ⟨rest, hrest⟩ := hstarts
  obtain ⟨c, more, rfl⟩ := List.exists_cons_of_ne_nil h.ne_nil
  obtain ⟨rfl, rfl⟩ : c = first ∧ more ++ rest = following := List.cons.inj hrest
  rcases h.covered with hlonger | hsame
  · exact .inl hlonger
  · right
    rw [hsame]
    exact ⟨rfl, rfl⟩

/-- The first segment of a text is a lexeme if the text begins with any. -/
theorem lexeme_of_prefix {first : Char} {following text : List Char} {piece : Piece}
    (h : Lexeme text piece) (hstarts : text <+: first :: following) :
    Lexeme (ofText first following).text (ofText first following).piece := by
  obtain ⟨c, more, rfl⟩ := List.exists_cons_of_ne_nil h.ne_nil
  rcases lexeme_ofText first following with hlexeme | ⟨rfl, hopen, hsegment⟩ | ⟨-, hsegment⟩
  · exact hlexeme
  · obtain ⟨rfl, hmore⟩ := List.cons_prefix_cons.1 hstarts
    exact absurd (hmore.subset h.quote_mem) hopen
  · rcases lexeme_le h hstarts with hshorter | ⟨-, rfl⟩
    · simp [hsegment] at hshorter
    · generalize hpiece : (ofText first following).piece = piece at h
      rw [hsegment] at hpiece
      subst hpiece
      generalize c :: more = text at h
      cases h

/-- The items of a text with one of its segments brought out. -/
theorem ofSource_split {source : String} {before after : List Segment} {segment : Segment}
    (h : all source.toList = before ++ segment :: after) :
    Item.ofSource source =
      yields 1 before ++ (segment.item? (1 + lineEnds (before ++ [segment]))).toList ++
        items (1 + lineEnds (before ++ [segment])) after := by
  have hline : 1 + lineEnds (before ++ [segment]) =
      1 + lineEnds before + segment.text.count '\n' := by
    simp [lineEnds, Nat.add_assoc]
  rw [Item.ofSource, items_eq, h, yields_append, yields, hline, items_eq]
  simp [lineEnds, Nat.add_assoc]

/-- Wherever a segment starts, it is the longest lexeme that the source goes on
with, and it yields the token of its class, or nothing for comments and blanks.
Where the source goes on with no lexeme it yields one error: the whole rest is a
string without an end, or one character is unexpected. -/
theorem longest_match {source : String} {before after : List Segment} {segment : Segment}
    (h : all source.toList = before ++ segment :: after) :
    let remaining := segment.text ++ segment.rest
    let line := 1 + lineEnds (before ++ [segment])
    (before.map Segment.text).flatten ++ remaining = source.toList ∧
      Item.ofSource source =
        yields 1 before ++ (segment.item? line).toList ++ items line after ∧
      ((∃ text piece, Lexeme text piece ∧ text <+: remaining) →
        Lexeme segment.text segment.piece ∧
          (∀ text piece, Lexeme text piece → text <+: remaining →
            text.length < segment.text.length ∨
              text = segment.text ∧ piece = segment.piece) ∧
          segment.item? line =
            match segment.piece with
            | .token kind => some (.ok ⟨kind, String.ofList segment.text, line⟩)
            | _ => none) ∧
      ((∀ text piece, Lexeme text piece → ¬ text <+: remaining) →
        ∃ first following diagnostic, remaining = first :: following ∧
          segment.item? line = some (.error diagnostic) ∧ diagnostic.line = line ∧
          if first = '"' then
            segment.text = remaining ∧ diagnostic.message = "Unterminated string."
          else
            segment.text = [first] ∧
              diagnostic.message = "Unexpected character: " ++ String.singleton first) := by
  obtain ⟨first, following, rfl, -, hflatten⟩ := all_split h
  have hremaining := ofText_append first following
  simp only [hremaining]
  refine ⟨hflatten, ofSource_split h, ?_, fun hnone => ?_⟩
  · rintro ⟨text, piece, hlexeme, hstarts⟩
    have hsegment := lexeme_of_prefix hlexeme hstarts
    refine ⟨hsegment, fun _ _ => lexeme_le, ?_⟩
    unfold item?
    generalize ofText first following = segment at hsegment ⊢
    obtain ⟨piece, text, rest⟩ := segment
    change Lexeme text piece at hsegment
    cases hsegment <;> rfl
  · rcases lexeme_ofText first following with hlexeme | ⟨rfl, -, hsegment⟩ | ⟨hquote, hsegment⟩
    · exact absurd ⟨_, hremaining⟩ (hnone _ _ hlexeme)
    · rw [hsegment]
      refine ⟨_, _, _, rfl, rfl, rfl, ?_⟩
      rw [if_pos rfl]
      exact ⟨rfl, rfl⟩
    · rw [hsegment]
      refine ⟨_, _, _, rfl, rfl, rfl, ?_⟩
      rw [if_neg hquote]
      exact ⟨rfl, LexicalError.message_unexpected first⟩

/-- A comparison with an equals sign is one lexeme; the quotation mark behind it
opens a string that takes all the rest. -/
theorem longest_match_of_comparison :
    let source := "x>=\"\n>"
    let name : Segment := ⟨.token (.symbol .identifier), ['x'], ['>', '=', '"', '\n', '>']⟩
    let comparison : Segment := ⟨.token (.symbol .greaterEqual), ['>', '='], ['"', '\n', '>']⟩
    let string : Segment := ⟨.unterminated, ['"', '\n', '>'], []⟩
    all source.toList = [name, comparison, string] ∧
      Lexeme ['>', '='] (.token (.symbol .greaterEqual)) ∧
      (∀ text piece, Lexeme text piece → text <+: ['>', '=', '"', '\n', '>'] →
        text.length < 2 ∨ text = ['>', '='] ∧ piece = .token (.symbol .greaterEqual)) ∧
      Item.ofSource source =
        yields 1 [name, comparison] ++ [.error (.lexical 2 .unterminatedString)] ++ items 2 [] := by
  intro source name comparison string
  have hall : all source.toList = [name, comparison, string] := by
    have htext : source.toList = ['x', '>', '=', '"', '\n', '>'] := by decide
    have hname : ofText 'x' name.rest = name := rfl
    have hcomparison : ofText '>' ('=' :: string.text) = comparison := rfl
    have hstring : ofText '"' ['\n', '>'] = string := rfl
    rw [htext, all, hname, all, hcomparison, all, hstring, all]
  have hmark : Lexeme ['>', '='] (.token (.symbol .greaterEqual)) :=
    (lexeme_paired (c := '>') rfl).2
  obtain ⟨-, -, hlexeme, -⟩ := @longest_match source [name] _ _ hall
  obtain ⟨hcomparison, hlongest, -⟩ := hlexeme ⟨_, _, hmark, ['"', '\n', '>'], rfl⟩
  obtain ⟨-, hitems, -, -⟩ := @longest_match source [name, comparison] _ _ hall
  exact ⟨hall, hcomparison, hlongest, hitems⟩

end Segment

end Lox
