import Lox.Syntax.Parser
import Mathlib.Computability.Language

/-!
# The grammar in phrases

The grammar as it is written down, with alternatives, optional parts and
repetition, and the words that it derives.  It is wider than the parser in two
points: whatever is no assignment may stand to the left of `=`, and lists may
be of any length.  So it says where reading is interrupted, and nothing else.
-/

namespace Lox

/-- What a single token of the grammar is written as. -/
inductive Terminal where
  | symbol (symbol : Symbol)
  | text
  | number
  deriving DecidableEq, Repr

def Terminal.fits : Terminal → Kind → Bool
  | .symbol s, .symbol t => s == t
  | .text, .text _ => true
  | .number, .number _ => true
  | _, _ => false

/-- The tokens that are expressions by themselves. -/
def Terminal.atoms : List Terminal :=
  [.number, .text, .symbol .trueWord, .symbol .falseWord, .symbol .nilWord, .symbol .thisWord,
    .symbol .identifier]

inductive Nonterminal where
  | program
  | declaration
  | classDecl
  | funDecl
  | callable
  | parameters
  | varDecl
  | statement
  | exprStmt
  | forStmt
  | ifStmt
  | printStmt
  | returnStmt
  | whileStmt
  | breakStmt
  | block
  | expression
  | assignment
  | logicOr
  | logicAnd
  | equality
  | comparison
  | term
  | factor
  | unary
  | call
  | arguments
  | primary
  deriving DecidableEq, Repr

/-- The right-hand side of a rule, or a part of it. -/
inductive Phrase where
  /-- One token, which is any of the terminals. -/
  | token (terminals : List Terminal)
  | rule (nonterminal : Nonterminal)
  | seq (first second : Phrase)
  | alt (left right : Phrase)
  | opt (inner : Phrase)
  | many (inner : Phrase)
  deriving DecidableEq, Repr

namespace Phrase

def word (symbol : Symbol) : Phrase :=
  token [.symbol symbol]

def words (symbols : List Symbol) : Phrase :=
  token (symbols.map .symbol)

def inOrder : List Phrase → Phrase
  | [] => opt (token [])
  | [p] => p
  | p :: q :: ps => seq p (inOrder (q :: ps))

def oneOf : List Phrase → Phrase
  | [] => token []
  | [p] => p
  | p :: q :: ps => alt p (oneOf (q :: ps))

/-- One or more of the same, with a separator before each but the first. -/
def separated (separator inner : Phrase) : Phrase :=
  inOrder [inner, many (inOrder [separator, inner])]

end Phrase

open Phrase in
/-- The rules. -/
def Nonterminal.body : Nonterminal → Phrase
  | program => inOrder [many (rule declaration), word .endOfFile]
  | declaration => oneOf [rule classDecl, rule funDecl, rule varDecl, rule statement]
  | classDecl =>
    inOrder [word .classWord, word .identifier, word .leftBrace, many (rule callable),
      word .rightBrace]
  | funDecl => inOrder [word .funWord, rule callable]
  | callable =>
    inOrder [word .identifier, word .leftParen, opt (rule parameters), word .rightParen,
      rule block]
  | parameters => separated (word .comma) (word .identifier)
  | varDecl =>
    inOrder [word .varWord, word .identifier, opt (inOrder [word .equal, rule expression]),
      word .semicolon]
  | statement =>
    oneOf [rule forStmt, rule ifStmt, rule printStmt, rule returnStmt, rule whileStmt,
      rule breakStmt, rule block, rule exprStmt]
  | exprStmt => inOrder [rule expression, word .semicolon]
  | forStmt =>
    inOrder [word .forWord, word .leftParen,
      oneOf [rule varDecl, rule exprStmt, word .semicolon],
      opt (rule expression), word .semicolon, opt (rule expression), word .rightParen,
      rule statement]
  | ifStmt =>
    inOrder [word .ifWord, word .leftParen, rule expression, word .rightParen, rule statement,
      opt (inOrder [word .elseWord, rule statement])]
  | printStmt => inOrder [word .printWord, rule expression, word .semicolon]
  | returnStmt => inOrder [word .returnWord, opt (rule expression), word .semicolon]
  | whileStmt =>
    inOrder [word .whileWord, word .leftParen, rule expression, word .rightParen,
      rule statement]
  | breakStmt => inOrder [word .breakWord, word .semicolon]
  | block => inOrder [word .leftBrace, many (rule declaration), word .rightBrace]
  | expression => rule assignment
  | assignment => inOrder [rule logicOr, opt (inOrder [word .equal, rule assignment])]
  | logicOr => separated (words [.orWord]) (rule logicAnd)
  | logicAnd => separated (words [.andWord]) (rule equality)
  | equality => separated (words [.bangEqual, .equalEqual]) (rule comparison)
  | comparison => separated (words [.greater, .greaterEqual, .less, .lessEqual]) (rule term)
  | term => separated (words [.minus, .plus]) (rule factor)
  | factor => separated (words [.slash, .star]) (rule unary)
  | unary => oneOf [inOrder [words [.bang, .minus], rule unary], rule call]
  | call =>
    inOrder [rule primary, many (oneOf [
      inOrder [word .leftParen, opt (rule arguments), word .rightParen],
      inOrder [word .dot, word .identifier]])]
  | arguments => separated (word .comma) (rule expression)
  | primary =>
    oneOf [
      token Terminal.atoms,
      inOrder [word .leftParen, rule expression, word .rightParen],
      inOrder [word .leftBracket, opt (rule arguments), word .rightBracket]]

namespace Phrase

/-- The words of a phrase. -/
inductive Derives : Phrase → List Token → Prop
  | token {terminals : List Terminal} {token : Token} :
      terminals.any (·.fits token.kind) → Derives (.token terminals) [token]
  | rule {nonterminal : Nonterminal} {tokens : List Token} :
      Derives nonterminal.body tokens → Derives (.rule nonterminal) tokens
  | seq {p q : Phrase} {before after : List Token} :
      Derives p before → Derives q after → Derives (.seq p q) (before ++ after)
  | left {p q : Phrase} {tokens : List Token} : Derives p tokens → Derives (.alt p q) tokens
  | right {p q : Phrase} {tokens : List Token} : Derives q tokens → Derives (.alt p q) tokens
  | absent {p : Phrase} : Derives (.opt p) []
  | present {p : Phrase} {tokens : List Token} : Derives p tokens → Derives (.opt p) tokens
  | done {p : Phrase} : Derives (.many p) []
  | more {p : Phrase} {before after : List Token} :
      Derives p before → Derives (.many p) after → Derives (.many p) (before ++ after)

def language (p : Phrase) : Language Token :=
  {tokens | p.Derives tokens}

end Phrase

/-- A program, with the end-of-file token. -/
def Sentence (tokens : List Token) : Prop :=
  tokens ∈ (Phrase.rule .program).language

namespace Phrase

variable {p q : Phrase} {tokens : List Token} {token : Token} {K : Language Token}

theorem mem_language : tokens ∈ p.language ↔ p.Derives tokens :=
  Iff.rfl

theorem language_rule (nonterminal : Nonterminal) :
    (rule nonterminal).language = nonterminal.body.language := by
  ext tokens
  rw [mem_language, mem_language]
  constructor
  · intro h
    cases h with
    | rule h => exact h
  · exact .rule

theorem language_seq (p q : Phrase) : (seq p q).language = p.language * q.language := by
  ext tokens
  rw [Language.mem_mul, mem_language]
  constructor
  · intro h
    cases h with
    | seq hp hq => exact ⟨_, hp, _, hq, rfl⟩
  · rintro ⟨before, hp, after, hq, rfl⟩
    exact .seq hp hq

theorem language_alt (p q : Phrase) : (alt p q).language = p.language + q.language := by
  ext tokens
  rw [Language.mem_add, mem_language]
  constructor
  · intro h
    cases h with
    | left h => exact .inl h
    | right h => exact .inr h
  · rintro (h | h)
    · exact .left h
    · exact .right h

theorem language_opt (p : Phrase) : (opt p).language = p.language + 1 := by
  ext tokens
  rw [Language.mem_add, Language.mem_one, mem_language]
  constructor
  · intro h
    cases h with
    | absent => exact .inr rfl
    | present h => exact .inl h
  · rintro (h | rfl)
    · exact .present h
    · exact .absent

theorem language_many (p : Phrase) :
    (many p).language = p.language * (many p).language + 1 := by
  ext tokens
  rw [Language.mem_add, Language.mem_one, Language.mem_mul, mem_language]
  constructor
  · intro h
    cases h with
    | done => exact .inr rfl
    | more h h' => exact .inl ⟨_, h, _, h', rfl⟩
  · rintro (⟨before, h, after, h', rfl⟩ | rfl)
    · exact .more h h'
    · exact .done

theorem fits_symbol (token : Token) (symbol : Symbol) :
    (Terminal.symbol symbol).fits token.kind = token.is symbol := by
  rw [Token.is]
  cases token.kind with
  | symbol s => exact BEq.comm
  | text _ | number _ => rfl

theorem mem_words (symbols : List Symbol) :
    tokens ∈ (words symbols).language ↔ ∃ token, tokens = [token] ∧ token.isAny symbols := by
  have hfits : ∀ token : Token, (symbols.map .symbol).any (Terminal.fits · token.kind) =
      token.isAny symbols := by
    intro token
    rw [List.any_map, Token.isAny]
    exact congrArg symbols.any (funext (fits_symbol token))
  rw [mem_language]
  constructor
  · intro h
    cases h with
    | @token _ token h => exact ⟨token, rfl, (hfits token).symm.trans h⟩
  · rintro ⟨token, rfl, h⟩
    exact .token ((hfits token).trans h)

theorem cons_mem_words_mul (symbols : List Symbol) :
    token :: tokens ∈ (words symbols).language * K ↔ token.isAny symbols ∧ tokens ∈ K := by
  rw [Language.mem_mul]
  constructor
  · rintro ⟨before, hbefore, after, hafter, happend⟩
    obtain ⟨first, rfl, hany⟩ := (mem_words symbols).1 hbefore
    obtain ⟨rfl, rfl⟩ := List.cons.inj happend
    exact ⟨hany, hafter⟩
  · rintro ⟨hany, hK⟩
    exact ⟨[token], (mem_words symbols).2 ⟨token, rfl, hany⟩, tokens, hK, rfl⟩

theorem language_opt_words (symbols : List Symbol) (p : Phrase) :
    (opt (seq (words symbols) p)).language = (words symbols).language * p.language + 1 := by
  rw [language_opt, language_seq]

theorem language_many_words (symbols : List Symbol) (p : Phrase) :
    (many (seq (words symbols) p)).language =
      (words symbols).language * (seq p (many (seq (words symbols) p))).language + 1 := by
  rw [language_many, language_seq, language_seq, mul_assoc]

/-! ## First tokens -/

/-- Whether the phrase derives the empty word; no rule does. -/
def nullable : Phrase → Bool
  | .token _ => false
  | .rule _ => false
  | .seq p q => p.nullable && q.nullable
  | .alt p q => p.nullable || q.nullable
  | .opt _ => true
  | .many _ => true

end Phrase

namespace Nonterminal

def primaryFirsts : List Terminal :=
  Terminal.atoms ++ [.symbol .leftParen, .symbol .leftBracket]

def expressionFirsts : List Terminal :=
  [.symbol .bang, .symbol .minus] ++ primaryFirsts

def statementFirsts : List Terminal :=
  [.symbol .forWord, .symbol .ifWord, .symbol .printWord, .symbol .returnWord,
    .symbol .whileWord, .symbol .breakWord, .symbol .leftBrace] ++ expressionFirsts

def declarationFirsts : List Terminal :=
  [.symbol .classWord, .symbol .funWord, .symbol .varWord] ++ statementFirsts

/-- The terminals that the words of a rule can begin with. -/
def firsts : Nonterminal → List Terminal
  | program => .symbol .endOfFile :: declarationFirsts
  | declaration => declarationFirsts
  | classDecl => [.symbol .classWord]
  | funDecl => [.symbol .funWord]
  | callable | parameters => [.symbol .identifier]
  | varDecl => [.symbol .varWord]
  | statement => statementFirsts
  | forStmt => [.symbol .forWord]
  | ifStmt => [.symbol .ifWord]
  | printStmt => [.symbol .printWord]
  | returnStmt => [.symbol .returnWord]
  | whileStmt => [.symbol .whileWord]
  | breakStmt => [.symbol .breakWord]
  | block => [.symbol .leftBrace]
  | exprStmt | expression | assignment | logicOr | logicAnd | equality | comparison | term
  | factor | unary | arguments => expressionFirsts
  | call | primary => primaryFirsts

end Nonterminal

namespace Phrase

variable {p q : Phrase} {tokens : List Token} {token : Token} {K : Language Token}

/-- The terminals that the words of a phrase can begin with. -/
def firsts : Phrase → List Terminal
  | .token terminals => terminals
  | .rule nonterminal => nonterminal.firsts
  | .seq p q => p.firsts ++ if p.nullable then q.firsts else []
  | .alt p q => p.firsts ++ q.firsts
  | .opt p => p.firsts
  | .many p => p.firsts

/-- A token of this kind can come first. -/
def starts (p : Phrase) (kind : Kind) : Bool :=
  p.firsts.any (·.fits kind)

theorem nullable_body (nonterminal : Nonterminal) : nonterminal.body.nullable = false := by
  cases nonterminal <;> rfl

theorem firsts_body (nonterminal : Nonterminal) :
    ∀ terminal ∈ nonterminal.body.firsts, terminal ∈ nonterminal.firsts := by
  cases nonterminal <;> decide

theorem starts_mono {kind : Kind} (h : ∀ terminal ∈ p.firsts, terminal ∈ q.firsts)
    (hstarts : p.starts kind) : q.starts kind := by
  rw [starts, List.any_eq_true] at hstarts ⊢
  obtain ⟨terminal, hmem, hfits⟩ := hstarts
  exact ⟨terminal, h terminal hmem, hfits⟩

theorem Derives.nullable_of_nil (h : p.Derives tokens) (hnil : tokens = []) : p.nullable := by
  induction h with
  | token _ => cases hnil
  | rule _ ih =>
      have hbody := ih hnil
      rw [nullable_body] at hbody
      cases hbody
  | seq _ _ ih ih' =>
      obtain ⟨hbefore, hafter⟩ := List.append_eq_nil_iff.1 hnil
      simp [nullable, ih hbefore, ih' hafter]
  | left _ ih => simp [nullable, ih hnil]
  | right _ ih => simp [nullable, ih hnil]
  | absent | present _ _ | done | more _ _ _ _ => rfl

/-- A word begins with one of the first tokens of its phrase. -/
theorem Derives.starts (h : p.Derives tokens) (hhead : tokens.head? = some token) :
    p.starts token.kind := by
  induction h with
  | token hfits =>
      obtain rfl := Option.some.inj hhead
      exact hfits
  | @rule nonterminal _ _ ih => exact starts_mono (firsts_body nonterminal) (ih hhead)
  | @seq p q before after hp _ ih ih' =>
      cases before with
      | nil =>
          have hnullable := hp.nullable_of_nil rfl
          apply starts_mono _ (ih' hhead)
          intro terminal hmem
          simp [firsts, hnullable, hmem]
      | cons first before =>
          apply starts_mono _ (ih hhead)
          intro terminal hmem
          simp [firsts, hmem]
  | left _ ih => exact starts_mono (fun terminal hmem => by simp [firsts, hmem]) (ih hhead)
  | right _ ih => exact starts_mono (fun terminal hmem => by simp [firsts, hmem]) (ih hhead)
  | absent | done => cases hhead
  | present _ ih => exact ih hhead
  | @more p before after _ _ ih ih' =>
      cases before with
      | nil => exact ih' hhead
      | cons first before => exact ih hhead

/-- What begins with a token is begun by the phrase, or goes on behind the empty
word of the phrase. -/
theorem starts_of_mem_mul (h : token :: tokens ∈ p.language * K) :
    p.starts token.kind ∨ p.nullable ∧ token :: tokens ∈ K := by
  obtain ⟨before, hp, after, hK, happend⟩ := Language.mem_mul.1 h
  cases before with
  | nil =>
      obtain rfl : after = token :: tokens := happend
      exact .inr ⟨hp.nullable_of_nil rfl, hK⟩
  | cons first before =>
      obtain ⟨rfl, -⟩ := List.cons.inj happend
      exact .inl (hp.starts rfl)

/-- The phrase derives no word, not even the empty one, where the token is next. -/
def rejects (p : Phrase) (kind : Kind) : Bool :=
  !p.starts kind && !p.nullable

theorem not_mem_of_rejects (h : p.rejects token.kind) : token :: tokens ∉ p.language * K := by
  rw [rejects, Bool.and_eq_true, Bool.not_eq_true', Bool.not_eq_true'] at h
  intro hmem
  rcases starts_of_mem_mul hmem with hstarts | ⟨hnullable, -⟩
  · exact Bool.noConfusion (h.1.symm.trans hstarts)
  · exact Bool.noConfusion (h.2.symm.trans hnullable)

theorem mem_of_not_starts (h : p.starts token.kind = false)
    (hmem : token :: tokens ∈ p.language * K) : token :: tokens ∈ K := by
  rcases starts_of_mem_mul hmem with hstarts | ⟨-, hK⟩
  · exact Bool.noConfusion (h.symm.trans hstarts)
  · exact hK

/-- The only alternative that can be derived where a token of the kind is next, if
there is only one. -/
def narrow : Phrase → Kind → Phrase
  | .alt p q, kind =>
    if p.rejects kind then q.narrow kind
    else if q.rejects kind then p.narrow kind
    else .alt p q
  | p, _ => p

theorem mem_of_mem_narrow {kind : Kind} (h : tokens ∈ (p.narrow kind).language) :
    tokens ∈ p.language := by
  induction p with
  | alt p q ihp ihq =>
      rw [narrow] at h
      split at h
      · exact .right (ihq h)
      · split at h
        · exact .left (ihp h)
        · exact h
  | token _ | rule _ | seq _ _ | opt _ | many _ => exact h

theorem mem_narrow (h : token :: tokens ∈ p.language * K) :
    token :: tokens ∈ (p.narrow token.kind).language * K := by
  induction p with
  | alt p q ihp ihq =>
      rw [language_alt, add_mul, Language.mem_add] at h
      rw [narrow]
      split
      · rename_i hrejects
        exact ihq (h.resolve_left (not_mem_of_rejects hrejects))
      · split
        · rename_i hrejects
          exact ihp (h.resolve_right (not_mem_of_rejects hrejects))
        · rwa [language_alt, add_mul, Language.mem_add]
  | token _ | rule _ | seq _ _ | opt _ | many _ => exact h

/-! ## Words of every phrase -/

/-- How far a rule is from its shortest words. -/
def rank : Nonterminal → Nat
  | .primary => 0
  | .call => 1
  | .unary => 2
  | .factor => 3
  | .term => 4
  | .comparison => 5
  | .equality => 6
  | .logicAnd => 7
  | .logicOr => 8
  | .assignment => 9
  | .expression => 10
  | .program | .classDecl | .parameters | .varDecl | .returnStmt | .breakStmt | .block => 0
  | .callable => 1
  | .statement | .funDecl => 2
  | .declaration => 3
  | .exprStmt | .printStmt | .arguments => 11
  | .forStmt | .ifStmt | .whileStmt => 12

/-- Only rules of a lower rank than the bound are needed for some word. -/
def shallow (bound : Nat) : Phrase → Bool
  | .token terminals => !terminals.isEmpty
  | .rule nonterminal => rank nonterminal < bound
  | .seq p q => p.shallow bound && q.shallow bound
  | .alt p q => p.shallow bound || q.shallow bound
  | .opt _ => true
  | .many _ => true

theorem shallow_body (nonterminal : Nonterminal) :
    nonterminal.body.shallow (rank nonterminal) := by
  cases nonterminal <;> decide

/-- A token of each terminal. -/
theorem Terminal.exists_fits (terminal : Terminal) : ∃ kind, terminal.fits kind := by
  cases terminal with
  | symbol symbol => exact ⟨.symbol symbol, by simp [Terminal.fits]⟩
  | text => exact ⟨.text "", rfl⟩
  | number => exact ⟨.number 0, rfl⟩

theorem exists_derives {bound : Nat} (h : p.shallow bound) : ∃ tokens, p.Derives tokens := by
  induction bound using Nat.strong_induction_on generalizing p with
  | _ bound ih =>
      induction p with
      | token terminals =>
          cases terminals with
          | nil => cases h
          | cons terminal terminals =>
              obtain ⟨kind, hkind⟩ := Terminal.exists_fits terminal
              exact ⟨[⟨kind, "", 0⟩], .token (by simp [hkind])⟩
      | rule nonterminal =>
          obtain ⟨tokens, htokens⟩ := ih (rank nonterminal) (by simpa [shallow] using h)
            (shallow_body nonterminal)
          exact ⟨tokens, .rule htokens⟩
      | seq p q ihp ihq =>
          simp only [shallow, Bool.and_eq_true] at h
          obtain ⟨before, hp⟩ := ihp h.1
          obtain ⟨after, hq⟩ := ihq h.2
          exact ⟨before ++ after, .seq hp hq⟩
      | alt p q ihp ihq =>
          simp only [shallow, Bool.or_eq_true] at h
          rcases h with h | h
          · exact (ihp h).imp fun _ => .left
          · exact (ihq h).imp fun _ => .right
      | opt p _ => exact ⟨[], .absent⟩
      | many p _ => exact ⟨[], .done⟩

/-- Every phrase that uses no empty choice has words, and can be gone on with. -/
theorem nonempty_mul (hshallow : p.shallow 13) (hK : K.Nonempty) :
    (p.language * K).Nonempty := by
  obtain ⟨before, hp⟩ := exists_derives hshallow
  obtain ⟨after, hK⟩ := hK
  exact ⟨before ++ after, Language.mem_mul.2 ⟨before, hp, after, hK, rfl⟩⟩

end Phrase

end Lox
