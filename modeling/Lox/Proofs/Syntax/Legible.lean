import Lox.Proofs.Matching.Shape
import Lox.Proofs.Syntax.Reading.Statement
import Lox.Proofs.Token.Rescanning

/-!
# Legible trees

The lexeme of a token tells its kind, and of most kinds there is one lexeme.  A tree
is legible if this holds of the tokens it records, each is of a kind that belongs
there, and its literals can be told by their printed form.  What is derived from
the tokens of a source is legible, `for` statements included.
-/

namespace Lox

open Segment (isLetter isWordCharacter)

/-- The printed form tells the value: it is no string, whose text could be anything, and
no number that overflowed. -/
def Kind.Printable : Kind → Prop
  | .symbol _ => True
  | .text _ => False
  | .number value => value.isFinite

instance : DecidablePred Kind.Printable
  | .symbol _ => isTrue trivial
  | .text _ => isFalse id
  | .number value => inferInstanceAs (Decidable (value.isFinite = true))

/-! ## Tokens -/

/-- The token is one of the symbols, and its lexeme is one that they are written as. -/
structure Token.Shows (symbols : List Symbol) (token : Token) : Prop where
  lexeme : Lexeme token.lexeme.toList (.token token.kind)
  isAny : token.isAny symbols

/-- The lexemes that stand for the symbols, names apart. -/
def Symbol.words (symbols : List Symbol) : List String :=
  ((spellings ++ reserved).filter (·.2 ∈ symbols)).map Prod.fst

/-- A word that begins with a letter and is not reserved. -/
def Symbol.isName (word : String) : Bool :=
  word.toList.head?.any isLetter && word.toList.all isWordCharacter &&
    reserved.all (·.1 != word)

/-- A text is a token of one kind only. -/
theorem Lexeme.kind_unique {text : List Char} {kind kind' : Kind} (h : Lexeme text (.token kind))
    (h' : Lexeme text (.token kind')) : kind = kind' := by
  obtain ⟨first, following, rfl⟩ := List.exists_cons_of_ne_nil h.ne_nil
  have hsegments := h.ofText_alone.symm.trans h'.ofText_alone
  injection hsegments with hpieces
  injection hpieces

/-- Punctuators, operators and reserved words are written as in the tables, and names
are what is left. -/
theorem Lexeme.symbol_cases {word : String} {symbol : Symbol}
    (h : Lexeme word.toList (.token (.symbol symbol))) :
    (word, symbol) ∈ Symbol.spellings ++ Symbol.reserved ∨
      symbol = .identifier ∧ Symbol.isName word := by
  generalize htext : word.toList = text at h
  cases h with
  | mark hmark =>
      obtain rfl := String.toList_inj.1 htext
      exact .inl (List.mem_append_left _ hmark)
  | @word first following _ hfirst hfollowing hnames =>
      rw [← htext, String.ofList_toList] at hnames
      cases hnames with
      | reserved hmem => exact .inl (List.mem_append_right _ hmem)
      | name hnone =>
          have hcharacters : (first :: following).all isWordCharacter :=
            List.all_eq_true.2 (List.forall_mem_cons.2 ⟨by simp [isWordCharacter, hfirst],
              hfollowing⟩)
          have hunreserved : Symbol.reserved.all (·.1 != word) := by
            refine List.all_eq_true.2 fun entry hentry => bne_iff_ne.2 ?_
            rintro rfl
            exact hnone entry.2 hentry
          refine .inr ⟨rfl, ?_⟩
          simp [Symbol.isName, htext, hfirst, hcharacters, hunreserved]

namespace Token.Shows

variable {symbols symbols' : List Symbol} {token token' : Token}

theorem alike (h : token.Shows symbols) (h' : token'.Shows symbols')
    (heq : token.lexeme = token'.lexeme) : token.Alike token' :=
  ⟨h.lexeme.kind_unique (heq ▸ h'.lexeme), heq, trivial⟩

theorem mem_words (h : token.Shows symbols) (hname : .identifier ∉ symbols) :
    token.lexeme ∈ Symbol.words symbols := by
  obtain ⟨symbol, hsymbol, his⟩ := List.any_eq_true.1 h.isAny
  have hlexeme := h.lexeme
  rw [Grammar.kind_of_is his] at hlexeme
  rcases hlexeme.symbol_cases with hmem | ⟨rfl, -⟩
  · exact List.mem_map.2 ⟨_, List.mem_filter.2 ⟨hmem, by simpa using hsymbol⟩, rfl⟩
  · exact absurd hsymbol hname

/-- Of a symbol that is written in one way there is one token on each line. -/
theorem alike_of_words (h : token.Shows symbols) (h' : token'.Shows symbols)
    (hname : .identifier ∉ symbols) {word : String} (hwords : Symbol.words symbols = [word]) :
    token.Alike token' := by
  have hlexeme := h.mem_words hname
  have hlexeme' := h'.mem_words hname
  rw [hwords, List.mem_singleton] at hlexeme hlexeme'
  exact h.alike h' (hlexeme.trans hlexeme'.symm)

theorem isName (h : token.Shows [.identifier]) : Symbol.isName token.lexeme := by
  obtain ⟨symbol, hsymbol, his⟩ := List.any_eq_true.1 h.isAny
  obtain rfl := List.mem_singleton.1 hsymbol
  have hlexeme := h.lexeme
  rw [Grammar.kind_of_is his] at hlexeme
  rcases hlexeme.symbol_cases with hmem | ⟨-, hname⟩
  · have hnone : ∀ entry ∈ Symbol.spellings ++ Symbol.reserved, entry.2 ≠ .identifier := by
      decide
    exact absurd rfl (hnone _ hmem)
  · exact hname

end Token.Shows

/-! ## Trees -/

mutual

def Expr.Legible : Expr → Prop
  | .literal value => value.kind.Printable
  | .grouping inner => inner.Legible
  | .unary operator operand => operator.Shows Parser.negations ∧ operand.Legible
  | .binary left operator right => operator.Shows Level.strict ∧ left.Legible ∧ right.Legible
  | .logical left operator right => operator.Shows Level.lazy ∧ left.Legible ∧ right.Legible
  | .reference _ name => name.Shows [.identifier]
  | .assign _ name value => name.Shows [.identifier] ∧ value.Legible
  | .receiver _ keyword => keyword.Shows [.thisWord]
  | .get object name => object.Legible ∧ name.Shows [.identifier]
  | .set object name value => object.Legible ∧ name.Shows [.identifier] ∧ value.Legible
  | .call callee closing arguments =>
    callee.Legible ∧ closing.Shows [.rightParen] ∧ Expr.LegibleAll arguments
  | .list closing elements => closing.Shows [.rightBracket] ∧ Expr.LegibleAll elements
termination_by structural e => e

def Expr.LegibleAll : List Expr → Prop
  | [] => True
  | e :: es => e.Legible ∧ Expr.LegibleAll es
termination_by structural es => es

end

mutual

def Stmt.Legible : Stmt → Prop
  | .expression value => value.Legible
  | .print value => value.Legible
  | .declare name none => name.Shows [.identifier]
  | .declare name (some initializer) => name.Shows [.identifier] ∧ initializer.Legible
  | .block body => Stmt.LegibleAll body
  | .branch condition thenBranch none => condition.Legible ∧ thenBranch.Legible
  | .branch condition thenBranch (some elseBranch) =>
    condition.Legible ∧ thenBranch.Legible ∧ elseBranch.Legible
  | .loop condition body => condition.Legible ∧ body.Legible
  | .leave keyword => keyword.Shows [.breakWord]
  | .function declaration => declaration.Legible
  | .giveBack keyword none => keyword.Shows [.returnWord]
  | .giveBack keyword (some value) => keyword.Shows [.returnWord] ∧ value.Legible
  | .classDecl name methods => name.Shows [.identifier] ∧ FunctionDecl.LegibleAll methods
termination_by structural s => s

def Stmt.LegibleAll : List Stmt → Prop
  | [] => True
  | s :: ss => s.Legible ∧ Stmt.LegibleAll ss
termination_by structural ss => ss

def FunctionDecl.Legible : FunctionDecl → Prop
  | .mk name parameters body =>
    name.Shows [.identifier] ∧ (∀ parameter ∈ parameters, parameter.Shows [.identifier]) ∧
      Stmt.LegibleAll body
termination_by structural declaration => declaration

def FunctionDecl.LegibleAll : List FunctionDecl → Prop
  | [] => True
  | d :: ds => d.Legible ∧ FunctionDecl.LegibleAll ds
termination_by structural ds => ds

end

/-! ## What is derived from a source -/

/-- A token of a source that can be printed. -/
structure Token.Legible (token : Token) : Prop where
  lexeme : Lexeme token.lexeme.toList (.token token.kind)
  printable : token.kind.Printable

namespace Token.Legible

variable {token : Token}

theorem shows {symbols : List Symbol} (h : token.Legible) (his : token.isAny symbols) :
    token.Shows symbols :=
  ⟨h.lexeme, his⟩

theorem showsOne {symbol : Symbol} (h : token.Legible) (his : token.is symbol) :
    token.Shows [symbol] :=
  ⟨h.lexeme, List.any_eq_true.2 ⟨symbol, List.mem_singleton_self _, his⟩⟩

end Token.Legible

theorem Expr.legible_build {level : Level} {operator : Token} {left right : Expr}
    (hlevel : level ∈ Level.all) (hoperator : operator.isAny level.operators)
    (hlexeme : operator.Legible) (hleft : left.Legible) (hright : right.Legible) :
    (level.build left operator right).Legible := by
  rw [Level.build]
  split
  · rename_i hlazy
    have hmem := List.mem_filter.2 ⟨hlevel, hlazy⟩
    exact ⟨hlexeme.shows (Level.isAny_flatMap hmem hoperator), hleft, hright⟩
  · rename_i hstrict
    have hmem : level ∈ Level.all.filter (!·.isLogical) :=
      List.mem_filter.2 ⟨hlevel, by simpa using hstrict⟩
    exact ⟨hlexeme.shows (Level.isAny_flatMap hmem hoperator), hleft, hright⟩

namespace Grammar

/-- All the tokens are legible. -/
abbrev Legible (tokens : List Token) : Prop :=
  ∀ token ∈ tokens, token.Legible

namespace Legible

variable {token : Token} {tokens further : List Token}

theorem head (h : Legible (token :: tokens)) : token.Legible :=
  h token List.mem_cons_self

theorem tail (h : Legible (token :: tokens)) : Legible tokens :=
  fun other hother => h other (List.mem_cons_of_mem _ hother)

theorem left (h : Legible (tokens ++ further)) : Legible tokens :=
  fun token htoken => h token (List.mem_append_left _ htoken)

theorem right (h : Legible (tokens ++ further)) : Legible further :=
  fun token htoken => h token (List.mem_append_right _ htoken)

end Legible

mutual

theorem Expression.legible {lower upper : Nat} {tokens : List Token} {e : Expr} :
    Expression lower tokens upper e → Legible tokens → e.Legible
  | .operand h, htokens => h.legible List.suffix_rfl htokens
  | .assign hname _ hvalue, htokens =>
    ⟨htokens.head.showsOne hname, hvalue.legible htokens.tail.tail⟩
  | .set hobject _ hname _ hvalue, htokens =>
    have hbehind := htokens.right.tail
    ⟨hobject.legible htokens.left, hbehind.head.showsOne hname, hvalue.legible hbehind.tail.tail⟩

theorem Operand.legible {levels : List Level} {lower upper : Nat} {tokens : List Token} {e : Expr} :
    Operand levels lower tokens upper e → levels <:+ Level.all → Legible tokens → e.Legible
  | .tighter h, hlevels, htokens => h.legible ((List.suffix_cons _ _).trans hlevels) htokens
  | .joined hleft hoperator hright, hlevels, htokens =>
    have htighter := (List.suffix_cons _ _).trans hlevels
    Expr.legible_build (hlevels.subset List.mem_cons_self) hoperator htokens.right.head
      (hleft.legible hlevels htokens.left) (hright.legible htighter htokens.right.tail)
  | .unary hoperator h, hlevels, htokens =>
    ⟨htokens.head.shows hoperator, h.legible hlevels htokens.tail⟩
  | .call h, _, htokens => h.legible htokens

theorem Call.legible {lower upper : Nat} {tokens : List Token} {e : Expr} :
    Call lower tokens upper e → Legible tokens → e.Legible
  | .literal hkind, htokens => hkind.subst htokens.head.printable
  | .reference hname, htokens => htokens.head.showsOne hname
  | .receiver hkeyword, htokens => htokens.head.showsOne hkeyword
  | .grouping _ h _, htokens => h.legible htokens.tail.left
  | .list _ h hclosing, htokens =>
    ⟨htokens.tail.right.head.showsOne hclosing, h.legible htokens.tail.left⟩
  | .call hcallee _ h hclosing, htokens =>
    have hbehind := htokens.right.tail
    ⟨hcallee.legible htokens.left, hbehind.right.head.showsOne hclosing, h.legible hbehind.left⟩
  | .get hobject _ hname, htokens =>
    ⟨hobject.legible htokens.left, htokens.right.tail.head.showsOne hname⟩

theorem Arguments.legible {lower upper : Nat} {tokens : List Token} {es : List Expr} :
    Arguments lower tokens upper es → Legible tokens → Expr.LegibleAll es
  | .none, _ => trivial
  | .some h _, htokens => h.legible htokens

theorem Sequence.legible {lower upper : Nat} {tokens : List Token} {es : List Expr} :
    Sequence lower tokens upper es → Legible tokens → Expr.LegibleAll es
  | .last h, htokens => ⟨h.legible htokens, trivial⟩
  | .cons h _ hes, htokens => ⟨h.legible htokens.left, hes.legible htokens.right.tail⟩

end

theorem Names.legible {tokens names : List Token} (h : Names tokens names)
    (htokens : Legible tokens) : ∀ name ∈ names, name.Shows [.identifier] := by
  induction h with
  | last hname => exact List.forall_mem_singleton.2 (htokens.head.showsOne hname)
  | cons hname _ _ ih =>
      exact List.forall_mem_cons.2 ⟨htokens.head.showsOne hname, ih htokens.tail.tail⟩

theorem Parameters.legible {tokens names : List Token} (h : Parameters tokens names)
    (htokens : Legible tokens) : ∀ name ∈ names, name.Shows [.identifier] := by
  cases h with
  | none => exact List.forall_mem_nil _
  | some h _ => exact h.legible htokens

theorem Variable.legible {lower upper : Nat} {tokens : List Token} {s : Stmt}
    (h : Variable lower tokens upper s) (htokens : Legible tokens) : s.Legible := by
  cases h with
  | plain hname _ => exact htokens.head.showsOne hname
  | initialized hname _ h _ =>
      exact ⟨htokens.head.showsOne hname, h.legible htokens.tail.tail.left⟩

theorem Clause.legible {lower upper : Nat} {tokens : List Token} {clause : Option Expr}
    (h : Clause lower tokens upper clause) (htokens : Legible tokens) :
    ∀ e ∈ clause, e.Legible := by
  cases h with
  | none => exact nofun
  | some h =>
      rintro _ ⟨⟩
      exact h.legible htokens

theorem ForInitializer.legible {lower upper : Nat} {tokens : List Token}
    {initializer : Option Stmt} (h : ForInitializer lower tokens upper initializer)
    (htokens : Legible tokens) : ∀ s ∈ initializer, s.Legible := by
  cases h with
  | none _ => exact nofun
  | variableDecl _ h =>
      rintro _ ⟨⟩
      exact h.legible htokens.tail
  | expression h _ =>
      rintro _ ⟨⟩
      exact h.legible htokens.left

/-- A `for` statement leaves no tokens of its own in the tree. -/
theorem legible_forLoop {initializer : Option Stmt} {condition increment : Option Expr}
    {body : Stmt} (hinitializer : ∀ s ∈ initializer, s.Legible)
    (hcondition : ∀ e ∈ condition, e.Legible) (hincrement : ∀ e ∈ increment, e.Legible)
    (hbody : body.Legible) : (Stmt.forLoop initializer condition increment body).Legible := by
  have htest : (condition.getD (.literal (.truth true))).Legible := by
    cases condition with
    | none => trivial
    | some e => exact hcondition e rfl
  cases increment with
  | none =>
      cases initializer with
      | none => exact ⟨htest, hbody⟩
      | some s => exact ⟨hinitializer s rfl, ⟨htest, hbody⟩, trivial⟩
  | some e =>
      have hround : (Stmt.block [body, .expression e]).Legible :=
        ⟨hbody, hincrement e rfl, trivial⟩
      cases initializer with
      | none => exact ⟨htest, hround⟩
      | some s => exact ⟨hinitializer s rfl, ⟨htest, hround⟩, trivial⟩

mutual

theorem Statement.legible {dangling : Bool} {lower upper : Nat} {tokens : List Token} {s : Stmt} :
    Statement dangling lower tokens upper s → Legible tokens → s.Legible
  | .expression h _, htokens => h.legible htokens.left
  | .print _ h _, htokens => h.legible htokens.tail.left
  | .giveBack hkeyword .none _, htokens => htokens.head.showsOne hkeyword
  | .giveBack hkeyword (.some h) _, htokens =>
    ⟨htokens.head.showsOne hkeyword, h.legible htokens.tail.left⟩
  | .leave hkeyword _, htokens => htokens.head.showsOne hkeyword
  | .block _ h _, htokens => h.legible htokens.tail.left
  | .loop _ _ hcondition _ h, htokens =>
    have hinside := htokens.tail.tail
    ⟨hcondition.legible hinside.left, h.legible hinside.right.tail⟩
  | .forLoop _ _ hinitializer hcondition _ hincrement _ h, htokens =>
    have hinside := htokens.tail.tail
    have hbehind := hinside.right.right.tail
    legible_forLoop (hinitializer.legible hinside.left) (hcondition.legible hinside.right.left)
      (hincrement.legible hbehind.left) (h.legible hbehind.right.tail)
  | .branch _ _ hcondition _ h, htokens =>
    have hinside := htokens.tail.tail
    ⟨hcondition.legible hinside.left, h.legible hinside.right.tail⟩
  | .branchElse _ _ hcondition _ h _ h', htokens =>
    have hinside := htokens.tail.tail
    have hbranches := hinside.right.tail
    ⟨hcondition.legible hinside.left, h.legible hbranches.left, h'.legible hbranches.right.tail⟩

theorem Declaration.legible {dangling : Bool} {lower upper : Nat} {tokens : List Token}
    {s : Stmt} : Declaration dangling lower tokens upper s → Legible tokens → s.Legible
  | .statement h, htokens => h.legible htokens
  | .variableDecl _ h, htokens => h.legible htokens.tail
  | .function _ h, htokens => h.legible htokens.tail
  | .classDecl _ hname _ h _, htokens =>
    ⟨htokens.tail.head.showsOne hname, h.legible htokens.tail.tail.tail.left⟩

theorem Declarations.legible {lower upper : Nat} {tokens : List Token} {ss : List Stmt} :
    Declarations lower tokens upper ss → Legible tokens → Stmt.LegibleAll ss
  | .nil, _ => trivial
  | .cons h hrest, htokens => ⟨h.legible htokens.left, hrest.legible htokens.right⟩

theorem Callable.legible {lower upper : Nat} {tokens : List Token} {d : FunctionDecl} :
    Callable lower tokens upper d → Legible tokens → d.Legible
  | .mk hname _ hparameters _ _ h _, htokens =>
    have hinside := htokens.tail.tail
    ⟨htokens.head.showsOne hname, hparameters.legible hinside.left,
      h.legible hinside.right.tail.tail.left⟩

theorem Methods.legible {lower upper : Nat} {tokens : List Token} {ds : List FunctionDecl} :
    Methods lower tokens upper ds → Legible tokens → FunctionDecl.LegibleAll ds
  | .nil, _ => trivial
  | .cons h hrest, htokens => ⟨h.legible htokens.left, hrest.legible htokens.right⟩

end

end Grammar

theorem Stmt.LegibleAll.of_mem {ss : List Stmt} (h : Stmt.LegibleAll ss) {s : Stmt}
    (hs : s ∈ ss) : s.Legible := by
  induction ss with
  | nil => cases hs
  | cons _ ss ih =>
      rcases List.mem_cons.1 hs with rfl | hs
      · exact h.1
      · exact ih h.2 hs

/-- What is read from a source without an error is legible, if its tokens can be
printed. -/
theorem Parsed.legible_ofSource {source : String} {next : Nat}
    (hclean : (ofSource source next).diagnostics = [])
    (hprintable : ∀ token ∈ (TokenStream.ofSource source).1.body, token.kind.Printable) :
    ∀ s ∈ (ofSource source next).statements, s.Legible := by
  have hderived := Parser.declarations_of_ofStream (TokenStream.ending_ofSource source)
    (clean_of_ofSource hclean).2
  intro s hs
  exact (hderived.legible fun token htoken =>
    ⟨TokenStream.lexeme_ofSource htoken, hprintable token htoken⟩).of_mem hs

end Lox
