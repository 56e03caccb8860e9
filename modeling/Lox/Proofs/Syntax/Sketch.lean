import Lox.Proofs.Decimal.Distinct
import Lox.Proofs.Syntax.Legible
import Lox.Proofs.Syntax.Outline

/-!
# Sketches of trees

The sketch of a tree is an outline with the same parts, and the parenthesised form of
the tree is its text.  The sketch of a legible tree is plain, so that its text is read
uniquely.
-/

namespace Lox

open Outline

/-! ## Sketches -/

/-- A word for each of the tokens. -/
def Token.sketches (tokens : List Token) : List Outline :=
  tokens.map fun token => .word token.lexeme

mutual

def Expr.sketch : Expr → Outline
  | .literal value => .word value.outline
  | .grouping inner => form "group" [inner.sketch]
  | .unary operator operand => form operator.lexeme [operand.sketch]
  | .binary left operator right => form operator.lexeme [left.sketch, right.sketch]
  | .logical left operator right => form operator.lexeme [left.sketch, right.sketch]
  | .reference _ name => .word name.lexeme
  | .assign _ name value => form "=" [.word name.lexeme, value.sketch]
  | .receiver _ _ => .word "this"
  | .get object name => form "." [object.sketch, .word name.lexeme]
  | .set object name value =>
    form "=" [form "." [object.sketch, .word name.lexeme], value.sketch]
  | .call callee _ arguments => form "call" (callee.sketch :: Expr.sketches arguments)
  | .list _ elements => form "list" (Expr.sketches elements)
termination_by structural e => e

def Expr.sketches : List Expr → List Outline
  | [] => []
  | e :: es => e.sketch :: Expr.sketches es
termination_by structural es => es

end

mutual

def Stmt.sketch : Stmt → Outline
  | .expression value => form ";" [value.sketch]
  | .print value => form "print" [value.sketch]
  | .declare name none => form "var" [.word name.lexeme]
  | .declare name (some initializer) => form "var" [.word name.lexeme, initializer.sketch]
  | .block body => form "block" (Stmt.sketches body)
  | .branch condition thenBranch none => form "if" [condition.sketch, thenBranch.sketch]
  | .branch condition thenBranch (some elseBranch) =>
    form "if" [condition.sketch, thenBranch.sketch, elseBranch.sketch]
  | .loop condition body => form "while" [condition.sketch, body.sketch]
  | .leave _ => form "break" []
  | .function declaration => declaration.sketch "fun"
  | .giveBack _ none => form "return" []
  | .giveBack _ (some value) => form "return" [value.sketch]
  | .classDecl name methods =>
    form "class" (.word name.lexeme :: FunctionDecl.sketches "method" methods)
termination_by structural s => s

def Stmt.sketches : List Stmt → List Outline
  | [] => []
  | s :: ss => s.sketch :: Stmt.sketches ss
termination_by structural ss => ss

/-- The name is the label of the row of parameters. -/
def FunctionDecl.sketch (keyword : String) : FunctionDecl → Outline
  | .mk name parameters body =>
    form keyword (.row name.lexeme (Token.sketches parameters) :: Stmt.sketches body)
termination_by structural declaration => declaration

def FunctionDecl.sketches (keyword : String) : List FunctionDecl → List Outline
  | [] => []
  | d :: ds => d.sketch keyword :: FunctionDecl.sketches keyword ds
termination_by structural ds => ds

end

/-! ## The text of a sketch -/

mutual

theorem Expr.text_sketch : (e : Expr) → e.sketch.text = e.outline
  | .literal _ | .reference _ _ | .receiver _ _ => rfl
  | .grouping inner => by
    rw [sketch, outline, text_form, texts, texts, inner.text_sketch]
  | .unary operator operand => by
    rw [sketch, outline, text_form, texts, texts, operand.text_sketch]
  | .binary left operator right => by
    rw [sketch, outline, text_form, texts, texts, texts, left.text_sketch, right.text_sketch]
  | .logical left operator right => by
    rw [sketch, outline, text_form, texts, texts, texts, left.text_sketch, right.text_sketch]
  | .assign _ name value => by
    rw [sketch, outline, text_form, texts, texts, texts, value.text_sketch, text]
  | .get object name => by
    rw [sketch, outline, text_form, texts, texts, texts, object.text_sketch, text]
  | .set object name value => by
    rw [sketch, outline, text_form, texts, texts, texts, text_form, texts, texts, texts,
      object.text_sketch, value.text_sketch, text]
  | .call callee _ arguments => by
    rw [sketch, outline, text_form, texts, callee.text_sketch, Expr.texts_sketches arguments]
  | .list _ elements => by
    rw [sketch, outline, text_form, Expr.texts_sketches elements]
termination_by structural e => e

theorem Expr.texts_sketches : (es : List Expr) → texts (Expr.sketches es) = Expr.outlines es
  | [] => rfl
  | e :: es => by rw [sketches, outlines, texts, e.text_sketch, Expr.texts_sketches es]
termination_by structural es => es

end

theorem Token.texts_sketches (tokens : List Token) :
    texts (Token.sketches tokens) = tokens.map Token.lexeme := by
  induction tokens with
  | nil => rfl
  | cons token tokens ih => exact congrArg (token.lexeme :: ·) ih

/-- The keyword stands apart from the name, so that it heads the whole. -/
theorem FunctionDecl.parenthesize_heading (keyword : String) (name : Token)
    (parameters : List Token) (parts : List String) :
    parenthesize (FunctionDecl.heading keyword name parameters) parts =
      parenthesize keyword ((row name.lexeme (Token.sketches parameters)).text :: parts) := by
  have hheading : FunctionDecl.heading keyword name parameters =
      keyword ++ " " ++ (row name.lexeme (Token.sketches parameters)).text := by
    simp only [heading, text, Token.texts_sketches, ← String.append_assoc]
    rfl
  rw [hheading, parenthesize, parenthesize, String.intercalate_cons_append,
    String.intercalate_cons_cons]

mutual

theorem Stmt.text_sketch : (s : Stmt) → s.sketch.text = s.outline
  | .declare _ none | .leave _ | .giveBack _ none => rfl
  | .expression value => by
    rw [Stmt.sketch, Stmt.outline, text_form, texts, texts, value.text_sketch]
  | .print value => by
    rw [Stmt.sketch, Stmt.outline, text_form, texts, texts, value.text_sketch]
  | .declare name (some initializer) => by
    rw [Stmt.sketch, Stmt.outline, text_form, texts, texts, texts, initializer.text_sketch, text]
  | .block body => by
    rw [Stmt.sketch, Stmt.outline, text_form, Stmt.texts_sketches body]
  | .branch condition thenBranch none => by
    rw [Stmt.sketch, Stmt.outline, text_form, texts, texts, texts, condition.text_sketch,
      thenBranch.text_sketch]
  | .branch condition thenBranch (some elseBranch) => by
    rw [Stmt.sketch, Stmt.outline, text_form, texts, texts, texts, texts, condition.text_sketch,
      thenBranch.text_sketch, elseBranch.text_sketch]
  | .loop condition body => by
    rw [Stmt.sketch, Stmt.outline, text_form, texts, texts, texts, condition.text_sketch,
      body.text_sketch]
  | .function declaration => by
    rw [Stmt.sketch, Stmt.outline, declaration.text_sketch]
  | .giveBack _ (some value) => by
    rw [Stmt.sketch, Stmt.outline, text_form, texts, texts, value.text_sketch]
  | .classDecl name methods => by
    rw [Stmt.sketch, Stmt.outline, text_form, texts, FunctionDecl.texts_sketches _ methods, text]
termination_by structural s => s

theorem Stmt.texts_sketches : (ss : List Stmt) → texts (Stmt.sketches ss) = Stmt.outlines ss
  | [] => rfl
  | s :: ss => by rw [Stmt.sketches, Stmt.outlines, texts, s.text_sketch, Stmt.texts_sketches ss]
termination_by structural ss => ss

theorem FunctionDecl.text_sketch (keyword : String) :
    (d : FunctionDecl) → (d.sketch keyword).text = d.outline keyword
  | .mk name parameters body => by
    rw [FunctionDecl.sketch, FunctionDecl.outline, FunctionDecl.parenthesize_heading, text_form,
      texts, Stmt.texts_sketches body]
termination_by structural d => d

theorem FunctionDecl.texts_sketches (keyword : String) :
    (ds : List FunctionDecl) →
      texts (FunctionDecl.sketches keyword ds) = FunctionDecl.outlines keyword ds
  | [] => rfl
  | d :: ds => by
    rw [FunctionDecl.sketches, FunctionDecl.outlines, texts, d.text_sketch,
      FunctionDecl.texts_sketches keyword ds]
termination_by structural ds => ds

end

/-! ## Words -/

theorem Symbol.isWord_of_isName {word : String} (h : Symbol.isName word) : isWord word := by
  simp only [Symbol.isName, Bool.and_eq_true] at h
  obtain ⟨⟨hfirst, hcharacters⟩, -⟩ := h
  refine isWord_iff.2 ⟨?_, isPlain_of_all (by decide) hcharacters⟩
  rintro rfl
  cases hfirst

theorem Token.Shows.isWord {symbols : List Symbol} {token : Token} (h : token.Shows symbols)
    (hname : .identifier ∉ symbols) (hwords : (Symbol.words symbols).all Outline.isWord) :
    Outline.isWord token.lexeme :=
  List.all_eq_true.1 hwords _ (h.mem_words hname)

theorem Token.Shows.isWord_name {token : Token} (h : token.Shows [.identifier]) :
    Outline.isWord token.lexeme :=
  Symbol.isWord_of_isName h.isName

theorem Literal.isWord {value : Literal} (h : value.kind.Printable) :
    Outline.isWord value.outline := by
  cases value with
  | nil => decide
  | truth value => cases value <;> decide
  | number value =>
      obtain ⟨hne, hnumeric⟩ := Decimal.outline_number_chars h
      exact isWord_iff.2 ⟨hne, isPlain_of_all (by decide) hnumeric⟩
  | text value => exact h.elim

/-! ## Sketches are plain -/

theorem Outline.plain_form {head : String} {parts : List Outline} (hhead : isWord head)
    (hparts : PlainAll parts) : (form head parts).Plain :=
  ⟨rfl, hhead, hparts⟩

mutual

theorem Expr.plain_sketch : (e : Expr) → e.Legible → e.sketch.Plain
  | .literal _, h => Literal.isWord h
  | .grouping inner, h => plain_form (by decide) ⟨inner.plain_sketch h, trivial⟩
  | .unary _ operand, h =>
    plain_form (h.1.isWord (by decide) (by decide)) ⟨operand.plain_sketch h.2, trivial⟩
  | .binary left _ right, h =>
    plain_form (h.1.isWord (by decide) (by decide))
      ⟨left.plain_sketch h.2.1, right.plain_sketch h.2.2, trivial⟩
  | .logical left _ right, h =>
    plain_form (h.1.isWord (by decide) (by decide))
      ⟨left.plain_sketch h.2.1, right.plain_sketch h.2.2, trivial⟩
  | .reference _ _, h => h.isWord_name
  | .assign _ _ value, h =>
    plain_form (by decide) ⟨h.1.isWord_name, value.plain_sketch h.2, trivial⟩
  | .receiver _ _, _ => by
    rw [sketch, Outline.Plain]
    decide
  | .get object _, h =>
    plain_form (by decide) ⟨object.plain_sketch h.1, h.2.isWord_name, trivial⟩
  | .set object _ value, h =>
    plain_form (by decide)
      ⟨plain_form (by decide) ⟨object.plain_sketch h.1, h.2.1.isWord_name, trivial⟩,
        value.plain_sketch h.2.2, trivial⟩
  | .call callee _ arguments, h =>
    plain_form (by decide) ⟨callee.plain_sketch h.1, Expr.plainAll_sketches arguments h.2.2⟩
  | .list _ elements, h => plain_form (by decide) (Expr.plainAll_sketches elements h.2)
termination_by structural e => e

theorem Expr.plainAll_sketches :
    (es : List Expr) → Expr.LegibleAll es → PlainAll (Expr.sketches es)
  | [], _ => trivial
  | e :: es, h => ⟨e.plain_sketch h.1, Expr.plainAll_sketches es h.2⟩
termination_by structural es => es

end

theorem Token.plainAll_sketches {tokens : List Token}
    (h : ∀ token ∈ tokens, token.Shows [.identifier]) : PlainAll (Token.sketches tokens) := by
  induction tokens with
  | nil => trivial
  | cons token tokens ih =>
      obtain ⟨htoken, htokens⟩ := List.forall_mem_cons.1 h
      exact ⟨htoken.isWord_name, ih htokens⟩

mutual

theorem Stmt.plain_sketch : (s : Stmt) → s.Legible → s.sketch.Plain
  | .expression value, h => plain_form (by decide) ⟨value.plain_sketch h, trivial⟩
  | .print value, h => plain_form (by decide) ⟨value.plain_sketch h, trivial⟩
  | .declare _ none, h => plain_form (by decide) ⟨h.isWord_name, trivial⟩
  | .declare _ (some initializer), h =>
    plain_form (by decide) ⟨h.1.isWord_name, initializer.plain_sketch h.2, trivial⟩
  | .block body, h => plain_form (by decide) (Stmt.plainAll_sketches body h)
  | .branch condition thenBranch none, h =>
    plain_form (by decide) ⟨condition.plain_sketch h.1, thenBranch.plain_sketch h.2, trivial⟩
  | .branch condition thenBranch (some elseBranch), h =>
    plain_form (by decide) ⟨condition.plain_sketch h.1, thenBranch.plain_sketch h.2.1,
      elseBranch.plain_sketch h.2.2, trivial⟩
  | .loop condition body, h =>
    plain_form (by decide) ⟨condition.plain_sketch h.1, body.plain_sketch h.2, trivial⟩
  | .leave _, _ => plain_form (by decide) trivial
  | .function declaration, h => declaration.plain_sketch h (by decide)
  | .giveBack _ none, _ => plain_form (by decide) trivial
  | .giveBack _ (some value), h => plain_form (by decide) ⟨value.plain_sketch h.2, trivial⟩
  | .classDecl _ methods, h =>
    plain_form (by decide)
      ⟨h.1.isWord_name, FunctionDecl.plainAll_sketches methods h.2 (by decide)⟩
termination_by structural s => s

theorem Stmt.plainAll_sketches :
    (ss : List Stmt) → Stmt.LegibleAll ss → PlainAll (Stmt.sketches ss)
  | [], _ => trivial
  | s :: ss, h => ⟨s.plain_sketch h.1, Stmt.plainAll_sketches ss h.2⟩
termination_by structural ss => ss

theorem FunctionDecl.plain_sketch {keyword : String} :
    (d : FunctionDecl) → d.Legible → isWord keyword → (d.sketch keyword).Plain
  | .mk _ _ body, h, hkeyword =>
    plain_form hkeyword
      ⟨⟨(isWord_iff.1 h.1.isWord_name).2, Token.plainAll_sketches h.2.1⟩,
        Stmt.plainAll_sketches body h.2.2⟩
termination_by structural d => d

theorem FunctionDecl.plainAll_sketches {keyword : String} :
    (ds : List FunctionDecl) → FunctionDecl.LegibleAll ds → isWord keyword →
      PlainAll (FunctionDecl.sketches keyword ds)
  | [], _, _ => trivial
  | d :: ds, h, hkeyword =>
    ⟨d.plain_sketch h.1 hkeyword, FunctionDecl.plainAll_sketches ds h.2 hkeyword⟩
termination_by structural ds => ds

end

end Lox
