import Lox.Proofs.Syntax.Sketch

/-!
# The parenthesised form is read uniquely

The sketch of a legible tree tells the tree, apart from the numbers of name occurrences
and the lines of tokens: its head, the number of its parts and whether they are words
tell which kind of expression or statement it is, and the parts tell the rest.  Names
may be spelt like heads, since they never stand where a head does.
-/

namespace Lox

open Outline

/-! ## What the sketch tells -/

/-- The kinds of expression. -/
inductive Expr.Form where
  | literal
  | grouping
  | unary
  | binary
  | logical
  | reference
  | assign
  | receiver
  | get
  | set
  | call
  | list
  deriving DecidableEq

def Expr.form : Expr → Expr.Form
  | .literal _ => .literal
  | .grouping _ => .grouping
  | .unary _ _ => .unary
  | .binary _ _ _ => .binary
  | .logical _ _ _ => .logical
  | .reference _ _ => .reference
  | .assign _ _ _ => .assign
  | .receiver _ _ => .receiver
  | .get _ _ => .get
  | .set _ _ _ => .set
  | .call _ _ _ => .call
  | .list _ _ => .list

/-- The kind of expression that an outline is the sketch of.  Both assignments have the
same head, and a minus sign has one operand or two. -/
def Outline.exprForm : Outline → Expr.Form
  | .word text =>
    if Symbol.isName text then .reference else if text = "this" then .receiver else .literal
  | .row _ (.word "group" :: _) => .grouping
  | .row _ (.word "=" :: .word _ :: _) => .assign
  | .row _ (.word "=" :: _) => .set
  | .row _ (.word "." :: _) => .get
  | .row _ (.word "call" :: _) => .call
  | .row _ (.word "list" :: _) => .list
  | .row _ (.word "and" :: _) => .logical
  | .row _ (.word "or" :: _) => .logical
  | .row _ [_, _] => .unary
  | .row _ _ => .binary

section Operators

variable {operator : Token} (left right : Outline)

theorem Token.Shows.exprForm_unary (h : operator.Shows Parser.negations) :
    (form operator.lexeme [right]).exprForm = .unary := by
  have hwords : Symbol.words Parser.negations = ["-", "!"] := by decide
  have hall : ∀ word ∈ ["-", "!"], (form word [right]).exprForm = .unary := by
    simp [form, exprForm]
  exact hall _ (hwords ▸ h.mem_words (by decide))

theorem Token.Shows.exprForm_binary (h : operator.Shows Level.strict) :
    (form operator.lexeme [left, right]).exprForm = .binary := by
  have hwords : Symbol.words Level.strict =
      ["-", "+", "/", "*", "!=", "==", ">", ">=", "<", "<="] := by decide
  have hall : ∀ word ∈ ["-", "+", "/", "*", "!=", "==", ">", ">=", "<", "<="],
      (form word [left, right]).exprForm = .binary := by
    simp [form, exprForm]
  exact hall _ (hwords ▸ h.mem_words (by decide))

theorem Token.Shows.exprForm_logical (h : operator.Shows Level.lazy) :
    (form operator.lexeme [left, right]).exprForm = .logical := by
  have hwords : Symbol.words Level.lazy = ["and", "or"] := by decide
  have hall : ∀ word ∈ ["and", "or"], (form word [left, right]).exprForm = .logical := by
    simp [form, exprForm]
  exact hall _ (hwords ▸ h.mem_words (by decide))

end Operators

theorem Segment.not_isNumeric_of_isLetter {c : Char} (h : isLetter c) :
    ¬ Decimal.isNumeric c := by
  intro hnumeric
  simp only [Decimal.isNumeric, Bool.or_eq_true, beq_iff_eq] at hnumeric
  rcases hnumeric with (hdigit | rfl) | rfl
  · exact not_isDigit_of_isLetter h hdigit
  · cases h
  · cases h

/-- Neither names nor reserved words are printed numbers. -/
theorem Segment.not_isNumeric_of_head {text : String} (h : text.toList.head?.any isLetter) :
    ¬ text.toList.all Decimal.isNumeric := by
  intro hnumeric
  cases hchars : text.toList with
  | nil => simp [hchars] at h
  | cons first following =>
      rw [hchars] at h hnumeric
      exact not_isNumeric_of_isLetter h (List.all_eq_true.1 hnumeric first List.mem_cons_self)

theorem Literal.exprForm_outline {value : Literal} (h : value.kind.Printable) :
    (Outline.word value.outline).exprForm = .literal := by
  cases value with
  | nil => rfl
  | truth value => cases value <;> rfl
  | number value =>
      have hnumeric := (Decimal.outline_number_chars h).2
      have hname : ¬ Symbol.isName (Literal.number value).outline := by
        intro hname
        simp only [Symbol.isName, Bool.and_eq_true] at hname
        exact Segment.not_isNumeric_of_head hname.1.1 hnumeric
      have hthis : (Literal.number value).outline ≠ "this" := by
        intro hthis
        rw [hthis] at hnumeric
        exact Segment.not_isNumeric_of_head (by decide) hnumeric
      rw [exprForm, if_neg hname, if_neg hthis]
  | text value => exact h.elim

theorem Expr.exprForm_sketch : {e : Expr} → e.Legible → e.sketch.exprForm = e.form
  | .literal _, h => Literal.exprForm_outline h
  | .unary _ operand, h => h.1.exprForm_unary operand.sketch
  | .binary left _ right, h => h.1.exprForm_binary left.sketch right.sketch
  | .logical left _ right, h => h.1.exprForm_logical left.sketch right.sketch
  | .reference _ _, h => if_pos h.isName
  | .receiver _ _, _ | .grouping _, _ | .assign _ _ _, _ | .get _ _, _ | .set _ _ _, _
  | .call _ _ _, _ | .list _ _, _ => rfl

/-- Legible expressions with the same sketch are of one kind. -/
theorem Expr.form_eq {e e' : Expr} (h : e.Legible) (h' : e'.Legible) (heq : e.sketch = e'.sketch) :
    e.form = e'.form := by
  rw [← exprForm_sketch h, heq, exprForm_sketch h']

/-- Printed literals are told apart, strings excepted. -/
theorem Literal.eq_of_outline {value value' : Literal} (h : value.kind.Printable)
    (h' : value'.kind.Printable) (heq : value.outline = value'.outline) : value = value' := by
  have hnumber {x : Float} (hx : x.isFinite) {word : String}
      (hword : word.toList.head?.any Segment.isLetter) : (Literal.number x).outline ≠ word := by
    rintro rfl
    exact Segment.not_isNumeric_of_head hword (Decimal.outline_number_chars hx).2
  cases value with
  | nil =>
    cases value' with
    | nil => rfl
    | truth value' => cases value' <;> exact absurd heq (by decide)
    | number x => exact absurd heq.symm (hnumber h' (by decide))
    | text _ => exact h'.elim
  | truth value =>
    cases value' with
    | nil => cases value <;> exact absurd heq (by decide)
    | truth value' => cases value <;> cases value' <;> first | rfl | exact absurd heq (by decide)
    | number x => cases value <;> exact absurd heq.symm (hnumber h' (by decide))
    | text _ => exact h'.elim
  | number x =>
    cases value' with
    | nil => exact absurd heq (hnumber h (by decide))
    | truth value' => cases value' <;> exact absurd heq (hnumber h (by decide))
    | number y => rw [Decimal.eq_of_outline h h' heq]
    | text _ => exact h'.elim
  | text _ => exact h.elim

mutual

theorem Expr.matches_of_sketch : (e : Expr) → {e' : Expr} → e.Legible → e'.Legible →
    e.sketch = e'.sketch → e.Matches .shape e'
  | .literal _, e', h, h', heq => by
    cases e' with
    | literal _ =>
      obtain rfl := Literal.eq_of_outline h h' (Outline.word.inj heq)
      exact .literal _
    | _ => cases Expr.form_eq h h' heq
  | .grouping inner, e', h, h', heq => by
    cases e' with
    | grouping _ =>
      simp only [Expr.sketch, form_inj, List.cons.injEq, and_true, true_and] at heq
      exact .grouping (inner.matches_of_sketch h h' heq)
    | _ => cases Expr.form_eq h h' heq
  | .unary _ operand, e', h, h', heq => by
    cases e' with
    | unary _ _ =>
      simp only [Expr.sketch, form_inj, List.cons.injEq, and_true] at heq
      exact .unary (h.1.alike h'.1 heq.1) (operand.matches_of_sketch h.2 h'.2 heq.2)
    | _ => cases Expr.form_eq h h' heq
  | .binary left _ right, e', h, h', heq => by
    cases e' with
    | binary _ _ _ =>
      simp only [Expr.sketch, form_inj, List.cons.injEq, and_true] at heq
      exact .binary (left.matches_of_sketch h.2.1 h'.2.1 heq.2.1) (h.1.alike h'.1 heq.1)
        (right.matches_of_sketch h.2.2 h'.2.2 heq.2.2)
    | _ => cases Expr.form_eq h h' heq
  | .logical left _ right, e', h, h', heq => by
    cases e' with
    | logical _ _ _ =>
      simp only [Expr.sketch, form_inj, List.cons.injEq, and_true] at heq
      exact .logical (left.matches_of_sketch h.2.1 h'.2.1 heq.2.1) (h.1.alike h'.1 heq.1)
        (right.matches_of_sketch h.2.2 h'.2.2 heq.2.2)
    | _ => cases Expr.form_eq h h' heq
  | .reference _ _, e', h, h', heq => by
    cases e' with
    | reference _ _ => exact .reference trivial (h.alike h' (Outline.word.inj heq))
    | _ => cases Expr.form_eq h h' heq
  | .assign _ _ value, e', h, h', heq => by
    cases e' with
    | assign _ _ _ =>
      simp only [Expr.sketch, form_inj, List.cons.injEq, Outline.word.injEq, and_true,
        true_and] at heq
      exact .assign trivial (h.1.alike h'.1 heq.1) (value.matches_of_sketch h.2 h'.2 heq.2)
    | _ => cases Expr.form_eq h h' heq
  | .receiver _ _, e', h, h', heq => by
    cases e' with
    | receiver _ _ => exact .receiver trivial (h.alike_of_words h' (by decide) rfl)
    | _ => cases Expr.form_eq h h' heq
  | .get object _, e', h, h', heq => by
    cases e' with
    | get _ _ =>
      simp only [Expr.sketch, form_inj, List.cons.injEq, Outline.word.injEq, and_true,
        true_and] at heq
      exact .get (object.matches_of_sketch h.1 h'.1 heq.1) (h.2.alike h'.2 heq.2)
    | _ => cases Expr.form_eq h h' heq
  | .set object _ value, e', h, h', heq => by
    cases e' with
    | set _ _ _ =>
      simp only [Expr.sketch, form_inj, List.cons.injEq, Outline.word.injEq, and_true,
        true_and] at heq
      exact .set (object.matches_of_sketch h.1 h'.1 heq.1.1) (h.2.1.alike h'.2.1 heq.1.2)
        (value.matches_of_sketch h.2.2 h'.2.2 heq.2)
    | _ => cases Expr.form_eq h h' heq
  | .call callee _ arguments, e', h, h', heq => by
    cases e' with
    | call _ _ _ =>
      simp only [Expr.sketch, form_inj, List.cons.injEq, true_and] at heq
      exact .call (callee.matches_of_sketch h.1 h'.1 heq.1)
        (h.2.1.alike_of_words h'.2.1 (by decide) rfl)
        (Expr.matchesAll_of_sketches arguments h.2.2 h'.2.2 heq.2)
    | _ => cases Expr.form_eq h h' heq
  | .list _ elements, e', h, h', heq => by
    cases e' with
    | list _ _ =>
      simp only [Expr.sketch, form_inj, true_and] at heq
      exact .list (h.1.alike_of_words h'.1 (by decide) rfl)
        (Expr.matchesAll_of_sketches elements h.2 h'.2 heq)
    | _ => cases Expr.form_eq h h' heq
termination_by structural e => e

theorem Expr.matchesAll_of_sketches : (es : List Expr) → {es' : List Expr} →
    Expr.LegibleAll es → Expr.LegibleAll es' → Expr.sketches es = Expr.sketches es' →
      List.Forall₂ (Expr.Matches .shape) es es'
  | [], [], _, _, _ => .nil
  | e :: es, e' :: es', h, h', heq => by
    obtain ⟨hfirst, hrest⟩ := List.cons.inj heq
    exact .cons (e.matches_of_sketch h.1 h'.1 hfirst)
      (Expr.matchesAll_of_sketches es h.2 h'.2 hrest)
termination_by structural es => es

end

/-- The head of a statement's outline. -/
def Stmt.keyword : Stmt → String
  | .expression _ => ";"
  | .print _ => "print"
  | .declare _ _ => "var"
  | .block _ => "block"
  | .branch _ _ _ => "if"
  | .loop _ _ => "while"
  | .leave _ => "break"
  | .function _ => "fun"
  | .giveBack _ _ => "return"
  | .classDecl _ _ => "class"

theorem Stmt.exists_sketch (s : Stmt) : ∃ parts, s.sketch = Outline.form s.keyword parts := by
  cases s with
  | declare _ initializer => cases initializer <;> exact ⟨_, rfl⟩
  | branch _ _ elseBranch => cases elseBranch <;> exact ⟨_, rfl⟩
  | giveBack _ value => cases value <;> exact ⟨_, rfl⟩
  | function declaration =>
    cases declaration
    exact ⟨_, rfl⟩
  | expression _ | print _ | block _ | loop _ _ | leave _ | classDecl _ _ => exact ⟨_, rfl⟩

/-- Statements with the same sketch have the same head. -/
theorem Stmt.keyword_eq {s s' : Stmt} (heq : s.sketch = s'.sketch) : s.keyword = s'.keyword := by
  obtain ⟨parts, hparts⟩ := s.exists_sketch
  obtain ⟨parts', hparts'⟩ := s'.exists_sketch
  rw [hparts, hparts', form_inj] at heq
  exact heq.1

theorem Token.alikeAll_of_sketches {tokens tokens' : List Token}
    (h : ∀ token ∈ tokens, token.Shows [.identifier])
    (h' : ∀ token ∈ tokens', token.Shows [.identifier])
    (heq : Token.sketches tokens = Token.sketches tokens') :
    List.Forall₂ Token.Alike tokens tokens' := by
  induction tokens generalizing tokens' with
  | nil =>
    cases tokens' with
    | nil => exact .nil
    | cons _ _ => cases heq
  | cons token tokens ih =>
    cases tokens' with
    | nil => cases heq
    | cons token' tokens' =>
      obtain ⟨htoken, htokens⟩ := List.forall_mem_cons.1 h
      obtain ⟨htoken', htokens'⟩ := List.forall_mem_cons.1 h'
      obtain ⟨hfirst, hrest⟩ := List.cons.inj heq
      exact .cons (htoken.alike htoken' (Outline.word.inj hfirst)) (ih htokens htokens' hrest)

mutual

theorem Stmt.matches_of_sketch : (s : Stmt) → {s' : Stmt} → s.Legible → s'.Legible →
    s.sketch = s'.sketch → s.Matches .shape s'
  | .expression value, s', h, h', heq => by
    cases s' with
    | expression _ =>
      simp only [Stmt.sketch, form_inj, List.cons.injEq, and_true, true_and] at heq
      exact .expression (value.matches_of_sketch h h' heq)
    | _ => exact absurd (Stmt.keyword_eq heq) (by simp [Stmt.keyword])
  | .print value, s', h, h', heq => by
    cases s' with
    | print _ =>
      simp only [Stmt.sketch, form_inj, List.cons.injEq, and_true, true_and] at heq
      exact .print (value.matches_of_sketch h h' heq)
    | _ => exact absurd (Stmt.keyword_eq heq) (by simp [Stmt.keyword])
  | .declare _ none, s', h, h', heq => by
    cases s' with
    | declare _ initializer' =>
      cases initializer' with
      | none =>
        simp only [Stmt.sketch, form_inj, List.cons.injEq, Outline.word.injEq, and_true,
          true_and] at heq
        exact .declare (h.alike h' heq) .none
      | some _ => simp [Stmt.sketch, form_inj] at heq
    | _ => exact absurd (Stmt.keyword_eq heq) (by simp [Stmt.keyword])
  | .declare _ (some initializer), s', h, h', heq => by
    cases s' with
    | declare _ initializer' =>
      cases initializer' with
      | none => simp [Stmt.sketch, form_inj] at heq
      | some _ =>
        simp only [Stmt.sketch, form_inj, List.cons.injEq, Outline.word.injEq, and_true,
          true_and] at heq
        exact .declare (h.1.alike h'.1 heq.1) (.some (initializer.matches_of_sketch h.2 h'.2 heq.2))
    | _ => exact absurd (Stmt.keyword_eq heq) (by simp [Stmt.keyword])
  | .block body, s', h, h', heq => by
    cases s' with
    | block _ =>
      simp only [Stmt.sketch, form_inj, true_and] at heq
      exact .block (Stmt.matchesAll_of_sketches body h h' heq)
    | _ => exact absurd (Stmt.keyword_eq heq) (by simp [Stmt.keyword])
  | .branch condition thenBranch none, s', h, h', heq => by
    cases s' with
    | branch _ _ elseBranch' =>
      cases elseBranch' with
      | none =>
        simp only [Stmt.sketch, form_inj, List.cons.injEq, and_true, true_and] at heq
        exact .branch (condition.matches_of_sketch h.1 h'.1 heq.1)
          (thenBranch.matches_of_sketch h.2 h'.2 heq.2) .none
      | some _ => simp [Stmt.sketch, form_inj] at heq
    | _ => exact absurd (Stmt.keyword_eq heq) (by simp [Stmt.keyword])
  | .branch condition thenBranch (some elseBranch), s', h, h', heq => by
    cases s' with
    | branch _ _ elseBranch' =>
      cases elseBranch' with
      | none => simp [Stmt.sketch, form_inj] at heq
      | some _ =>
        simp only [Stmt.sketch, form_inj, List.cons.injEq, and_true, true_and] at heq
        exact .branch (condition.matches_of_sketch h.1 h'.1 heq.1)
          (thenBranch.matches_of_sketch h.2.1 h'.2.1 heq.2.1)
          (.some (elseBranch.matches_of_sketch h.2.2 h'.2.2 heq.2.2))
    | _ => exact absurd (Stmt.keyword_eq heq) (by simp [Stmt.keyword])
  | .loop condition body, s', h, h', heq => by
    cases s' with
    | loop _ _ =>
      simp only [Stmt.sketch, form_inj, List.cons.injEq, and_true, true_and] at heq
      exact .loop (condition.matches_of_sketch h.1 h'.1 heq.1)
        (body.matches_of_sketch h.2 h'.2 heq.2)
    | _ => exact absurd (Stmt.keyword_eq heq) (by simp [Stmt.keyword])
  | .leave _, s', h, h', heq => by
    cases s' with
    | leave _ => exact .leave (h.alike_of_words h' (by decide) rfl)
    | _ => exact absurd (Stmt.keyword_eq heq) (by simp [Stmt.keyword])
  | .function declaration, s', h, h', heq => by
    cases s' with
    | function _ => exact .function (declaration.matches_of_sketch h h' heq)
    | _ => exact absurd (Stmt.keyword_eq heq) (by simp [Stmt.keyword])
  | .giveBack _ none, s', h, h', heq => by
    cases s' with
    | giveBack _ value' =>
      cases value' with
      | none => exact .giveBack (h.alike_of_words h' (by decide) rfl) .none
      | some _ => simp [Stmt.sketch, form_inj] at heq
    | _ => exact absurd (Stmt.keyword_eq heq) (by simp [Stmt.keyword])
  | .giveBack _ (some value), s', h, h', heq => by
    cases s' with
    | giveBack _ value' =>
      cases value' with
      | none => simp [Stmt.sketch, form_inj] at heq
      | some _ =>
        simp only [Stmt.sketch, form_inj, List.cons.injEq, and_true, true_and] at heq
        exact .giveBack (h.1.alike_of_words h'.1 (by decide) rfl)
          (.some (value.matches_of_sketch h.2 h'.2 heq))
    | _ => exact absurd (Stmt.keyword_eq heq) (by simp [Stmt.keyword])
  | .classDecl _ methods, s', h, h', heq => by
    cases s' with
    | classDecl _ _ =>
      simp only [Stmt.sketch, form_inj, List.cons.injEq, Outline.word.injEq, true_and] at heq
      exact .classDecl (h.1.alike h'.1 heq.1)
        (FunctionDecl.matchesAll_of_sketches methods h.2 h'.2 heq.2)
    | _ => exact absurd (Stmt.keyword_eq heq) (by simp [Stmt.keyword])
termination_by structural s => s

theorem Stmt.matchesAll_of_sketches : (ss : List Stmt) → {ss' : List Stmt} →
    Stmt.LegibleAll ss → Stmt.LegibleAll ss' → Stmt.sketches ss = Stmt.sketches ss' →
      List.Forall₂ (Stmt.Matches .shape) ss ss'
  | [], [], _, _, _ => .nil
  | s :: ss, s' :: ss', h, h', heq => by
    obtain ⟨hfirst, hrest⟩ := List.cons.inj heq
    exact .cons (s.matches_of_sketch h.1 h'.1 hfirst)
      (Stmt.matchesAll_of_sketches ss h.2 h'.2 hrest)
termination_by structural ss => ss

theorem FunctionDecl.matches_of_sketch : (d : FunctionDecl) → {d' : FunctionDecl} →
    {keyword : String} → d.Legible → d'.Legible → d.sketch keyword = d'.sketch keyword →
      d.Matches .shape d'
  | .mk _ _ body, .mk _ _ _, _, h, h', heq => by
    simp only [FunctionDecl.sketch, form_inj, List.cons.injEq, Outline.row.injEq, true_and] at heq
    exact .mk (h.1.alike h'.1 heq.1.1) (Token.alikeAll_of_sketches h.2.1 h'.2.1 heq.1.2)
      (Stmt.matchesAll_of_sketches body h.2.2 h'.2.2 heq.2)
termination_by structural d => d

theorem FunctionDecl.matchesAll_of_sketches : (ds : List FunctionDecl) →
    {ds' : List FunctionDecl} → {keyword : String} → FunctionDecl.LegibleAll ds →
      FunctionDecl.LegibleAll ds' →
        FunctionDecl.sketches keyword ds = FunctionDecl.sketches keyword ds' →
          List.Forall₂ (FunctionDecl.Matches .shape) ds ds'
  | [], [], _, _, _, _ => .nil
  | d :: ds, d' :: ds', _, h, h', heq => by
    obtain ⟨hfirst, hrest⟩ := List.cons.inj heq
    exact .cons (d.matches_of_sketch h.1 h'.1 hfirst)
      (FunctionDecl.matchesAll_of_sketches ds h.2 h'.2 hrest)
termination_by structural ds => ds

end

/-! ## Unique reading -/

/-- Two statements that were read without an error, from sources without strings and
without numbers that overflowed, have the same parenthesised form.  Then they are the
same tree: they differ in nothing but the numbers of name occurrences and the lines of
tokens. -/
theorem Parsed.matches_of_outline {source source' : String} {next next' : Nat}
    (hclean : (ofSource source next).diagnostics = [])
    (hclean' : (ofSource source' next').diagnostics = [])
    (hprintable : ∀ token ∈ (TokenStream.ofSource source).1.body, token.kind.Printable)
    (hprintable' : ∀ token ∈ (TokenStream.ofSource source').1.body, token.kind.Printable)
    {s s' : Stmt} (hs : s ∈ (ofSource source next).statements)
    (hs' : s' ∈ (ofSource source' next').statements) (houtline : s.outline = s'.outline) :
    s.Matches .shape s' := by
  have hlegible := legible_ofSource hclean hprintable s hs
  have hlegible' := legible_ofSource hclean' hprintable' s' hs'
  rw [← s.text_sketch, ← s'.text_sketch] at houtline
  have hsketch := text_injective (s.plain_sketch hlegible) (s'.plain_sketch hlegible') houtline
  exact s.matches_of_sketch hlegible hlegible' hsketch

/-- A `for` and a `while` loop with numbers that are spelt differently, on one line and
on two.  The names are spelt like heads. -/
theorem Parsed.matches_of_outline_of_loops :
    let parsed := ofSource
      "fun call(list) { for (;;) { if (list) break; else this.list = [-1.50, list - 1.0]; } }" 0
    let parsed' := ofSource
      "fun call(list)\n{ while (true) { if (list) break; else this.list = [-01.5, list - 1]; } }" 3
    let outline := "(fun call(list) (while true (block (if list (break) " ++
      "(; (= (. this list) (list (- 1.5) (- list 1.0))))))))"
    parsed.statements.map Stmt.outline = [outline] ∧
      parsed'.statements.map Stmt.outline = [outline] ∧
      List.Forall₂ (Stmt.Matches .shape) parsed.statements parsed'.statements := by
  intro parsed parsed' outline
  have hclean : parsed.diagnostics = [] := List.isEmpty_iff.1 (by decide +kernel)
  have hclean' : parsed'.diagnostics = [] := List.isEmpty_iff.1 (by decide +kernel)
  have houtline : parsed.statements.map Stmt.outline = [outline] := by decide +kernel
  have houtline' : parsed'.statements.map Stmt.outline = [outline] := by decide +kernel
  obtain ⟨s, hs, hform⟩ := List.map_eq_singleton_iff.1 houtline
  obtain ⟨s', hs', hform'⟩ := List.map_eq_singleton_iff.1 houtline'
  have hmatches : s.Matches .shape s' :=
    matches_of_outline hclean hclean' (by decide +kernel) (by decide +kernel)
      (hs ▸ List.mem_singleton_self s) (hs' ▸ List.mem_singleton_self s') (hform.trans hform'.symm)
  refine ⟨houtline, houtline', ?_⟩
  rw [hs, hs']
  exact .cons hmatches .nil

end Lox
