import Lox.Proofs.Matching.Tree
import Lox.Proofs.Syntax.Inside
import Lox.Proofs.Syntax.Recognition.Statement
import Lox.Proofs.Syntax.Yield

/-!
# Canonical trees are read back

Tokens that fit the leaves of a canonical program derive the program, up to the
numbers of its name occurrences, and so they are read back as that program
without a report.  The derivation is built from the tree: an expression is
derived at every level that asks for no more than it holds together, and a
statement is dangling if it is open.
-/

namespace Lox

open Grammar

/-- Numbers may differ, lines may not. -/
def renumbering : Correspondence where
  ids _ _ := True
  lines := Eq

theorem Token.renumbers (token : Token) : token.Matches renumbering token :=
  ⟨rfl, rfl, rfl⟩

/-! ## Leaves and tokens -/

namespace Leaf

variable {leaves leaves' : List Leaf} {tokens : List Token}

theorem FitAll.split (h : FitAll (leaves ++ leaves') tokens) :
    ∃ before after, tokens = before ++ after ∧ FitAll leaves before ∧ FitAll leaves' after := by
  induction leaves generalizing tokens with
  | nil => exact ⟨[], tokens, rfl, .nil, h⟩
  | cons leaf leaves ih =>
      cases h with
      | cons hleaf h =>
          obtain ⟨before, after, rfl, hbefore, hafter⟩ := ih h
          exact ⟨_ :: before, after, rfl, .cons hleaf hbefore, hafter⟩

theorem FitAll.symbol_cons {s : Symbol} (h : FitAll (.symbol s :: leaves) tokens) :
    ∃ token rest, tokens = token :: rest ∧ token.is s ∧ FitAll leaves rest := by
  cases h with
  | cons hleaf h => exact ⟨_, _, rfl, is_of_kind hleaf, h⟩

theorem FitAll.token_cons {recorded : Token} (h : FitAll (.token recorded :: leaves) tokens) :
    ∃ rest, tokens = recorded :: rest ∧ FitAll leaves rest := by
  cases h with
  | cons hleaf h =>
      obtain rfl : _ = recorded := hleaf
      exact ⟨_, rfl, h⟩

theorem FitAll.nil_eq (h : FitAll [] tokens) : tokens = [] := by
  cases h
  rfl

theorem FitAll.symbol_last {s : Symbol} (h : FitAll [.symbol s] tokens) :
    ∃ token, tokens = [token] ∧ token.is s := by
  obtain ⟨token, rest, rfl, htoken, hrest⟩ := h.symbol_cons
  obtain rfl := hrest.nil_eq
  exact ⟨token, rfl, htoken⟩

theorem FitAll.token_last {recorded : Token} (h : FitAll [.token recorded] tokens) :
    tokens = [recorded] := by
  obtain ⟨rest, rfl, hrest⟩ := h.token_cons
  obtain rfl := hrest.nil_eq
  rfl

theorem FitAll.snoc_symbol {s : Symbol} (h : FitAll (leaves ++ [.symbol s]) tokens) :
    ∃ before token, tokens = before ++ [token] ∧ FitAll leaves before ∧ token.is s := by
  obtain ⟨before, last, rfl, hbefore, hlast⟩ := h.split
  obtain ⟨token, rfl, htoken⟩ := hlast.symbol_last
  exact ⟨before, token, rfl, hbefore, htoken⟩

theorem FitAll.snoc_token {recorded : Token} (h : FitAll (leaves ++ [.token recorded]) tokens) :
    ∃ before, tokens = before ++ [recorded] ∧ FitAll leaves before := by
  obtain ⟨before, last, rfl, hbefore, hlast⟩ := h.split
  obtain rfl := hlast.token_last
  exact ⟨before, rfl, hbefore⟩

end Leaf

/-! ## Derivations of expressions -/

/-- The tokens derive a tree that differs from `e` in its numbers only, at every
level that asks for no more than `e` holds together. -/
structure Expr.Derived (e : Expr) (lower : Nat) (tokens : List Token) (upper : Nat)
    (e' : Expr) : Prop where
  renumbers : e.Matches renumbering e'
  expression : Expression lower tokens upper e'
  operand : ∀ levels, levels <:+ Level.all → Level.rank levels ≤ e.tightness →
    Operand levels lower tokens upper e'
  call : 8 ≤ e.tightness → Call lower tokens upper e'

namespace Expr.Derived

variable {e e' : Expr} {lower upper : Nat} {tokens : List Token}

theorem of_call (hrenumbers : e.Matches renumbering e') (h : Call lower tokens upper e') :
    e.Derived lower tokens upper e' where
  renumbers := hrenumbers
  expression := h.expression
  operand _ _ _ := .loosen List.nil_suffix (.call h)
  call _ := h

/-- An operation is derived at its own level and at all looser ones. -/
theorem of_operand {levels : List Level} (hrenumbers : e.Matches renumbering e')
    (hlevels : levels <:+ Level.all) (htightness : e.tightness = Level.rank levels)
    (h : Operand levels lower tokens upper e') : e.Derived lower tokens upper e' where
  renumbers := hrenumbers
  expression := .operand (h.loosen hlevels)
  operand levels' hlevels' hle := by
    refine h.loosen (List.suffix_of_suffix_length_le hlevels hlevels' ?_)
    have hlength : levels.length ≤ 6 := hlevels.length_le
    have hlength' : levels'.length ≤ 6 := hlevels'.length_le
    rw [htightness, Level.rank, Level.rank] at hle
    omega
  call hle := by
    rw [htightness, Level.rank] at hle
    omega

theorem of_assignment (hrenumbers : e.Matches renumbering e') (htightness : e.tightness = 0)
    (h : Expression lower tokens upper e') : e.Derived lower tokens upper e' where
  renumbers := hrenumbers
  expression := h
  operand levels hlevels hle := by
    have hlength : levels.length ≤ 6 := hlevels.length_le
    rw [htightness, Level.rank] at hle
    omega
  call hle := by omega

end Expr.Derived

/-- A balanced operation is derived at the level of its operator. -/
theorem Expr.Balanced.operand {rank lower middle upper : Nat} {left right left' right' : Expr}
    {operator : Token} {before after : List Token} (h : Expr.Balanced rank left operator right)
    (hleft : left.Derived lower before middle left')
    (hright : right.Derived middle after upper right') :
    ∃ level tighter, level :: tighter <:+ Level.all ∧ Level.rank (level :: tighter) = rank ∧
      (level.isLogical ↔ rank ≤ 2) ∧
      Operand (level :: tighter) lower (before ++ operator :: after) upper
        (level.build left' operator right') := by
  obtain ⟨level, tighter, hlevels, hoperator, rfl⟩ := Level.exists_of_tightness h.operator
  refine ⟨level, tighter, hlevels, rfl, (Level.tightness_of_isAny hlevels hoperator).2, ?_⟩
  refine .joined (hleft.operand _ hlevels h.left) hoperator (hright.operand _ ?_ ?_)
  · exact (List.suffix_cons _ _).trans hlevels
  · rw [Level.rank_cons hlevels]
    exact h.right

theorem Leaf.FitAll.infix {left right : List Leaf} {operator : Token} {tokens : List Token}
    (h : FitAll (left ++ .token operator :: right) tokens) :
    ∃ before after, tokens = before ++ operator :: after ∧ FitAll left before ∧
      FitAll right after := by
  obtain ⟨before, rest, rfl, hbefore, hrest⟩ := h.split
  obtain ⟨after, rfl, hafter⟩ := hrest.token_cons
  exact ⟨before, after, rfl, hbefore, hafter⟩

/-- The tokens derive expressions that differ from `es` in their numbers only. -/
def Expr.DerivedAll (es : List Expr) : Prop :=
  ∀ lower tokens, Leaf.FitAll (Expr.leavesAll es) tokens →
    ∃ upper es', List.Forall₂ (Expr.Matches renumbering) es es' ∧
      Sequence lower tokens upper es'

theorem Expr.derivedList {es : List Expr} (hlength : es.length ≤ maxArity) (lower : Nat)
    (tokens : List Token) (hfit : Leaf.FitAll (Expr.leavesAll es) tokens)
    (h : es ≠ [] → Expr.DerivedAll es) :
    ∃ upper es', List.Forall₂ (Expr.Matches renumbering) es es' ∧
      Arguments lower tokens upper es' := by
  cases es with
  | nil =>
      obtain rfl := Leaf.FitAll.nil_eq hfit
      exact ⟨lower, [], .nil, .none⟩
  | cons e es =>
      obtain ⟨upper, es', hrenumbers, hes⟩ := h (by simp) lower tokens hfit
      exact ⟨upper, es', hrenumbers, .some hes (hrenumbers.length_eq ▸ hlength)⟩

mutual

theorem Expr.derived : (e : Expr) → e.Canonical → (lower : Nat) → (tokens : List Token) →
    Leaf.FitAll e.leaves tokens → ∃ upper e', e.Derived lower tokens upper e'
  | .literal value, _, lower, tokens, hfit => by
    cases hfit with
    | cons hkind hnil =>
        obtain rfl := Leaf.FitAll.nil_eq hnil
        exact ⟨lower, _, .of_call (.literal value) (.literal hkind)⟩
  | .grouping inner, h, lower, tokens, hfit => by
    obtain ⟨opening, rest, rfl, hopening, hrest⟩ := hfit.symbol_cons
    obtain ⟨before, closing, rfl, hbefore, hclosing⟩ := hrest.snoc_symbol
    obtain ⟨upper, inner', hinner⟩ := Expr.derived inner h lower before hbefore
    exact ⟨upper, _, .of_call (.grouping hinner.renumbers)
      (.grouping hopening hinner.expression hclosing)⟩
  | .unary operator operand, ⟨hoperator, htight, h⟩, lower, tokens, hfit => by
    obtain ⟨rest, rfl, hrest⟩ := hfit.token_cons
    obtain ⟨upper, operand', hoperand⟩ := Expr.derived operand h lower rest hrest
    exact ⟨upper, _, .of_operand (.unary operator.renumbers hoperand.renumbers)
      List.nil_suffix rfl (.unary hoperator (hoperand.operand [] List.nil_suffix htight))⟩
  | .binary left operator right, ⟨⟨rank, hrank, hbalanced⟩, h, h'⟩, lower, tokens, hfit => by
    obtain ⟨before, after, rfl, hbefore, hafter⟩ := hfit.infix
    obtain ⟨middle, left', hleft⟩ := Expr.derived left h lower before hbefore
    obtain ⟨upper, right', hright⟩ := Expr.derived right h' middle after hafter
    obtain ⟨level, tighter, hlevels, rfl, hlogical, hoperand⟩ := hbalanced.operand hleft hright
    rw [Level.build, if_neg fun his => absurd (hlogical.1 his) (by omega)] at hoperand
    refine ⟨upper, _, .of_operand ?_ hlevels ?_ hoperand⟩
    · exact .binary hleft.renumbers operator.renumbers hright.renumbers
    · simp [Expr.tightness, hbalanced.operator]
  | .logical left operator right, ⟨⟨rank, hrank, hbalanced⟩, h, h'⟩, lower, tokens, hfit => by
    obtain ⟨before, after, rfl, hbefore, hafter⟩ := hfit.infix
    obtain ⟨middle, left', hleft⟩ := Expr.derived left h lower before hbefore
    obtain ⟨upper, right', hright⟩ := Expr.derived right h' middle after hafter
    obtain ⟨level, tighter, hlevels, rfl, hlogical, hoperand⟩ := hbalanced.operand hleft hright
    rw [Level.build, if_pos (hlogical.2 hrank)] at hoperand
    refine ⟨upper, _, .of_operand ?_ hlevels ?_ hoperand⟩
    · exact .logical hleft.renumbers operator.renumbers hright.renumbers
    · simp [Expr.tightness, hbalanced.operator]
  | .reference _ name, h, lower, tokens, hfit => by
    obtain rfl := hfit.token_last
    exact ⟨lower + 1, _, .of_call (.reference trivial name.renumbers) (.reference h)⟩
  | .assign _ name value, ⟨hname, h⟩, lower, tokens, hfit => by
    obtain ⟨rest, rfl, hrest⟩ := hfit.token_cons
    obtain ⟨equals, after, rfl, hequals, hafter⟩ := hrest.symbol_cons
    obtain ⟨upper, value', hvalue⟩ := Expr.derived value h (lower + 1) after hafter
    exact ⟨upper + 1, _, .of_assignment (.assign trivial name.renumbers hvalue.renumbers) rfl
      (.assign hname hequals hvalue.expression)⟩
  | .receiver _ keyword, h, lower, tokens, hfit => by
    obtain rfl := hfit.token_last
    exact ⟨lower + 1, _, .of_call (.receiver trivial keyword.renumbers) (.receiver h)⟩
  | .get object name, ⟨htight, h, hname⟩, lower, tokens, hfit => by
    obtain ⟨before, rest, rfl, hbefore, hrest⟩ := hfit.split
    obtain ⟨dot, _, rfl, hdot, hlast⟩ := hrest.symbol_cons
    obtain rfl := hlast.token_last
    obtain ⟨upper, object', hobject⟩ := Expr.derived object h lower before hbefore
    exact ⟨upper, _, .of_call (.get hobject.renumbers name.renumbers)
      (.get (hobject.call htight) hdot hname)⟩
  | .set object name value, ⟨htight, h, hname, h'⟩, lower, tokens, hfit => by
    obtain ⟨before, rest, rfl, hbefore, hrest⟩ := hfit.split
    obtain ⟨dot, _, rfl, hdot, hname'⟩ := hrest.symbol_cons
    obtain ⟨_, rfl, hequals'⟩ := hname'.token_cons
    obtain ⟨equals, after, rfl, hequals, hafter⟩ := hequals'.symbol_cons
    obtain ⟨middle, object', hobject⟩ := Expr.derived object h lower before hbefore
    obtain ⟨upper, value', hvalue⟩ := Expr.derived value h' middle after hafter
    exact ⟨upper, _, .of_assignment
      (.set hobject.renumbers name.renumbers hvalue.renumbers) rfl
      (.set (hobject.call htight) hdot hname hequals hvalue.expression)⟩
  | .call callee closing arguments, ⟨htight, h, hclosing, hlength, h'⟩, lower, tokens, hfit => by
    obtain ⟨before, rest, rfl, hbefore, hrest⟩ := hfit.split
    obtain ⟨opening, _, rfl, hopening, hinside⟩ := hrest.symbol_cons
    obtain ⟨after, rfl, hafter⟩ := hinside.snoc_token
    obtain ⟨middle, callee', hcallee⟩ := Expr.derived callee h lower before hbefore
    obtain ⟨upper, arguments', hrenumbers, harguments⟩ :=
      Expr.derivedList hlength middle after hafter (Expr.derivedAll arguments h')
    exact ⟨upper, _, .of_call (.call hcallee.renumbers closing.renumbers hrenumbers)
      (.call (hcallee.call htight) hopening harguments hclosing)⟩
  | .list closing elements, ⟨hclosing, hlength, h⟩, lower, tokens, hfit => by
    obtain ⟨opening, rest, rfl, hopening, hrest⟩ := hfit.symbol_cons
    obtain ⟨before, rfl, hbefore⟩ := hrest.snoc_token
    obtain ⟨upper, elements', hrenumbers, helements⟩ :=
      Expr.derivedList hlength lower before hbefore (Expr.derivedAll elements h)
    exact ⟨upper, _, .of_call (.list closing.renumbers hrenumbers)
      (.list hopening helements hclosing)⟩
termination_by structural e => e

theorem Expr.derivedAll : (es : List Expr) → Expr.CanonicalAll es → es ≠ [] →
    Expr.DerivedAll es
  | [], _, hne => absurd rfl hne
  | e :: es, ⟨h, hes⟩, _ => by
    intro lower tokens hfit
    rcases eq_or_ne es [] with rfl | hne
    · obtain ⟨upper, e', he⟩ := Expr.derived e h lower tokens hfit
      exact ⟨upper, [e'], .cons he.renumbers .nil, .last he.expression⟩
    · rw [Expr.leavesAll_cons hne] at hfit
      obtain ⟨before, rest, rfl, hbefore, hrest⟩ := hfit.split
      obtain ⟨comma, after, rfl, hcomma, hafter⟩ := hrest.symbol_cons
      obtain ⟨middle, e', he⟩ := Expr.derived e h lower before hbefore
      obtain ⟨upper, es', hrenumbers, hall⟩ := Expr.derivedAll es hes hne middle after hafter
      exact ⟨upper, e' :: es', .cons he.renumbers hrenumbers,
        .cons he.expression hcomma hall⟩
termination_by structural es => es

end

/-! ## Derivations of statements -/

/-- The tokens derive a tree that differs from `s` in its numbers only, as a
statement unless `s` declares a name. -/
structure Stmt.Derived (s : Stmt) (lower : Nat) (tokens : List Token) (upper : Nat)
    (s' : Stmt) : Prop where
  renumbers : s.Matches renumbering s'
  declaration : Declaration s.isOpen lower tokens upper s'
  statement : s.declared? = none → Statement s.isOpen lower tokens upper s'

theorem Stmt.Derived.of_statement {s s' : Stmt} {lower upper : Nat} {tokens : List Token}
    (hrenumbers : s.Matches renumbering s') (h : Statement s.isOpen lower tokens upper s') :
    s.Derived lower tokens upper s' :=
  ⟨hrenumbers, .statement h, fun _ => h⟩

theorem Stmt.Derived.of_declaration {s s' : Stmt} {lower upper : Nat} {tokens : List Token}
    {name : Token} (hrenumbers : s.Matches renumbering s') (hname : s.declared? = some name)
    (h : Declaration s.isOpen lower tokens upper s') : s.Derived lower tokens upper s' :=
  ⟨hrenumbers, h, fun hnone => by rw [hname] at hnone; cases hnone⟩

theorem Token.derivedNames {names : List Token} (hnames : ∀ name ∈ names, name.is .identifier)
    (hne : names ≠ []) (tokens : List Token) (hfit : Leaf.FitAll (Token.leavesAll names) tokens) :
    Grammar.Names tokens names := by
  induction names generalizing tokens with
  | nil => exact absurd rfl hne
  | cons name names ih =>
      have hname := hnames name List.mem_cons_self
      rcases eq_or_ne names [] with rfl | hmore
      · obtain rfl := hfit.token_last
        exact .last hname
      · rw [Token.leavesAll_cons hmore] at hfit
        obtain ⟨rest, rfl, hrest⟩ := hfit.token_cons
        obtain ⟨comma, after, rfl, hcomma, hafter⟩ := hrest.symbol_cons
        exact .cons hname hcomma
          (ih (fun other hother => hnames other (List.mem_cons_of_mem _ hother)) hmore after hafter)

theorem Token.derivedParameters {names tokens : List Token} (hlength : names.length ≤ maxArity)
    (hnames : ∀ name ∈ names, name.is .identifier)
    (hfit : Leaf.FitAll (Token.leavesAll names) tokens) : Parameters tokens names := by
  rcases eq_or_ne names [] with rfl | hne
  · obtain rfl := Leaf.FitAll.nil_eq hfit
    exact .none
  · exact .some (Token.derivedNames hnames hne tokens hfit) hlength

/-- A leaf for the word of a statement and the condition in parentheses after
it. -/
theorem Leaf.FitAll.condition {s : Symbol} {condition : Expr} (h : condition.Canonical)
    {leaves : List Leaf} {tokens : List Token} (lower : Nat)
    (hfit : FitAll (.symbol s :: .symbol .leftParen ::
      (condition.leaves ++ .symbol .rightParen :: leaves)) tokens) :
    ∃ word opening before closing further middle condition',
      tokens = word :: opening :: (before ++ closing :: further) ∧ word.is s ∧
        opening.is .leftParen ∧ condition.Matches renumbering condition' ∧
        Expression lower before middle condition' ∧ closing.is .rightParen ∧
        FitAll leaves further := by
  obtain ⟨word, rest, rfl, hword, hrest⟩ := hfit.symbol_cons
  obtain ⟨opening, inside, rfl, hopening, hinside⟩ := hrest.symbol_cons
  obtain ⟨before, last, rfl, hbefore, hlast⟩ := hinside.split
  obtain ⟨closing, further, rfl, hclosing, hfurther⟩ := hlast.symbol_cons
  obtain ⟨middle, condition', hcondition⟩ := Expr.derived condition h lower before hbefore
  exact ⟨word, opening, before, closing, further, middle, condition', rfl, hword, hopening,
    hcondition.renumbers, hcondition.expression, hclosing, hfurther⟩

/-- A canonical expression and the semicolon after it. -/
theorem Leaf.FitAll.semicolon {value : Expr} (h : value.Canonical) {tokens : List Token}
    (lower : Nat) (hfit : FitAll (value.leaves ++ [.symbol .semicolon]) tokens) :
    ∃ before closing upper value', tokens = before ++ [closing] ∧
      value.Matches renumbering value' ∧ Expression lower before upper value' ∧
      closing.is .semicolon := by
  obtain ⟨before, closing, rfl, hbefore, hclosing⟩ := hfit.snoc_symbol
  obtain ⟨upper, value', hvalue⟩ := Expr.derived value h lower before hbefore
  exact ⟨before, closing, upper, value', rfl, hvalue.renumbers, hvalue.expression, hclosing⟩

mutual

theorem Stmt.derived : (s : Stmt) → s.Canonical → (lower : Nat) → (tokens : List Token) →
    Leaf.FitAll s.leaves tokens → ∃ upper s', s.Derived lower tokens upper s'
  | .expression value, h, lower, tokens, hfit => by
    obtain ⟨before, closing, upper, value', rfl, hrenumbers, hvalue, hclosing⟩ :=
      hfit.semicolon h lower
    exact ⟨upper, _, .of_statement (.expression hrenumbers) (.expression hvalue hclosing)⟩
  | .print value, h, lower, tokens, hfit => by
    obtain ⟨word, rest, rfl, hword, hrest⟩ := hfit.symbol_cons
    obtain ⟨before, closing, upper, value', rfl, hrenumbers, hvalue, hclosing⟩ :=
      hrest.semicolon h lower
    exact ⟨upper, _, .of_statement (.print hrenumbers) (.print hword hvalue hclosing)⟩
  | .declare name none, hname, lower, tokens, hfit => by
    obtain ⟨word, rest, rfl, hword, hrest⟩ := hfit.symbol_cons
    obtain ⟨last, rfl, hlast⟩ := hrest.token_cons
    obtain ⟨closing, rfl, hclosing⟩ := hlast.symbol_last
    exact ⟨lower, _, .of_declaration (.declare name.renumbers .none) rfl
      (.variableDecl hword (.plain hname hclosing))⟩
  | .declare name (some initializer), ⟨hname, h⟩, lower, tokens, hfit => by
    obtain ⟨word, rest, rfl, hword, hrest⟩ := hfit.symbol_cons
    obtain ⟨last, rfl, hlast⟩ := hrest.token_cons
    obtain ⟨equals, after, rfl, hequals, hafter⟩ := hlast.symbol_cons
    obtain ⟨before, closing, upper, value', rfl, hrenumbers, hvalue, hclosing⟩ :=
      hafter.semicolon h lower
    exact ⟨upper, _, .of_declaration (.declare name.renumbers (.some hrenumbers)) rfl
      (.variableDecl hword (.initialized hname hequals hvalue hclosing))⟩
  | .block body, h, lower, tokens, hfit => by
    obtain ⟨opening, rest, rfl, hopening, hrest⟩ := hfit.symbol_cons
    obtain ⟨inside, closing, rfl, hinside, hclosing⟩ := hrest.snoc_symbol
    obtain ⟨upper, body', hrenumbers, hbody⟩ := Stmt.derivedAll body h lower inside hinside
    exact ⟨upper, _, .of_statement (.block hrenumbers) (.block hopening hbody hclosing)⟩
  | .branch condition thenBranch none, ⟨h, hthen, hplain⟩, lower, tokens, hfit => by
    obtain ⟨word, opening, before, closing, further, middle, condition', rfl, hword, hopening,
      hrenumbers, hcondition, hclosing, hfurther⟩ := hfit.condition h lower
    obtain ⟨upper, then', hthen'⟩ := Stmt.derived thenBranch hthen middle further hfurther
    exact ⟨upper, _, .of_statement (.branch hrenumbers hthen'.renumbers .none)
      (.branch hword hopening hcondition hclosing (hthen'.statement hplain))⟩
  | .branch condition thenBranch (some elseBranch), ⟨h, ⟨hthen, hplain, hclosed⟩, helse, hplain'⟩,
      lower, tokens, hfit => by
    obtain ⟨word, opening, before, closing, further, middle, condition', rfl, hword, hopening,
      hrenumbers, hcondition, hclosing, hfurther⟩ := hfit.condition h lower
    obtain ⟨first, rest, rfl, hfirst, hrest⟩ := hfurther.split
    obtain ⟨otherwise, second, rfl, hotherwise, hsecond⟩ := hrest.symbol_cons
    obtain ⟨next, then', hthen'⟩ := Stmt.derived thenBranch hthen middle first hfirst
    obtain ⟨upper, else', helse'⟩ := Stmt.derived elseBranch helse next second hsecond
    have hfinished := hthen'.statement hplain
    rw [hclosed] at hfinished
    exact ⟨upper, _, .of_statement
      (.branch hrenumbers hthen'.renumbers (.some helse'.renumbers))
      (.branchElse hword hopening hcondition hclosing hfinished hotherwise
        (helse'.statement hplain'))⟩
  | .loop condition body, ⟨h, hbody, hplain⟩, lower, tokens, hfit => by
    obtain ⟨word, opening, before, closing, further, middle, condition', rfl, hword, hopening,
      hrenumbers, hcondition, hclosing, hfurther⟩ := hfit.condition h lower
    obtain ⟨upper, body', hbody'⟩ := Stmt.derived body hbody middle further hfurther
    exact ⟨upper, _, .of_statement (.loop hrenumbers hbody'.renumbers)
      (.loop hword hopening hcondition hclosing (hbody'.statement hplain))⟩
  | .leave keyword, h, lower, tokens, hfit => by
    obtain ⟨rest, rfl, hrest⟩ := hfit.token_cons
    obtain ⟨closing, rfl, hclosing⟩ := hrest.symbol_last
    exact ⟨lower, _, .of_statement (.leave keyword.renumbers) (.leave h hclosing)⟩
  | .function declaration, h, lower, tokens, hfit => by
    obtain ⟨word, rest, rfl, hword, hrest⟩ := hfit.symbol_cons
    obtain ⟨upper, declaration', hrenumbers, hdeclaration⟩ :=
      FunctionDecl.derived declaration h lower rest hrest
    exact ⟨upper, _, .of_declaration (.function hrenumbers) rfl (.function hword hdeclaration)⟩
  | .giveBack keyword none, h, lower, tokens, hfit => by
    obtain ⟨rest, rfl, hrest⟩ := hfit.token_cons
    obtain ⟨closing, rfl, hclosing⟩ := hrest.symbol_last
    exact ⟨lower, _, .of_statement (.giveBack keyword.renumbers .none)
      (.giveBack h .none hclosing)⟩
  | .giveBack keyword (some value), ⟨hkeyword, h⟩, lower, tokens, hfit => by
    obtain ⟨rest, rfl, hrest⟩ := hfit.token_cons
    obtain ⟨before, closing, upper, value', rfl, hrenumbers, hvalue, hclosing⟩ :=
      hrest.semicolon h lower
    exact ⟨upper, _, .of_statement (.giveBack keyword.renumbers (.some hrenumbers))
      (.giveBack hkeyword (.some hvalue) hclosing)⟩
  | .classDecl name methods, ⟨hname, h⟩, lower, tokens, hfit => by
    obtain ⟨word, rest, rfl, hword, hrest⟩ := hfit.symbol_cons
    obtain ⟨body, rfl, hbody⟩ := hrest.token_cons
    obtain ⟨opening, _, rfl, hopening, hopened⟩ := hbody.symbol_cons
    obtain ⟨inside, closing, rfl, hinside, hclosing⟩ := hopened.snoc_symbol
    obtain ⟨upper, methods', hrenumbers, hmethods⟩ :=
      FunctionDecl.derivedAll methods h lower inside hinside
    exact ⟨upper, _, .of_declaration (.classDecl name.renumbers hrenumbers) rfl
      (.classDecl hword hname hopening hmethods hclosing)⟩
termination_by structural s => s

theorem Stmt.derivedAll : (ss : List Stmt) → Stmt.CanonicalAll ss → (lower : Nat) →
    (tokens : List Token) → Leaf.FitAll (Stmt.leavesAll ss) tokens →
      ∃ upper ss', List.Forall₂ (Stmt.Matches renumbering) ss ss' ∧
        Declarations lower tokens upper ss'
  | [], _, lower, tokens, hfit => by
    obtain rfl := Leaf.FitAll.nil_eq hfit
    exact ⟨lower, [], .nil, .nil⟩
  | s :: ss, ⟨h, hss⟩, lower, tokens, hfit => by
    obtain ⟨first, further, rfl, hfirst, hfurther⟩ := hfit.split
    obtain ⟨middle, s', hs⟩ := Stmt.derived s h lower first hfirst
    obtain ⟨upper, ss', hrenumbers, hall⟩ := Stmt.derivedAll ss hss middle further hfurther
    exact ⟨upper, s' :: ss', .cons hs.renumbers hrenumbers, .cons hs.declaration hall⟩
termination_by structural ss => ss

theorem FunctionDecl.derived : (d : FunctionDecl) → d.Canonical → (lower : Nat) →
    (tokens : List Token) → Leaf.FitAll d.leaves tokens →
      ∃ upper d', d.Matches renumbering d' ∧ Callable lower tokens upper d'
  | .mk name parameters body, ⟨hname, hlength, hparameters, h⟩, lower, tokens, hfit => by
    obtain ⟨rest, rfl, hrest⟩ := hfit.token_cons
    obtain ⟨opening, _, rfl, hopening, hopened⟩ := hrest.symbol_cons
    obtain ⟨names, _, rfl, hnames, hafter⟩ := hopened.split
    obtain ⟨closing, _, rfl, hclosing, hclosed⟩ := hafter.symbol_cons
    obtain ⟨brace, _, rfl, hbrace, hinner⟩ := hclosed.symbol_cons
    obtain ⟨inner, last, rfl, hinside, hlast⟩ := hinner.snoc_symbol
    obtain ⟨upper, body', hrenumbers, hbody⟩ := Stmt.derivedAll body h lower inner hinside
    have hself : List.Forall₂ (Token.Matches renumbering) parameters parameters :=
      List.forall₂_same.2 fun parameter _ => parameter.renumbers
    exact ⟨upper, _, .mk name.renumbers hself hrenumbers, .mk hname hopening
      (Token.derivedParameters hlength hparameters hnames) hclosing hbrace hbody hlast⟩
termination_by structural d => d

theorem FunctionDecl.derivedAll : (ds : List FunctionDecl) → FunctionDecl.CanonicalAll ds →
    (lower : Nat) → (tokens : List Token) → Leaf.FitAll (FunctionDecl.leavesAll ds) tokens →
      ∃ upper ds', List.Forall₂ (FunctionDecl.Matches renumbering) ds ds' ∧
        Methods lower tokens upper ds'
  | [], _, lower, tokens, hfit => by
    obtain rfl := Leaf.FitAll.nil_eq hfit
    exact ⟨lower, [], .nil, .nil⟩
  | d :: ds, ⟨h, hds⟩, lower, tokens, hfit => by
    obtain ⟨first, further, rfl, hfirst, hfurther⟩ := hfit.split
    obtain ⟨middle, d', hrenumbers, hd⟩ := FunctionDecl.derived d h lower first hfirst
    obtain ⟨upper, ds', hmore, hall⟩ := FunctionDecl.derivedAll ds hds middle further hfurther
    exact ⟨upper, d' :: ds', .cons hrenumbers hmore, .cons hd hall⟩
termination_by structural ds => ds

end

/-! ## Programs -/

/-- A canonical program that is written out is read back without a report, up to
the numbers of its name occurrences. -/
theorem Parsed.reads_written {program : List Stmt} {tokens : List Token} {ending : Token}
    (next : Nat) (hcanonical : Stmt.CanonicalAll program)
    (hwritten : Leaf.FitAll (Stmt.leavesAll program) tokens) (hending : ending.is .endOfFile) :
    (ofStream (.ofTokens (tokens ++ [ending])) next).diagnostics = [] ∧
      List.Forall₂ (Stmt.Matches renumbering) program
        (ofStream (.ofTokens (tokens ++ [ending])) next).statements := by
  obtain ⟨upper, program', hrenumbers, hderived⟩ :=
    Stmt.derivedAll program hcanonical next tokens hwritten
  rw [TokenStream.ofTokens_append hending hderived.inside,
    Parser.ofStream_of_declarations hderived]
  exact ⟨rfl, hrenumbers⟩

/-- A condition without an `else` inside the branch of a condition with one has
to stand in a block. -/
theorem Parsed.reads_written_of_branches :
    let name : Token := ⟨.symbol .identifier, "a", 1⟩
    let receiver := Expr.receiver 7 ⟨.symbol .thisWord, "this", 2⟩
    let inner := Stmt.branch (.reference 7 name) (.print receiver) none
    let program := [Stmt.branch (.reference 7 name) (.block [inner])
      (some (.expression (.assign 7 name (.unary ⟨.symbol .bang, "!", 3⟩ (.reference 7 name)))))]
    let tokens := (Stmt.leavesAll program).map fun
      | .token token => token
      | .kind kind => ⟨kind, "", 4⟩
    (ofStream (.ofTokens (tokens ++ [Token.ending 5])) 0).diagnostics = [] ∧
      List.Forall₂ (Stmt.Matches renumbering) program
        (ofStream (.ofTokens (tokens ++ [Token.ending 5])) 0).statements ∧
      ¬ Stmt.CanonicalAll [Stmt.branch (.reference 7 name) inner (some (.block []))] := by
  intro name receiver inner program tokens
  have hcanonical : Stmt.CanonicalAll program := by
    simp [program, inner, receiver, name, Stmt.CanonicalAll, Stmt.Canonical, Expr.Canonical,
      Token.is, Token.isAny, Parser.negations, Expr.tightness, Stmt.declared?, Stmt.isOpen]
  have hwritten : Leaf.FitAll (Stmt.leavesAll program) tokens := by
    refine List.forall₂_map_right_iff.2 (List.forall₂_same.2 fun leaf _ => ?_)
    cases leaf <;> rfl
  have hending : (Token.ending 5).is .endOfFile := rfl
  obtain ⟨hclean, hread⟩ := Parsed.reads_written 0 hcanonical hwritten hending
  refine ⟨hclean, hread, fun h => ?_⟩
  cases h.1.2.1.2.2

end Lox
