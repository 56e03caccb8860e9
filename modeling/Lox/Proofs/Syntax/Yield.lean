import Lox.Proofs.Syntax.Canonical
import Lox.Proofs.Syntax.Inside
import Lox.Proofs.Syntax.Reading.Statement

/-!
# The tree of a program gives back its tokens

A tree that is derived without a `for` statement is canonical, and its leaves
are the tokens that derive it: none is lost, doubled or moved.  Since whatever
is read without a report is derived, this holds of every program that the parser
accepts.  A `for` statement leaves no trace of its own in the tree.
-/

namespace Lox

open Grammar

theorem Leaf.FitAll.append {leaves leaves' : List Leaf} {tokens tokens' : List Token}
    (h : FitAll leaves tokens) (h' : FitAll leaves' tokens') :
    FitAll (leaves ++ leaves') (tokens ++ tokens') :=
  List.rel_append h h'

theorem Leaf.fits_symbol {token : Token} {s : Symbol} (h : token.is s) :
    (Leaf.symbol s).Fits token :=
  kind_of_is h

/-! ## Tightness of what is derived -/

theorem Level.rank_cons {level : Level} {tighter : List Level}
    (h : level :: tighter <:+ Level.all) :
    Level.rank tighter = Level.rank (level :: tighter) + 1 := by
  have hle : tighter.length + 1 ≤ 6 := h.length_le
  rw [Level.rank, Level.rank, List.length_cons]
  omega

theorem Expr.tightness_build {level : Level} {tighter : List Level} {operator : Token}
    (h : level :: tighter <:+ Level.all) (hoperator : operator.isAny level.operators)
    (left right : Expr) :
    (level.build left operator right).tightness = Level.rank (level :: tighter) := by
  rw [Level.build]
  split <;> simp [Expr.tightness, (Level.tightness_of_isAny h hoperator).1]

theorem Expr.canonical_build {level : Level} {tighter : List Level} {operator : Token}
    {left right : Expr} (h : level :: tighter <:+ Level.all)
    (hoperator : operator.isAny level.operators)
    (hleft : Level.rank (level :: tighter) ≤ left.tightness ∧ left.Canonical)
    (hright : Level.rank tighter ≤ right.tightness ∧ right.Canonical) :
    (level.build left operator right).Canonical := by
  obtain ⟨htightness, hlogical⟩ := Level.tightness_of_isAny h hoperator
  rw [Level.rank_cons h] at hright
  have hbalanced : Expr.Balanced (Level.rank (level :: tighter)) left operator right :=
    ⟨htightness, hleft.1, hright.1⟩
  rw [Level.build]
  split
  · rename_i his
    exact ⟨⟨_, hlogical.1 his, hbalanced⟩, hleft.2, hright.2⟩
  · rename_i hnot
    have hlevel : 2 < Level.rank (level :: tighter) :=
      not_le.1 fun hle => hnot (hlogical.2 hle)
    exact ⟨⟨_, hlevel, hbalanced⟩, hleft.2, hright.2⟩

mutual

theorem Grammar.Call.tightness {lower upper : Nat} {tokens : List Token} {e : Expr}
    (h : Call lower tokens upper e) : e.tightness = 8 := by
  cases h <;> rfl

/-- What is derived as an operand holds together as tight as its level asks. -/
theorem Grammar.Operand.tightness {levels : List Level} {lower upper : Nat} {tokens : List Token}
    {e : Expr} : Operand levels lower tokens upper e → levels <:+ Level.all →
      Level.rank levels ≤ e.tightness
  | .tighter h, hlevels => by
    have := h.tightness ((List.suffix_cons _ _).trans hlevels)
    rw [Level.rank_cons hlevels] at this
    omega
  | .joined _ hoperator _, hlevels => (Expr.tightness_build hlevels hoperator _ _).ge
  | .unary _ _, _ => le_rfl
  | .call h, _ => by
    rw [h.tightness]
    decide

end

/-! ## Expressions -/

mutual

theorem Grammar.Expression.canonical {lower upper : Nat} {tokens : List Token} {e : Expr} :
    Expression lower tokens upper e → e.Canonical
  | .operand h => h.canonical List.suffix_rfl
  | .assign hname _ hvalue => ⟨hname, hvalue.canonical⟩
  | .set hobject _ hname _ hvalue =>
    ⟨hobject.tightness.ge, hobject.canonical, hname, hvalue.canonical⟩

theorem Grammar.Operand.canonical {levels : List Level} {lower upper : Nat} {tokens : List Token}
    {e : Expr} : Operand levels lower tokens upper e → levels <:+ Level.all → e.Canonical
  | .tighter h, hlevels => h.canonical ((List.suffix_cons _ _).trans hlevels)
  | .joined hleft hoperator hright, hlevels =>
    have htighter := (List.suffix_cons _ _).trans hlevels
    Expr.canonical_build hlevels hoperator ⟨hleft.tightness hlevels, hleft.canonical hlevels⟩
      ⟨hright.tightness htighter, hright.canonical htighter⟩
  | .unary hoperator h, hlevels => ⟨hoperator, h.tightness hlevels, h.canonical hlevels⟩
  | .call h, _ => h.canonical

theorem Grammar.Call.canonical {lower upper : Nat} {tokens : List Token} {e : Expr} :
    Call lower tokens upper e → e.Canonical
  | .literal _ => trivial
  | .reference hname => hname
  | .receiver hkeyword => hkeyword
  | .grouping _ h _ => h.canonical
  | .list _ h hclosing => ⟨hclosing, h.canonical⟩
  | .call hcallee _ h hclosing =>
    ⟨hcallee.tightness.ge, hcallee.canonical, hclosing, h.canonical⟩
  | .get hobject _ hname => ⟨hobject.tightness.ge, hobject.canonical, hname⟩

theorem Grammar.Arguments.canonical {lower upper : Nat} {tokens : List Token} {es : List Expr} :
    Arguments lower tokens upper es → es.length ≤ maxArity ∧ Expr.CanonicalAll es
  | .none => ⟨Nat.zero_le _, trivial⟩
  | .some h hlength => ⟨hlength, h.canonical⟩

theorem Grammar.Sequence.canonical {lower upper : Nat} {tokens : List Token} {es : List Expr} :
    Sequence lower tokens upper es → Expr.CanonicalAll es
  | .last h => ⟨h.canonical, trivial⟩
  | .cons h _ hes => ⟨h.canonical, hes.canonical⟩

end

/-- One more expression in front of a sequence. -/
theorem Expr.leavesAll_cons {e : Expr} {es : List Expr} (h : es ≠ []) :
    Expr.leavesAll (e :: es) = e.leaves ++ .symbol .comma :: Expr.leavesAll es := by
  cases es with
  | nil => exact absurd rfl h
  | cons e' es => rfl

theorem Grammar.Sequence.ne_nil {lower upper : Nat} {tokens : List Token} {es : List Expr}
    (h : Sequence lower tokens upper es) : es ≠ [] := by
  cases h <;> simp

theorem Expr.leaves_build (level : Level) (left right : Expr) (operator : Token) :
    (level.build left operator right).leaves = left.leaves ++ .token operator :: right.leaves := by
  rw [Level.build]
  split <;> rfl

mutual

theorem Grammar.Expression.yield {lower upper : Nat} {tokens : List Token} {e : Expr} :
    Expression lower tokens upper e → Leaf.FitAll e.leaves tokens
  | .operand h => h.yield
  | .assign _ hequals hvalue => .cons rfl (.cons (Leaf.fits_symbol hequals) hvalue.yield)
  | .set hobject hdot _ hequals hvalue =>
    hobject.yield.append (.cons (Leaf.fits_symbol hdot)
      (.cons rfl (.cons (Leaf.fits_symbol hequals) hvalue.yield)))

theorem Grammar.Operand.yield {levels : List Level} {lower upper : Nat} {tokens : List Token}
    {e : Expr} : Operand levels lower tokens upper e → Leaf.FitAll e.leaves tokens
  | .tighter h => h.yield
  | .joined hleft _ hright => by
    rw [Expr.leaves_build]
    exact hleft.yield.append (.cons rfl hright.yield)
  | .unary _ h => .cons rfl h.yield
  | .call h => h.yield

theorem Grammar.Call.yield {lower upper : Nat} {tokens : List Token} {e : Expr} :
    Call lower tokens upper e → Leaf.FitAll e.leaves tokens
  | .literal hkind => .cons hkind .nil
  | .reference _ => .cons rfl .nil
  | .receiver _ => .cons rfl .nil
  | .grouping hopening h hclosing =>
    .cons (Leaf.fits_symbol hopening) (h.yield.append (.cons (Leaf.fits_symbol hclosing) .nil))
  | .list hopening h _ =>
    .cons (Leaf.fits_symbol hopening) (h.yield.append (.cons rfl .nil))
  | .call hcallee hopening h _ =>
    hcallee.yield.append (.cons (Leaf.fits_symbol hopening) (h.yield.append (.cons rfl .nil)))
  | .get hobject hdot _ =>
    hobject.yield.append (.cons (Leaf.fits_symbol hdot) (.cons rfl .nil))

theorem Grammar.Arguments.yield {lower upper : Nat} {tokens : List Token} {es : List Expr} :
    Arguments lower tokens upper es → Leaf.FitAll (Expr.leavesAll es) tokens
  | .none => .nil
  | .some h _ => h.yield

theorem Grammar.Sequence.yield {lower upper : Nat} {tokens : List Token} {es : List Expr} :
    Sequence lower tokens upper es → Leaf.FitAll (Expr.leavesAll es) tokens
  | .last h => h.yield
  | .cons h hcomma hes => by
    rw [Expr.leavesAll_cons hes.ne_nil]
    exact h.yield.append (.cons (Leaf.fits_symbol hcomma) hes.yield)

end

/-! ## Statements -/

theorem Grammar.Names.canonical {tokens names : List Token} (h : Names tokens names) :
    ∀ name ∈ names, name.is .identifier := by
  induction h with
  | last hname => simpa using hname
  | cons hname _ _ ih => simpa using ⟨hname, ih⟩

theorem Grammar.Parameters.canonical {tokens names : List Token} (h : Parameters tokens names) :
    names.length ≤ maxArity ∧ ∀ name ∈ names, name.is .identifier := by
  cases h with
  | none => simp
  | some h hlength => exact ⟨hlength, h.canonical⟩

theorem Token.leavesAll_cons {name : Token} {names : List Token} (h : names ≠ []) :
    Token.leavesAll (name :: names) = .token name :: .symbol .comma :: Token.leavesAll names := by
  cases names with
  | nil => exact absurd rfl h
  | cons name' names => rfl

theorem Grammar.Names.ne_nil {tokens names : List Token} (h : Names tokens names) :
    names ≠ [] := by
  cases h <;> simp

theorem Grammar.Names.yield {tokens names : List Token} (h : Names tokens names) :
    Leaf.FitAll (Token.leavesAll names) tokens := by
  induction h with
  | last _ => exact .cons rfl .nil
  | cons _ hcomma hnames ih =>
      rw [Token.leavesAll_cons hnames.ne_nil]
      exact .cons rfl (.cons (Leaf.fits_symbol hcomma) ih)

theorem Grammar.Parameters.yield {tokens names : List Token} (h : Parameters tokens names) :
    Leaf.FitAll (Token.leavesAll names) tokens := by
  cases h with
  | none => exact .nil
  | some h _ => exact h.yield

theorem Grammar.Variable.canonical {lower upper : Nat} {tokens : List Token} {s : Stmt}
    (h : Variable lower tokens upper s) : s.Canonical ∧ s.isOpen = false := by
  cases h with
  | plain hname _ => exact ⟨hname, rfl⟩
  | initialized hname _ h _ => exact ⟨⟨hname, h.canonical⟩, rfl⟩

theorem Grammar.Variable.yield {lower upper : Nat} {tokens : List Token} {s : Stmt} {word : Token}
    (hword : word.is .varWord) (h : Variable lower tokens upper s) :
    Leaf.FitAll s.leaves (word :: tokens) := by
  cases h with
  | plain _ hclosing =>
      exact .cons (Leaf.fits_symbol hword) (.cons rfl (.cons (Leaf.fits_symbol hclosing) .nil))
  | initialized _ hequals h hclosing =>
      refine .cons (Leaf.fits_symbol hword) (.cons rfl (.cons (Leaf.fits_symbol hequals) ?_))
      exact h.yield.append (.cons (Leaf.fits_symbol hclosing) .nil)

theorem Stmt.declared?_forLoop (initializer : Option Stmt) (condition increment : Option Expr)
    (body : Stmt) : (Stmt.forLoop initializer condition increment body).declared? = none := by
  cases initializer <;> rfl

theorem Grammar.Statement.declared? {dangling : Bool} {lower upper : Nat} {tokens : List Token}
    {s : Stmt} (h : Statement dangling lower tokens upper s) : s.declared? = none := by
  cases h with
  | forLoop _ _ _ _ _ _ _ _ => exact Stmt.declared?_forLoop _ _ _ _
  | expression _ _ | print _ _ _ | giveBack _ _ _ | leave _ _ | block _ _ _ | loop _ _ _ _ _
  | branch _ _ _ _ _ | branchElse _ _ _ _ _ _ _ => rfl

/-- No token begins a `for` statement. -/
abbrev Grammar.ForLess (tokens : List Token) : Prop :=
  ∀ token ∈ tokens, ¬ token.is .forWord

theorem Grammar.ForLess.left {tokens further : List Token} (h : ForLess (tokens ++ further)) :
    ForLess tokens :=
  fun token htoken => h token (List.mem_append_left _ htoken)

theorem Grammar.ForLess.right {tokens further : List Token} (h : ForLess (tokens ++ further)) :
    ForLess further :=
  fun token htoken => h token (List.mem_append_right _ htoken)

theorem Grammar.ForLess.tail {token : Token} {tokens : List Token} (h : ForLess (token :: tokens)) :
    ForLess tokens :=
  fun other hother => h other (List.mem_cons_of_mem _ hother)

mutual

theorem Grammar.Statement.canonical {dangling : Bool} {lower upper : Nat} {tokens : List Token}
    {s : Stmt} : Statement dangling lower tokens upper s → ForLess tokens →
      s.Canonical ∧ s.isOpen = dangling ∧ Leaf.FitAll s.leaves tokens
  | .expression h hclosing, _ =>
    ⟨h.canonical, rfl, h.yield.append (.cons (Leaf.fits_symbol hclosing) .nil)⟩
  | .print hword h hclosing, _ =>
    ⟨h.canonical, rfl, .cons (Leaf.fits_symbol hword)
      (h.yield.append (.cons (Leaf.fits_symbol hclosing) .nil))⟩
  | .giveBack hkeyword .none hclosing, _ =>
    ⟨hkeyword, rfl, .cons rfl (.cons (Leaf.fits_symbol hclosing) .nil)⟩
  | .giveBack hkeyword (.some h) hclosing, _ =>
    ⟨⟨hkeyword, h.canonical⟩, rfl,
      .cons rfl (h.yield.append (.cons (Leaf.fits_symbol hclosing) .nil))⟩
  | .leave hkeyword hclosing, _ =>
    ⟨hkeyword, rfl, .cons rfl (.cons (Leaf.fits_symbol hclosing) .nil)⟩
  | .block hopening h hclosing, hfor =>
    have hbody := h.canonical hfor.tail.left
    ⟨hbody.1, rfl, .cons (Leaf.fits_symbol hopening)
      (hbody.2.append (.cons (Leaf.fits_symbol hclosing) .nil))⟩
  | .loop hword hopening hcondition hclosing h, hfor =>
    have hbody := h.canonical hfor.tail.tail.right.tail
    ⟨⟨hcondition.canonical, hbody.1, h.declared?⟩, hbody.2.1,
      .cons (Leaf.fits_symbol hword) (.cons (Leaf.fits_symbol hopening)
        (hcondition.yield.append (.cons (Leaf.fits_symbol hclosing) hbody.2.2)))⟩
  | .forLoop hword _ _ _ _ _ _ _, hfor => absurd hword (hfor _ List.mem_cons_self)
  | .branch hword hopening hcondition hclosing h, hfor =>
    have hthen := h.canonical hfor.tail.tail.right.tail
    ⟨⟨hcondition.canonical, hthen.1, h.declared?⟩, rfl,
      .cons (Leaf.fits_symbol hword) (.cons (Leaf.fits_symbol hopening)
        (hcondition.yield.append (.cons (Leaf.fits_symbol hclosing) hthen.2.2)))⟩
  | .branchElse hword hopening hcondition hclosing h hotherwise h', hfor =>
    have hthen := h.canonical hfor.tail.tail.right.tail.left
    have helse := h'.canonical hfor.tail.tail.right.tail.right.tail
    ⟨⟨hcondition.canonical, ⟨hthen.1, h.declared?, hthen.2.1⟩, helse.1, h'.declared?⟩,
      helse.2.1,
      .cons (Leaf.fits_symbol hword) (.cons (Leaf.fits_symbol hopening)
        (hcondition.yield.append (.cons (Leaf.fits_symbol hclosing)
          (hthen.2.2.append (.cons (Leaf.fits_symbol hotherwise) helse.2.2)))))⟩

theorem Grammar.Declaration.canonical {dangling : Bool} {lower upper : Nat} {tokens : List Token}
    {s : Stmt} : Declaration dangling lower tokens upper s → ForLess tokens →
      s.Canonical ∧ Leaf.FitAll s.leaves tokens
  | .statement h, hfor =>
    have hs := h.canonical hfor
    ⟨hs.1, hs.2.2⟩
  | .variableDecl hword h, _ => ⟨h.canonical.1, h.yield hword⟩
  | .function hword h, hfor =>
    have hd := h.canonical hfor.tail
    ⟨hd.1, .cons (Leaf.fits_symbol hword) hd.2⟩
  | .classDecl hword hname hopening h hclosing, hfor =>
    have hmethods := h.canonical hfor.tail.tail.tail.left
    ⟨⟨hname, hmethods.1⟩, .cons (Leaf.fits_symbol hword) (.cons rfl
      (.cons (Leaf.fits_symbol hopening)
        (hmethods.2.append (.cons (Leaf.fits_symbol hclosing) .nil))))⟩

theorem Grammar.Declarations.canonical {lower upper : Nat} {tokens : List Token}
    {ss : List Stmt} : Declarations lower tokens upper ss → ForLess tokens →
      Stmt.CanonicalAll ss ∧ Leaf.FitAll (Stmt.leavesAll ss) tokens
  | .nil, _ => ⟨trivial, .nil⟩
  | .cons h hrest, hfor =>
    have hfirst := h.canonical hfor.left
    have hmore := hrest.canonical hfor.right
    ⟨⟨hfirst.1, hmore.1⟩, hfirst.2.append hmore.2⟩

theorem Grammar.Callable.canonical {lower upper : Nat} {tokens : List Token} {d : FunctionDecl} :
    Callable lower tokens upper d → ForLess tokens →
      d.Canonical ∧ Leaf.FitAll d.leaves tokens
  | .mk hname hopening hparameters hclosing hbrace h hlast, hfor =>
    have hbody := h.canonical hfor.tail.tail.right.tail.tail.left
    have hparameters' := hparameters.canonical
    ⟨⟨hname, hparameters'.1, hparameters'.2, hbody.1⟩,
      .cons rfl (.cons (Leaf.fits_symbol hopening)
        (hparameters.yield.append (.cons (Leaf.fits_symbol hclosing)
          (.cons (Leaf.fits_symbol hbrace)
            (hbody.2.append (.cons (Leaf.fits_symbol hlast) .nil))))))⟩

theorem Grammar.Methods.canonical {lower upper : Nat} {tokens : List Token}
    {ds : List FunctionDecl} : Methods lower tokens upper ds → ForLess tokens →
      FunctionDecl.CanonicalAll ds ∧ Leaf.FitAll (FunctionDecl.leavesAll ds) tokens
  | .nil, _ => ⟨trivial, .nil⟩
  | .cons h hrest, hfor =>
    have hfirst := h.canonical hfor.left
    have hmore := hrest.canonical hfor.right
    ⟨⟨hfirst.1, hmore.1⟩, hfirst.2.append hmore.2⟩

end

/-! ## Programs -/

/-- A program that is read without a report has the tokens it was read from as
its leaves, and it is canonical. -/
theorem Parsed.yield_canonical {tokens : List Token} {ending : Token} {next : Nat}
    (hending : ending.is .endOfFile) (hinside : ∀ token ∈ tokens, ¬ token.is .endOfFile)
    (hfor : ∀ token ∈ tokens, ¬ token.is .forWord)
    (hclean : (ofStream (.ofTokens (tokens ++ [ending])) next).diagnostics = []) :
    Leaf.FitAll (Stmt.leavesAll (ofStream (.ofTokens (tokens ++ [ending])) next).statements)
        tokens ∧
      Stmt.CanonicalAll (ofStream (.ofTokens (tokens ++ [ending])) next).statements := by
  rw [TokenStream.ofTokens_append hending hinside] at hclean ⊢
  exact ((Parser.declarations_of_ofStream hending hclean).canonical hfor).symm

/-- An assignment in one branch, and operators of three levels. -/
theorem Parsed.yield_canonical_of_branches :
    let stream := (TokenStream.ofSource "if (a) b.c = d + e * -f; else print g(h, [i]);").1
    let parsed := ofStream (.ofTokens (stream.body ++ [stream.ending])) 0
    stream.body.length = 26 ∧
      Leaf.FitAll (Stmt.leavesAll parsed.statements) stream.body ∧
      Stmt.CanonicalAll parsed.statements := by
  intro stream parsed
  have hlength : stream.body.length = 26 := by decide +kernel
  have hending : stream.ending.is .endOfFile := by decide +kernel
  have hinside : ∀ token ∈ stream.body, ¬ token.is .endOfFile := by decide +kernel
  have hfor : ∀ token ∈ stream.body, ¬ token.is .forWord := by decide +kernel
  have hclean : parsed.diagnostics = [] := List.isEmpty_iff.1 (by decide +kernel)
  exact ⟨hlength, Parsed.yield_canonical hending hinside hfor hclean⟩

end Lox
