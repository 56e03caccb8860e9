import Lox.Proofs.Syntax.Replacement
import Lox.Proofs.Syntax.Yield

/-!
# Braces around a statement

A statement stands somewhere in a derivation: as a declaration, as a branch or as
the body of a loop.  With braces around its tokens the same tree is derived, but
for a block around the statement.  Braces take no numbers and end every condition,
so what is around the statement is derived as before.
-/

namespace Lox

/-- A statement that is no declaration, and the block of it alone. -/
inductive Stmt.Braced : Stmt → Stmt → Prop where
  | mk {s : Stmt} (h : s.declared? = none) : Braced s (.block [s])

namespace Grammar

variable (inner : List Token)

mutual

/-- The tokens `before`, `inner` and `after` derive the first statement, in which
`inner` derives a statement; the second has a block around that. -/
inductive StatementAround :
    Bool → Nat → List Token → List Token → Nat → Stmt → Stmt → Prop
  | here {dangling lower upper s} :
      Statement dangling lower inner upper s →
      StatementAround dangling lower [] [] upper s (.block [s])
  | block {lower upper opening before after closing body body'} :
      opening.is .leftBrace → DeclarationsAround lower before after upper body body' →
      closing.is .rightBrace →
      StatementAround false lower (opening :: before) (after ++ [closing]) upper (.block body)
        (.block body')
  | loop {dangling lower middle upper word opening tokens closing before after condition body
      body'} :
      word.is .whileWord → opening.is .leftParen → Expression lower tokens middle condition →
      closing.is .rightParen → StatementAround dangling middle before after upper body body' →
      StatementAround dangling lower (word :: opening :: (tokens ++ closing :: before)) after upper
        (.loop condition body) (.loop condition body')
  | forLoop {dangling first second third fourth last word opening start test semicolon step
      closing before after initializer condition increment body body'} :
      word.is .forWord → opening.is .leftParen →
      ForInitializer first start second initializer → Clause second test third condition →
      semicolon.is .semicolon → Clause third step fourth increment → closing.is .rightParen →
      StatementAround dangling fourth before after last body body' →
      StatementAround dangling first
        (word :: opening :: (start ++ (test ++ semicolon :: (step ++ closing :: before)))) after
        last (.forLoop initializer condition increment body)
        (.forLoop initializer condition increment body')
  | branch {dangling lower middle upper word opening tokens closing before after condition
      thenBranch thenBranch'} :
      word.is .ifWord → opening.is .leftParen → Expression lower tokens middle condition →
      closing.is .rightParen →
      StatementAround dangling middle before after upper thenBranch thenBranch' →
      StatementAround true lower (word :: opening :: (tokens ++ closing :: before)) after upper
        (.branch condition thenBranch none) (.branch condition thenBranch' none)
  | branchThen {dangling lower middle next upper word opening tokens closing before after otherwise
      final condition thenBranch thenBranch' elseBranch} :
      word.is .ifWord → opening.is .leftParen → Expression lower tokens middle condition →
      closing.is .rightParen →
      StatementAround false middle before after next thenBranch thenBranch' →
      otherwise.is .elseWord → Statement dangling next final upper elseBranch →
      StatementAround dangling lower (word :: opening :: (tokens ++ closing :: before))
        (after ++ otherwise :: final) upper (.branch condition thenBranch (some elseBranch))
        (.branch condition thenBranch' (some elseBranch))
  | branchElse {dangling lower middle next upper word opening tokens closing further otherwise
      before after condition thenBranch elseBranch elseBranch'} :
      word.is .ifWord → opening.is .leftParen → Expression lower tokens middle condition →
      closing.is .rightParen → Statement false middle further next thenBranch →
      otherwise.is .elseWord →
      StatementAround dangling next before after upper elseBranch elseBranch' →
      StatementAround dangling lower
        (word :: opening :: (tokens ++ closing :: (further ++ otherwise :: before))) after upper
        (.branch condition thenBranch (some elseBranch))
        (.branch condition thenBranch (some elseBranch'))

inductive DeclarationAround :
    Bool → Nat → List Token → List Token → Nat → Stmt → Stmt → Prop
  | statement {dangling lower before after upper s s'} :
      StatementAround dangling lower before after upper s s' →
      DeclarationAround dangling lower before after upper s s'
  | function {lower upper word before after declaration declaration'} :
      word.is .funWord → CallableAround lower before after upper declaration declaration' →
      DeclarationAround false lower (word :: before) after upper (.function declaration)
        (.function declaration')
  | classDecl {lower upper word name opening before after closing methods methods'} :
      word.is .classWord → name.is .identifier → opening.is .leftBrace →
      MethodsAround lower before after upper methods methods' → closing.is .rightBrace →
      DeclarationAround false lower (word :: name :: opening :: before) (after ++ [closing]) upper
        (.classDecl name methods) (.classDecl name methods')

inductive DeclarationsAround :
    Nat → List Token → List Token → Nat → List Stmt → List Stmt → Prop
  | head {dangling lower middle upper before after further s s' ss} :
      DeclarationAround dangling lower before after middle s s' →
      Declarations middle further upper ss →
      DeclarationsAround lower before (after ++ further) upper (s :: ss) (s' :: ss)
  | tail {dangling lower middle upper tokens before after s ss ss'} :
      Declaration dangling lower tokens middle s →
      DeclarationsAround middle before after upper ss ss' →
      DeclarationsAround lower (tokens ++ before) after upper (s :: ss) (s :: ss')

inductive CallableAround :
    Nat → List Token → List Token → Nat → FunctionDecl → FunctionDecl → Prop
  | mk {lower upper name opening tokens closing brace before after last parameters body body'} :
      name.is .identifier → opening.is .leftParen → Parameters tokens parameters →
      closing.is .rightParen → brace.is .leftBrace →
      DeclarationsAround lower before after upper body body' → last.is .rightBrace →
      CallableAround lower (name :: opening :: (tokens ++ closing :: brace :: before))
        (after ++ [last]) upper (.mk name parameters body) (.mk name parameters body')

inductive MethodsAround :
    Nat → List Token → List Token → Nat → List FunctionDecl → List FunctionDecl → Prop
  | head {lower middle upper before after further d d' ds} :
      CallableAround lower before after middle d d' → Methods middle further upper ds →
      MethodsAround lower before (after ++ further) upper (d :: ds) (d' :: ds)
  | tail {lower middle upper tokens before after d ds ds'} :
      Callable lower tokens middle d → MethodsAround middle before after upper ds ds' →
      MethodsAround lower (tokens ++ before) after upper (d :: ds) (d :: ds')

end

variable {inner : List Token}

/-! ## The tree -/

/-- A statement is replaced by the block of it. -/
abbrev Bracing : Stmt → Stmt → Prop :=
  Stmt.Replaced Stmt.Braced fun _ _ => False

mutual

theorem StatementAround.replaced {dangling : Bool} {lower upper : Nat}
    {before after : List Token} {s s' : Stmt} :
    StatementAround inner dangling lower before after upper s s' → Bracing s s'
  | .here h => .here ⟨h.declared?⟩
  | .block _ h _ => .block h.replaced
  | .loop _ _ _ _ h => .loop _ h.replaced
  | .forLoop _ _ _ _ _ _ _ h => h.replaced.forLoop _ _ _
  | .branch _ _ _ _ h => .branchThen _ none h.replaced
  | .branchThen _ _ _ _ h _ _ => .branchThen _ (some _) h.replaced
  | .branchElse _ _ _ _ _ _ h => .branchElse _ _ h.replaced

theorem DeclarationAround.replaced {dangling : Bool} {lower upper : Nat}
    {before after : List Token} {s s' : Stmt} :
    DeclarationAround inner dangling lower before after upper s s' → Bracing s s'
  | .statement h => h.replaced
  | .function _ h => .function h.replaced
  | .classDecl _ _ _ h _ => .classDecl _ h.replaced

theorem DeclarationsAround.replaced {lower upper : Nat}
    {before after : List Token} {ss ss' : List Stmt} :
    DeclarationsAround inner lower before after upper ss ss' →
      Stmt.ReplacedIn Stmt.Braced (fun _ _ => False) ss ss'
  | .head h _ => .head h.replaced _
  | .tail _ h => .tail _ h.replaced

theorem CallableAround.replaced {lower upper : Nat}
    {before after : List Token} {d d' : FunctionDecl} :
    CallableAround inner lower before after upper d d' →
      d.Replaced Stmt.Braced (fun _ _ => False) d'
  | .mk _ _ _ _ _ h _ => .body _ _ h.replaced

theorem MethodsAround.replaced {lower upper : Nat}
    {before after : List Token} {ds ds' : List FunctionDecl} :
    MethodsAround inner lower before after upper ds ds' →
      FunctionDecl.ReplacedIn Stmt.Braced (fun _ _ => False) ds ds'
  | .head h _ => .head h.replaced _
  | .tail _ h => .tail _ h.replaced

end

/-! ## The tokens -/

mutual

/-- Without the braces the first statement is derived. -/
theorem StatementAround.plain {dangling : Bool} {lower upper : Nat} {before after : List Token}
    {s s' : Stmt} :
    StatementAround inner dangling lower before after upper s s' →
      Statement dangling lower (before ++ (inner ++ after)) upper s
  | .here h => by simpa using h
  | .block hbrace h hlast => by simpa using Statement.block hbrace h.plain hlast
  | .loop hword hparen hcondition hafter h => by
    simpa using Statement.loop hword hparen hcondition hafter h.plain
  | .forLoop hword hparen hstart htest hsemicolon hstep hafter h => by
    simpa using Statement.forLoop hword hparen hstart htest hsemicolon hstep hafter h.plain
  | .branch hword hparen hcondition hafter h => by
    simpa using Statement.branch hword hparen hcondition hafter h.plain
  | .branchThen hword hparen hcondition hafter h hotherwise helse => by
    simpa using Statement.branchElse hword hparen hcondition hafter h.plain hotherwise helse
  | .branchElse hword hparen hcondition hafter hthen hotherwise h => by
    simpa using Statement.branchElse hword hparen hcondition hafter hthen hotherwise h.plain

theorem DeclarationAround.plain {dangling : Bool} {lower upper : Nat} {before after : List Token}
    {s s' : Stmt} :
    DeclarationAround inner dangling lower before after upper s s' →
      Declaration dangling lower (before ++ (inner ++ after)) upper s
  | .statement h => .statement h.plain
  | .function hword h => .function hword h.plain
  | .classDecl hword hname hbrace h hlast => by
    simpa using Declaration.classDecl hword hname hbrace h.plain hlast

theorem DeclarationsAround.plain {lower upper : Nat} {before after : List Token}
    {ss ss' : List Stmt} :
    DeclarationsAround inner lower before after upper ss ss' →
      Declarations lower (before ++ (inner ++ after)) upper ss
  | .head h hrest => by simpa using Declarations.cons h.plain hrest
  | .tail hfirst h => by simpa using Declarations.cons hfirst h.plain

theorem CallableAround.plain {lower upper : Nat} {before after : List Token}
    {d d' : FunctionDecl} :
    CallableAround inner lower before after upper d d' →
      Callable lower (before ++ (inner ++ after)) upper d
  | .mk hname hparen hparameters hafter hbrace h hlast => by
    simpa using Callable.mk hname hparen hparameters hafter hbrace h.plain hlast

theorem MethodsAround.plain {lower upper : Nat} {before after : List Token}
    {ds ds' : List FunctionDecl} :
    MethodsAround inner lower before after upper ds ds' →
      Methods lower (before ++ (inner ++ after)) upper ds
  | .head h hrest => by simpa using Methods.cons h.plain hrest
  | .tail hfirst h => by simpa using Methods.cons hfirst h.plain

end

section Braces

variable {opening closing : Token}

mutual

/-- With the braces the statement is derived that has the block.  It does not
become dangling. -/
theorem StatementAround.braced (hopening : opening.is .leftBrace)
    (hclosing : closing.is .rightBrace) {dangling : Bool} {lower upper : Nat}
    {before after : List Token} {s s' : Stmt} :
    StatementAround inner dangling lower before after upper s s' →
      ∃ dangling' : Bool, (dangling' → dangling) ∧
        Statement dangling' lower (before ++ opening :: (inner ++ closing :: after)) upper s'
  | .here h =>
    have hbody : Declarations lower inner upper _ := by
      simpa using Declarations.cons (.statement h) .nil
    ⟨false, (nomatch ·), .block hopening hbody hclosing⟩
  | .block hbrace h hlast =>
    ⟨false, (nomatch ·), by simpa using Statement.block hbrace (h.braced hopening hclosing) hlast⟩
  | .loop hword hparen hcondition hafter h =>
    have ⟨dangling', hdangling, h⟩ := h.braced hopening hclosing
    ⟨dangling', hdangling, by simpa using Statement.loop hword hparen hcondition hafter h⟩
  | .forLoop hword hparen hstart htest hsemicolon hstep hafter h =>
    have ⟨dangling', hdangling, h⟩ := h.braced hopening hclosing
    ⟨dangling', hdangling,
      by simpa using Statement.forLoop hword hparen hstart htest hsemicolon hstep hafter h⟩
  | .branch hword hparen hcondition hafter h =>
    have ⟨_, _, h⟩ := h.braced hopening hclosing
    ⟨true, fun _ => rfl, by simpa using Statement.branch hword hparen hcondition hafter h⟩
  | .branchThen hword hparen hcondition hafter h hotherwise helse => by
    obtain ⟨dangling', hdangling, h⟩ := h.braced hopening hclosing
    obtain rfl : dangling' = false := by simpa using hdangling
    refine ⟨_, id, ?_⟩
    simpa using Statement.branchElse hword hparen hcondition hafter h hotherwise helse
  | .branchElse hword hparen hcondition hafter hthen hotherwise h => by
    obtain ⟨dangling', hdangling, h⟩ := h.braced hopening hclosing
    refine ⟨dangling', hdangling, ?_⟩
    simpa using Statement.branchElse hword hparen hcondition hafter hthen hotherwise h

theorem DeclarationAround.braced (hopening : opening.is .leftBrace)
    (hclosing : closing.is .rightBrace) {dangling : Bool} {lower upper : Nat}
    {before after : List Token} {s s' : Stmt} :
    DeclarationAround inner dangling lower before after upper s s' →
      ∃ dangling' : Bool,
        Declaration dangling' lower (before ++ opening :: (inner ++ closing :: after)) upper s'
  | .statement h =>
    have ⟨_, _, h⟩ := h.braced hopening hclosing
    ⟨_, .statement h⟩
  | .function hword h => ⟨false, .function hword (h.braced hopening hclosing)⟩
  | .classDecl hword hname hbrace h hlast =>
    ⟨false, by
      simpa using Declaration.classDecl hword hname hbrace (h.braced hopening hclosing) hlast⟩

theorem DeclarationsAround.braced (hopening : opening.is .leftBrace)
    (hclosing : closing.is .rightBrace) {lower upper : Nat} {before after : List Token}
    {ss ss' : List Stmt} :
    DeclarationsAround inner lower before after upper ss ss' →
      Declarations lower (before ++ opening :: (inner ++ closing :: after)) upper ss'
  | .head h hrest => by
    obtain ⟨_, h⟩ := h.braced hopening hclosing
    simpa using Declarations.cons h hrest
  | .tail hfirst h => by simpa using Declarations.cons hfirst (h.braced hopening hclosing)

theorem CallableAround.braced (hopening : opening.is .leftBrace)
    (hclosing : closing.is .rightBrace) {lower upper : Nat} {before after : List Token}
    {d d' : FunctionDecl} :
    CallableAround inner lower before after upper d d' →
      Callable lower (before ++ opening :: (inner ++ closing :: after)) upper d'
  | .mk hname hparen hparameters hafter hbrace h hlast => by
    simpa using
      Callable.mk hname hparen hparameters hafter hbrace (h.braced hopening hclosing) hlast

theorem MethodsAround.braced (hopening : opening.is .leftBrace)
    (hclosing : closing.is .rightBrace) {lower upper : Nat} {before after : List Token}
    {ds ds' : List FunctionDecl} :
    MethodsAround inner lower before after upper ds ds' →
      Methods lower (before ++ opening :: (inner ++ closing :: after)) upper ds'
  | .head h hrest => by simpa using Methods.cons (h.braced hopening hclosing) hrest
  | .tail hfirst h => by simpa using Methods.cons hfirst (h.braced hopening hclosing)

end

end Braces

end Grammar

end Lox
