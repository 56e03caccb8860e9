import Lox.Syntax
import Mathlib.Data.List.Forall2
import Mathlib.Tactic.Common

/-!
# Variants of trees

A variant of a tree is the same tree but for three things.  Statements that declare
nothing may stand in braces of their own, loops may make their tests inside their
bodies, and in some scopes, names may be changed where they are declared and wherever
they are bound by these scopes.  A nest says of every scope around a part of the tree
where the variant has it.
-/

namespace Lox

/-! ## Names -/

/-- A change of names that undoes itself and leaves `this` alone.  A name in use
stays as it is or becomes one that is not in use. -/
structure Naming where
  change : String → String
  Used : String → Prop
  undo (name : String) : change (change name) = name
  this : change "this" = "this"
  used_this : Used "this"
  unused {name : String} (h : Used name) : change name = name ∨ ¬ Used (change name)

namespace Naming

/-- No name is changed. -/
def same : Naming where
  change := id
  Used _ := True
  undo _ := rfl
  this := rfl
  used_this := trivial
  unused _ := .inl rfl

/-- The name `before` becomes `after`, which is not in use. -/
def swap (before after : String) (hbefore : before ≠ "this") (hafter : after ≠ "this") :
    Naming where
  change name := if name = before then after else if name = after then before else name
  Used name := name ≠ after
  undo name := by
    by_cases hname : name = before
    · by_cases hsame : after = before <;> simp [hname, hsame]
    · by_cases hother : name = after <;> simp [hname, hother]
  this := by rw [if_neg hbefore.symm, if_neg hafter.symm]
  used_this := hafter.symm
  unused {name} h := by
    by_cases hname : name = before
    · exact .inr (by simp [hname])
    · exact .inl (by rw [if_neg hname, if_neg h])

section Swap

variable {before after name : String} (hbefore : before ≠ "this") (hafter : after ≠ "this")

theorem swap_before : (swap before after hbefore hafter).change before = after :=
  if_pos rfl

theorem swap_other (hname : name ≠ before) (hunused : name ≠ after) :
    (swap before after hbefore hafter).change name = name :=
  (if_neg hname).trans (if_neg hunused)

end Swap

variable (naming : Naming)

/-- A name of a scope, as the variant has it. -/
def nameIn (renamed : Bool) (name : String) : String :=
  if renamed then naming.change name else name

@[simp]
theorem nameIn_false (name : String) : naming.nameIn false name = name := rfl

@[simp]
theorem nameIn_this (renamed : Bool) : naming.nameIn renamed "this" = "this" := by
  cases renamed with
  | false => rfl
  | true => exact naming.this

theorem nameIn_inj (renamed : Bool) {name other : String} :
    naming.nameIn renamed name = naming.nameIn renamed other ↔ name = other := by
  refine ⟨fun h => ?_, congrArg _⟩
  cases renamed with
  | false => exact h
  | true =>
      calc name = naming.change (naming.change name) := (naming.undo name).symm
        _ = naming.change (naming.change other) := congrArg naming.change h
        _ = other := naming.undo other

/-- A name in use that is changed is not taken for another one in use. -/
theorem change_ne {name other : String} (hname : naming.Used name) (hother : naming.Used other)
    (h : naming.change name = other) : name = other := by
  rcases naming.unused hname with hsame | hunused
  · exact hsame.symm.trans h
  · exact absurd (h ▸ hother) hunused

/-- Names in use stay apart, whatever scopes they are names of. -/
theorem eq_of_nameIn_eq {renamed renamed' : Bool} {name other : String}
    (hname : naming.Used name) (hother : naming.Used other)
    (h : naming.nameIn renamed name = naming.nameIn renamed' other) : name = other := by
  cases renamed <;> cases renamed'
  · exact h
  · exact (naming.change_ne hother hname h.symm).symm
  · exact naming.change_ne hname hother h
  · exact (naming.nameIn_inj true).1 h

end Naming

/-- The token is the same but for the name, which is that of a scope. -/
structure Token.Renames (naming : Naming) (renamed : Bool) (token token' : Token) : Prop where
  kind : token'.kind = token.kind
  lexeme : token'.lexeme = naming.nameIn renamed token.lexeme
  line : token'.line = token.line

theorem Token.Renames.map_lexeme {naming : Naming} {renamed : Bool} {names names' : List Token}
    (h : List.Forall₂ (Token.Renames naming renamed) names names') :
    names'.map Token.lexeme = (names.map Token.lexeme).map (naming.nameIn renamed) := by
  induction h with
  | nil => rfl
  | cons hname _ ih => rw [List.map_cons, List.map_cons, List.map_cons, hname.lexeme, ih]

/-! ## Scopes -/

/-- Where a part of a tree stands: how many scopes inside it the variant has for
the scope that is `distance` scopes further out, and whether names of that scope
are changed. -/
@[ext]
structure Nest where
  distance : Nat → Nat
  renamed : Nat → Bool

namespace Nest

/-- The scopes around are the same. -/
def plain : Nest where
  distance := id
  renamed _ := false

/-- Inside a scope that both trees have. -/
def enter (renamed : Bool) (nest : Nest) : Nest where
  distance
    | 0 => 0
    | distance + 1 => nest.distance distance + 1
  renamed
    | 0 => renamed
    | distance + 1 => nest.renamed distance

/-- Inside braces that only the variant has. -/
def pad (nest : Nest) : Nest where
  distance distance := nest.distance distance + 1
  renamed := nest.renamed

@[simp]
theorem enter_plain : plain.enter false = plain := by
  ext distance
  · cases distance <;> rfl
  · cases distance <;> simp [enter, plain]

/-- Whether a name is changed that has the given distance, if it is not global. -/
def renamedAt? (nest : Nest) (distance? : Option Nat) : Bool :=
  distance?.elim false nest.renamed

end Nest

/-! ## Trees -/

/-- A block around the body of a loop that leaves the loop first if the condition
does not hold. -/
def Stmt.testedBody (operator keyword : Token) (condition : Expr) (body : Stmt) : Stmt :=
  .block [.branch (.unary operator (.grouping condition)) (.leave keyword) none, body]

/-- A loop that makes its test in its body. -/
def Stmt.testedLoop (operator keyword : Token) (condition : Expr) (body : Stmt) : Stmt :=
  .loop (.literal (.truth true)) (testedBody operator keyword condition body)

/-- In what a variant may differ: the names, whether it may have further braces,
whether its loops may make their tests inside, and what becomes of the occurrences
of names. -/
structure Variation where
  naming : Naming
  bracing : Prop
  testing : Prop
  occurs : Nest → Nat → Token → Token → Prop

variable (v : Variation)

inductive Expr.Varies (nest : Nest) : Expr → Expr → Prop where
  | literal (value : Literal) : Varies nest (.literal value) (.literal value)
  | grouping {inner inner' : Expr} (hinner : Varies nest inner inner') :
    Varies nest (.grouping inner) (.grouping inner')
  | unary (operator : Token) {operand operand' : Expr} (hoperand : Varies nest operand operand') :
    Varies nest (.unary operator operand) (.unary operator operand')
  | binary {left left' right right' : Expr} (hleft : Varies nest left left') (operator : Token)
    (hright : Varies nest right right') :
    Varies nest (.binary left operator right) (.binary left' operator right')
  | logical {left left' right right' : Expr} (hleft : Varies nest left left') (operator : Token)
    (hright : Varies nest right right') :
    Varies nest (.logical left operator right) (.logical left' operator right')
  | reference {id : Nat} {name name' : Token} (hname : v.occurs nest id name name') :
    Varies nest (.reference id name) (.reference id name')
  | assign {id : Nat} {name name' : Token} {value value' : Expr}
    (hname : v.occurs nest id name name') (hvalue : Varies nest value value') :
    Varies nest (.assign id name value) (.assign id name' value')
  | receiver {id : Nat} {keyword keyword' : Token} (hkeyword : v.occurs nest id keyword keyword') :
    Varies nest (.receiver id keyword) (.receiver id keyword')
  | get {object object' : Expr} (hobject : Varies nest object object') (name : Token) :
    Varies nest (.get object name) (.get object' name)
  | set {object object' value value' : Expr} (hobject : Varies nest object object') (name : Token)
    (hvalue : Varies nest value value') :
    Varies nest (.set object name value) (.set object' name value')
  | call {callee callee' : Expr} {arguments arguments' : List Expr}
    (hcallee : Varies nest callee callee') (closing : Token)
    (harguments : List.Forall₂ (Varies nest) arguments arguments') :
    Varies nest (.call callee closing arguments) (.call callee' closing arguments')
  | list (closing : Token) {elements elements' : List Expr}
    (helements : List.Forall₂ (Varies nest) elements elements') :
    Varies nest (.list closing elements) (.list closing elements')

mutual

/-- The statements begin alike, with no braces around the second that the first
does not have. -/
inductive Stmt.Varies : Nest → Stmt → Stmt → Prop where
  | expression {nest : Nest} {value value' : Expr} (hvalue : value.Varies v nest value') :
    Stmt.Varies nest (.expression value) (.expression value')
  | print {nest : Nest} {value value' : Expr} (hvalue : value.Varies v nest value') :
    Stmt.Varies nest (.print value) (.print value')
  | declare {nest : Nest} {name name' : Token} {initializer initializer' : Option Expr}
    (hflat : nest.distance 0 = 0) (hname : name.Renames v.naming (nest.renamed 0) name')
    (hinitializer : Option.Rel (Expr.Varies v nest) initializer initializer') :
    Stmt.Varies nest (.declare name initializer) (.declare name' initializer')
  | block {nest : Nest} (renamed : Bool) {body body' : List Stmt}
    (hbody : Stmt.VaryAll (nest.enter renamed) body body') :
    Stmt.Varies nest (.block body) (.block body')
  | branch {nest : Nest} {condition condition' : Expr} {thenBranch thenBranch' : Stmt}
    (hcondition : condition.Varies v nest condition')
    (hthen : Stmt.Wraps nest thenBranch thenBranch') :
    Stmt.Varies nest (.branch condition thenBranch none) (.branch condition' thenBranch' none)
  | branchElse {nest : Nest} {condition condition' : Expr}
    {thenBranch thenBranch' elseBranch elseBranch' : Stmt}
    (hcondition : condition.Varies v nest condition')
    (hthen : Stmt.Wraps nest thenBranch thenBranch')
    (helse : Stmt.Wraps nest elseBranch elseBranch') :
    Stmt.Varies nest (.branch condition thenBranch (some elseBranch))
      (.branch condition' thenBranch' (some elseBranch'))
  | loop {nest : Nest} {condition condition' : Expr} {body body' : Stmt}
    (hcondition : condition.Varies v nest condition') (hbody : Stmt.Wraps nest body body') :
    Stmt.Varies nest (.loop condition body) (.loop condition' body')
  | leave {nest : Nest} (keyword : Token) : Stmt.Varies nest (.leave keyword) (.leave keyword)
  | function {nest : Nest} {declaration declaration' : FunctionDecl} (hflat : nest.distance 0 = 0)
    (hname : v.naming.nameIn (nest.renamed 0) declaration.name.lexeme = declaration.name.lexeme)
    (hdeclaration : FunctionDecl.Varies nest declaration declaration') :
    Stmt.Varies nest (.function declaration) (.function declaration')
  | giveBack {nest : Nest} (keyword : Token) {value value' : Option Expr}
    (hvalue : Option.Rel (Expr.Varies v nest) value value') :
    Stmt.Varies nest (.giveBack keyword value) (.giveBack keyword value')
  | classDecl {nest : Nest} (name : Token) {methods methods' : List FunctionDecl}
    (hflat : nest.distance 0 = 0)
    (hname : v.naming.nameIn (nest.renamed 0) name.lexeme = name.lexeme)
    (hmethods : FunctionDecl.VaryAll (nest.enter false) methods methods') :
    Stmt.Varies nest (.classDecl name methods) (.classDecl name methods')

/-- The second statement may have braces around it that the first does not have, or
be a loop that makes its test inside where the first does not. -/
inductive Stmt.Wraps : Nest → Stmt → Stmt → Prop where
  | same {nest : Nest} {s s' : Stmt} (hs : Stmt.Varies nest s s') : Stmt.Wraps nest s s'
  | braced {nest : Nest} {s s' : Stmt} (hbracing : v.bracing) (hs : Stmt.Varies nest.pad s s') :
    Stmt.Wraps nest s (.block [s'])
  | tested {nest : Nest} {condition condition' : Expr} {body body' : Stmt}
    (operator keyword : Token) (htesting : v.testing) (hoperator : operator.is .bang)
    (hloop : Stmt.Varies nest.pad (.loop condition body) (.loop condition' body')) :
    Stmt.Wraps nest (.loop condition body) (Stmt.testedLoop operator keyword condition' body')

inductive Stmt.VaryAll : Nest → List Stmt → List Stmt → Prop where
  | nil {nest : Nest} : Stmt.VaryAll nest [] []
  | cons {nest : Nest} {s s' : Stmt} {ss ss' : List Stmt} (hs : Stmt.Wraps nest s s')
    (hss : Stmt.VaryAll nest ss ss') : Stmt.VaryAll nest (s :: ss) (s' :: ss')

inductive FunctionDecl.Varies : Nest → FunctionDecl → FunctionDecl → Prop where
  | mk {nest : Nest} (renamed : Bool) (name : Token) {parameters parameters' : List Token}
    {body body' : List Stmt}
    (hparameters : List.Forall₂ (Token.Renames v.naming renamed) parameters parameters')
    (hbody : Stmt.VaryAll (nest.enter renamed) body body') :
    FunctionDecl.Varies nest (.mk name parameters body) (.mk name parameters' body')

inductive FunctionDecl.VaryAll : Nest → List FunctionDecl → List FunctionDecl → Prop where
  | nil {nest : Nest} : FunctionDecl.VaryAll nest [] []
  | cons {nest : Nest} {d d' : FunctionDecl} {ds ds' : List FunctionDecl}
    (hd : FunctionDecl.Varies nest d d') (hds : FunctionDecl.VaryAll nest ds ds') :
    FunctionDecl.VaryAll nest (d :: ds) (d' :: ds')

end

variable {v} {nest : Nest}

namespace FunctionDecl.Varies

variable {declaration declaration' : FunctionDecl}

theorem name (h : declaration.Varies v nest declaration') :
    declaration.name = declaration'.name := by
  cases h with
  | mk _ _ _ _ => rfl

theorem arity (h : declaration.Varies v nest declaration') :
    declaration.arity = declaration'.arity := by
  cases h with
  | mk _ _ hparameters _ => exact hparameters.length_eq

theorem isInitializer (h : declaration.Varies v nest declaration') :
    declaration.isInitializer = declaration'.isInitializer := by
  rw [FunctionDecl.isInitializer, FunctionDecl.isInitializer, h.name]

/-- The parameters are names of the scope in which the body runs. -/
theorem inside (h : declaration.Varies v nest declaration') :
    ∃ renamed, List.Forall₂ (Token.Renames v.naming renamed) declaration.parameters
        declaration'.parameters ∧
      Stmt.VaryAll v (nest.enter renamed) declaration.body declaration'.body := by
  cases h with
  | mk renamed _ hparameters hbody => exact ⟨renamed, hparameters, hbody⟩

end FunctionDecl.Varies

theorem FunctionDecl.VaryAll.forall₂ {ds ds' : List FunctionDecl}
    (h : FunctionDecl.VaryAll v nest ds ds') :
    List.Forall₂ (FunctionDecl.Varies v nest) ds ds' := by
  induction ds generalizing ds' with
  | nil =>
      cases h with
      | nil => exact .nil
  | cons d ds ih =>
      cases h with
      | cons hd hds => exact .cons hd (ih hds)

end Lox
