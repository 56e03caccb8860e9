import Lox.Proofs.Syntax.Replacement
import Lox.Proofs.Variant.Reflexive

/-!
# Variants by replacement

A program in which one part has been replaced is a variant of the program as soon
as the new part is one of the old.  Nothing is wrong in the old part, as nothing is
wrong in the program.
-/

namespace Lox

/-- Nothing is wrong at any place of the statement, where it stands. -/
def Stmt.Clean (s : Stmt) : Prop :=
  ∃ enclosing scopes, ∀ place ∈ s.places enclosing scopes, place.error? = none

def Stmt.CleanAll (ss : List Stmt) : Prop :=
  ∃ enclosing scopes, ∀ place ∈ Stmt.placesAll enclosing scopes ss, place.error? = none

def FunctionDecl.Clean (d : FunctionDecl) : Prop :=
  ∃ enclosing scopes isMethod, ∀ place ∈ d.places enclosing scopes isMethod, place.error? = none

def FunctionDecl.CleanAll (ds : List FunctionDecl) : Prop :=
  ∃ enclosing scopes, ∀ place ∈ FunctionDecl.placesOfMethods enclosing scopes ds,
    place.error? = none

section Clean

theorem Stmt.CleanAll.cons {s : Stmt} {ss : List Stmt} :
    Stmt.CleanAll (s :: ss) → s.Clean ∧ Stmt.CleanAll ss
  | ⟨_, _, h⟩ =>
    have h := List.forall_mem_append.1 h
    ⟨⟨_, _, h.1⟩, _, _, h.2⟩

theorem FunctionDecl.CleanAll.cons {d : FunctionDecl} {ds : List FunctionDecl} :
    FunctionDecl.CleanAll (d :: ds) → d.Clean ∧ FunctionDecl.CleanAll ds
  | ⟨_, _, h⟩ =>
    have h := List.forall_mem_append.1 h
    ⟨⟨_, _, _, h.1⟩, _, _, h.2⟩

theorem Stmt.Clean.block {body : List Stmt} : (Stmt.block body).Clean → Stmt.CleanAll body
  | ⟨_, _, h⟩ => ⟨_, _, h⟩

theorem Stmt.Clean.branchThen {condition : Expr} {thenBranch : Stmt} {elseBranch : Option Stmt} :
    (Stmt.branch condition thenBranch elseBranch).Clean → thenBranch.Clean
  | ⟨_, _, h⟩ => by
    cases elseBranch with
    | none => exact ⟨_, _, (List.forall_mem_append.1 h).2⟩
    | some _ => exact ⟨_, _, (List.forall_mem_append.1 (List.forall_mem_append.1 h).1).2⟩

theorem Stmt.Clean.branchElse {condition : Expr} {thenBranch elseBranch : Stmt} :
    (Stmt.branch condition thenBranch (some elseBranch)).Clean → elseBranch.Clean
  | ⟨_, _, h⟩ => ⟨_, _, (List.forall_mem_append.1 h).2⟩

theorem Stmt.Clean.loop {condition : Expr} {body : Stmt} :
    (Stmt.loop condition body).Clean → body.Clean
  | ⟨_, _, h⟩ => ⟨_, _, (List.forall_mem_append.1 h).2⟩

theorem Stmt.Clean.function {declaration : FunctionDecl} :
    (Stmt.function declaration).Clean → declaration.Clean
  | ⟨_, _, h⟩ => ⟨_, _, _, (List.forall_mem_cons.1 h).2⟩

theorem Stmt.Clean.classDecl {name : Token} {methods : List FunctionDecl} :
    (Stmt.classDecl name methods).Clean → FunctionDecl.CleanAll methods
  | ⟨_, _, h⟩ => ⟨_, _, (List.forall_mem_cons.1 h).2⟩

theorem FunctionDecl.Clean.body {name : Token} {parameters : List Token} {body : List Stmt} :
    (FunctionDecl.mk name parameters body).Clean → Stmt.CleanAll body
  | ⟨_, _, _, h⟩ => ⟨_, _, (List.forall_mem_append.1 h).2⟩

end Clean

section Replacement

variable {v : Variation} {good : Token → Prop}
variable {statements : Stmt → Stmt → Prop} {functions : FunctionDecl → FunctionDecl → Prop}

/-- A new part is a variant of the old one, in a scope of which nothing is
changed. -/
structure Variation.Replaces (v : Variation) (good : Token → Prop)
    (statements : Stmt → Stmt → Prop) (functions : FunctionDecl → FunctionDecl → Prop) :
    Prop where
  keeps : v.Keeps (fun _ => True) (· = .plain)
  statement {s s' : Stmt} (h : statements s s') (hformed : s.Formed good) (hclean : s.Clean) :
    s.Wraps v .plain s'
  function {d d' : FunctionDecl} (h : functions d d') (hformed : d.Formed good)
    (hclean : d.Clean) : d.Varies v .plain d'

namespace Variation.Replaces

theorem expr (h : v.Replaces good statements functions) (e : Expr) : e.Varies v .plain e :=
  e.varies_self h.keeps rfl fun _ _ => trivial

theorem same (h : v.Replaces good statements functions) (s : Stmt) : s.Wraps v .plain s :=
  .same (s.varies_self h.keeps rfl (.inr rfl) fun _ _ => trivial)

end Variation.Replaces

mutual

theorem Stmt.Replaced.wraps (h : v.Replaces good statements functions) {s s' : Stmt} :
    s.Replaced statements functions s' → s.Formed good → s.Clean → s.Wraps v .plain s'
  | .here hs, hformed, hclean => h.statement hs hformed hclean
  | .block hbody, hformed, hclean =>
    have hall := Nest.enter_plain.symm ▸ hbody.vary h hformed hclean.block
    .same (.block false hall)
  | .branchThen condition none hthen, hformed, hclean =>
    .same (.branch (h.expr condition) (hthen.wraps h hformed.2.1 hclean.branchThen))
  | .branchThen condition (some elseBranch) hthen, hformed, hclean =>
    .same (.branchElse (h.expr condition) (hthen.wraps h hformed.2.1.1 hclean.branchThen)
      (h.same elseBranch))
  | .branchElse condition thenBranch helse, hformed, hclean =>
    .same (.branchElse (h.expr condition) (h.same thenBranch)
      (helse.wraps h hformed.2.2.1 hclean.branchElse))
  | .loop condition hbody, hformed, hclean =>
    .same (.loop (h.expr condition) (hbody.wraps h hformed.2.1 hclean.loop))
  | .function hdeclaration, hformed, hclean =>
    .same (.function rfl rfl (hdeclaration.varies h hformed hclean.function))
  | .classDecl name hmethods, hformed, hclean =>
    have hall := Nest.enter_plain.symm ▸ hmethods.vary h hformed.2 hclean.classDecl
    .same (.classDecl name rfl rfl hall)

theorem Stmt.ReplacedIn.vary (h : v.Replaces good statements functions) {ss ss' : List Stmt} :
    Stmt.ReplacedIn statements functions ss ss' → Stmt.FormedAll good ss → Stmt.CleanAll ss →
      Stmt.VaryAll v .plain ss ss'
  | .head hs ss, hformed, hclean =>
    .cons (hs.wraps h hformed.1 hclean.cons.1)
      (Stmt.vary_self h.keeps ss rfl rfl fun _ _ => trivial)
  | .tail s hss, hformed, hclean => .cons (h.same s) (hss.vary h hformed.2 hclean.cons.2)

theorem FunctionDecl.Replaced.varies (h : v.Replaces good statements functions)
    {d d' : FunctionDecl} :
    d.Replaced statements functions d' → d.Formed good → d.Clean → d.Varies v .plain d'
  | .here hd, hformed, hclean => h.function hd hformed hclean
  | .body name parameters hbody, hformed, hclean =>
    have hall := Nest.enter_plain.symm ▸ hbody.vary h hformed.2.2 hclean.body
    .mk false name (List.forall₂_same.2 fun token _ => token.renames_self v.naming) hall

theorem FunctionDecl.ReplacedIn.vary (h : v.Replaces good statements functions)
    {ds ds' : List FunctionDecl} :
    FunctionDecl.ReplacedIn statements functions ds ds' → FunctionDecl.FormedAll good ds →
      FunctionDecl.CleanAll ds → FunctionDecl.VaryAll v .plain ds ds'
  | .head hd ds, hformed, hclean =>
    .cons (hd.varies h hformed.1 hclean.cons.1)
      (FunctionDecl.vary_self h.keeps ds rfl fun _ _ => trivial)
  | .tail d hds, hformed, hclean =>
    .cons (d.varies_self h.keeps rfl fun _ _ => trivial) (hds.vary h hformed.2 hclean.cons.2)

end

end Replacement

end Lox
