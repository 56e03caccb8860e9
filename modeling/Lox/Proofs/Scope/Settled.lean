import Lox.Proofs.Scope.Site
import Lox.Proofs.Token.Spelling
import Mathlib.Data.List.Nodup

/-!
# Settled parts

A part of a program is settled when its analysis finds no error and the
distances of its name occurrences are those that are used at run time.  The
parts inside a settled part are settled at their own sites, so every name
occurrence that the analysis comes to has the distance that its open scopes
give, and it is never read in the initializer of its own variable.
-/

namespace Lox

/-- A pass without an error over distinct occurrences, unknown before, whose
distances are kept. -/
structure Analysis.Settled (distances : Distances) (ids : List Nat)
    (pass : Analysis → Analysis) (analysis : Analysis) : Prop where
  distinct : ids.Nodup
  unknown : ∀ id ∈ ids, analysis.distances[id]? = none
  clean : (pass analysis).diagnostics = #[]
  kept : ∀ id ∈ ids, distances[id]? = (pass analysis).distances[id]?

namespace Analysis

variable {distances : Distances} {first second ids : List Nat}
variable {pass next : Analysis → Analysis} {analysis : Analysis}

/-- What comes first is settled if what follows touches nothing of it. -/
theorem Touches.settled_before (hnext : Touches second next)
    (h : Settled distances (first ++ second) (fun a => next (pass a)) analysis) :
    Settled distances first pass analysis where
  distinct := (List.nodup_append.1 h.distinct).1
  unknown id hid := h.unknown id (List.mem_append_left _ hid)
  clean := hnext.clean _ h.clean
  kept id hid := by
    have hother : id ∉ second := fun hid' =>
      (List.nodup_append.1 h.distinct).2.2 id hid id hid' rfl
    rw [h.kept id (List.mem_append_left _ hid), hnext.other _ id hother]

/-- What follows is settled after what comes first. -/
theorem Touches.settled_after (hpass : Touches first pass)
    (h : Settled distances (first ++ second) (fun a => next (pass a)) analysis) :
    Settled distances second next (pass analysis) where
  distinct := (List.nodup_append.1 h.distinct).2.1
  unknown id hid := by
    have hother : id ∉ first := fun hid' =>
      (List.nodup_append.1 h.distinct).2.2 id hid' id hid rfl
    rw [hpass.other _ id hother, h.unknown id (List.mem_append_right _ hid)]
  clean := h.clean
  kept id hid := h.kept id (List.mem_append_right _ hid)

/-- A step without occurrences may follow. -/
theorem Touches.settled_before_step (hnext : Touches [] next)
    (h : Settled distances ids (fun a => next (pass a)) analysis) :
    Settled distances ids pass analysis :=
  hnext.settled_before ((List.append_nil ids).symm ▸ h)

/-- A step without occurrences may come before. -/
theorem Touches.settled_after_step (hpass : Touches [] pass)
    (h : Settled distances ids (fun a => next (pass a)) analysis) :
    Settled distances ids next (pass analysis) :=
  hpass.settled_after h

theorem Settled.of_within {scope : Scope}
    (h : Settled distances ids (Analysis.within scope pass) analysis) :
    Settled distances ids pass { analysis with scopes := scope :: analysis.scopes } :=
  ⟨h.distinct, h.unknown, h.clean, h.kept⟩

end Analysis

/-! ## Marks -/

/-- All declarations in the scopes are complete. -/
def Scope.Complete (scopes : List Scope) : Prop :=
  ∀ scope ∈ scopes, ∀ name : String, scope[name]? ≠ some false

/-- Only in an expression there may be a declaration that is not complete; it is
one of a variable in the innermost scope. -/
structure Scope.Marked (isExpression : Bool) (scopes : List Scope) : Prop where
  outer : Complete scopes.tail
  inner : ∀ scope ∈ scopes.head?, ∀ name : String, scope[name]? = some false →
    isExpression = true ∧ name ≠ "this"

namespace Scope

variable {scopes : List Scope} {isExpression : Bool}

theorem Complete.marked (h : Complete scopes) : Marked isExpression scopes where
  outer scope hscope := h scope (List.mem_of_mem_tail hscope)
  inner scope hscope name hname := absurd hname (h scope (List.mem_of_mem_head? hscope) name)

theorem Marked.complete (h : Marked false scopes) : Complete scopes := by
  intro scope hscope name hname
  cases scopes with
  | nil => cases hscope
  | cons first outer =>
      rcases List.mem_cons.1 hscope with rfl | hscope
      · exact absurd (h.inner scope rfl name hname).1 (by simp)
      · exact h.outer scope hscope name hname

theorem Marked.expression (h : Marked isExpression scopes) : Marked true scopes :=
  ⟨h.outer, fun scope hscope name hname => ⟨rfl, (h.inner scope hscope name hname).2⟩⟩

theorem Complete.cons {scope : Scope} (h : Complete scopes)
    (hscope : ∀ name : String, scope[name]? ≠ some false) : Complete (scope :: scopes) :=
  List.forall_mem_cons.2 ⟨hscope, h⟩

end Scope

namespace Analysis

open Scope

variable {analysis : Analysis}

theorem complete_declared (name : Token) (h : Complete analysis.scopes) :
    Complete ((analysis.declare name).define name).scopes := by
  cases hscopes : analysis.scopes with
  | nil => simpa [declare, define, hscopes] using h
  | cons scope outer =>
      obtain ⟨scope', hscopes', hvalues⟩ := scopes_declare_define name hscopes
      rw [hscopes] at h
      rw [hscopes']
      apply Complete.cons (fun s hs => h s (List.mem_cons_of_mem _ hs))
      intro other
      rw [hvalues]
      split
      · simp
      · exact h scope List.mem_cons_self other

theorem complete_parameters (names : List Token) (h : Complete analysis.scopes) :
    Complete (parameters names analysis).scopes := by
  induction names generalizing analysis with
  | nil => exact h
  | cons name names ih => exact ih (complete_declared name h)

/-- Beginning a declaration marks its name alone as not complete. -/
theorem marked_declare {name : Token} (hname : name.lexeme ≠ "this")
    (h : Complete analysis.scopes) : Marked true (analysis.declare name).scopes := by
  cases hscopes : analysis.scopes with
  | nil => simpa [declare, hscopes] using h.marked
  | cons scope outer =>
      rw [hscopes] at h
      by_cases hcontains : scope.contains name.lexeme
      · simpa [declare, hscopes, hcontains, report] using h.marked
      · simp only [declare, hscopes, hcontains]
        refine ⟨fun s hs => h s (List.mem_cons_of_mem _ hs), ?_⟩
        rintro _ ⟨⟩ other hother
        refine ⟨rfl, ?_⟩
        rintro rfl
        have hsame : (scope.insert name.lexeme false)["this"]? = scope["this"]? := by
          simp [Std.TreeMap.getElem?_insert, hname]
        exact h scope List.mem_cons_self _ (hsame ▸ hother)

end Analysis

/-! ## Parts at their sites -/

/-- The part is settled at the site, and read from the text of a program. -/
structure Site.Fits (distances : Distances) (site : Site) (part : Part) : Prop where
  settled : Analysis.Settled distances part.ids (part.analyze site.around) site.analysis
  formed : part.Formed Token.Spelled
  marked : Scope.Marked part.isExpression site.scopes

/-- A program that has been accepted, with distances that are used at run time. -/
structure Program.Accepted (distances : Distances) (program : Program) : Prop where
  settled : Analysis.Settled distances program.ids (Stmt.analyzeAll {} program.statements)
    program.site.analysis
  formed : Stmt.FormedAll Token.Spelled program.statements

section Child

open Analysis

variable {distances : Distances} {site site' : Site} {part inner : Part}

theorem Part.settled_child_expr {e : Expr}
    (h : Settled distances e.ids (e.analyze site.around) site.analysis)
    (hchild : (inner, site') ∈ (Part.expr e).children site) :
    Settled distances inner.ids (inner.analyze site'.around) site'.analysis := by
  cases e <;>
    simp only [Part.children, List.mem_cons, List.not_mem_nil, or_false, Prod.mk.injEq] at hchild
  case grouping | unary | get | list =>
    obtain ⟨rfl, rfl⟩ := hchild
    exact h
  case binary left _ right | logical left _ right =>
    obtain ⟨rfl, rfl⟩ | ⟨rfl, rfl⟩ := hchild
    · exact (right.touches _).settled_before h
    · exact (left.touches _).settled_after h
  case assign id name value =>
    obtain ⟨rfl, rfl⟩ := hchild
    exact (touches_resolve id name).settled_before h
  case set object _ value =>
    obtain ⟨rfl, rfl⟩ | ⟨rfl, rfl⟩ := hchild
    · exact (object.touches _).settled_before h
    · exact (value.touches _).settled_after h
  case call callee _ arguments =>
    obtain ⟨rfl, rfl⟩ | ⟨rfl, rfl⟩ := hchild
    · exact (Expr.touchesAll _ arguments).settled_before h
    · exact (callee.touches _).settled_after h

theorem Part.settled_child_stmt {s : Stmt}
    (h : Settled distances s.ids (s.analyze site.around) site.analysis)
    (hchild : (inner, site') ∈ (Part.stmt s).children site) :
    Settled distances inner.ids (inner.analyze site'.around) site'.analysis := by
  rcases s with value | value | ⟨name, _ | initializer⟩ | body |
    ⟨condition, thenBranch, _ | elseBranch⟩ | ⟨condition, body⟩ | keyword | declaration |
    ⟨keyword, _ | value⟩ | ⟨name, declarations⟩ <;>
    simp only [Part.children, List.mem_cons, List.not_mem_nil, or_false, Prod.mk.injEq] at hchild
  case expression | print =>
    obtain ⟨rfl, rfl⟩ := hchild
    exact h
  case declare.some =>
    obtain ⟨rfl, rfl⟩ := hchild
    have hinitializer := (touches_define name).settled_before_step h
    exact (touches_declare name).settled_after_step hinitializer
  case block =>
    obtain ⟨rfl, rfl⟩ := hchild
    exact h.of_within
  case branch.none =>
    obtain ⟨rfl, rfl⟩ | ⟨rfl, rfl⟩ := hchild
    · exact (thenBranch.touches _).settled_before h
    · exact (condition.touches _).settled_after h
  case branch.some =>
    have hfirst := (elseBranch.touches _).settled_before h
    obtain ⟨rfl, rfl⟩ | ⟨rfl, rfl⟩ | ⟨rfl, rfl⟩ := hchild
    · exact (thenBranch.touches _).settled_before hfirst
    · exact (condition.touches _).settled_after hfirst
    · exact ((condition.touches _).comp (thenBranch.touches _)).settled_after h
  case loop =>
    obtain ⟨rfl, rfl⟩ | ⟨rfl, rfl⟩ := hchild
    · exact (body.touches _).settled_before h
    · exact (condition.touches _).settled_after h
  case function =>
    obtain ⟨rfl, rfl⟩ := hchild
    exact ((touches_declare _).comp (touches_define _)).settled_after_step h
  case giveBack.some =>
    obtain ⟨rfl, rfl⟩ := hchild
    exact ((touches_reportIf _ _ _).comp (touches_reportIf _ _ _)).settled_after_step h
  case classDecl =>
    obtain ⟨rfl, rfl⟩ := hchild
    exact (((touches_declare _).comp (touches_define _)).settled_after_step h).of_within

/-- The parts inside a settled part are settled at their own sites. -/
theorem Part.settled_child
    (h : Settled distances part.ids (part.analyze site.around) site.analysis)
    (hchild : (inner, site') ∈ part.children site) :
    Settled distances inner.ids (inner.analyze site'.around) site'.analysis := by
  cases part with
  | expr e => exact settled_child_expr h hchild
  | stmt s => exact settled_child_stmt h hchild
  | exprs es =>
      cases es <;>
        simp only [children, List.mem_cons, List.not_mem_nil, or_false, Prod.mk.injEq] at hchild
      case cons e es =>
        obtain ⟨rfl, rfl⟩ | ⟨rfl, rfl⟩ := hchild
        · exact (Expr.touchesAll _ es).settled_before h
        · exact (e.touches _).settled_after h
  | stmts ss =>
      cases ss <;>
        simp only [children, List.mem_cons, List.not_mem_nil, or_false, Prod.mk.injEq] at hchild
      case cons s ss =>
        obtain ⟨rfl, rfl⟩ | ⟨rfl, rfl⟩ := hchild
        · exact (Stmt.touchesAll _ ss).settled_before h
        · exact (s.touches _).settled_after h
  | function isInitializer declaration =>
      simp only [children, List.mem_singleton, Prod.mk.injEq] at hchild
      obtain ⟨rfl, rfl⟩ := hchild
      obtain ⟨name, names, body⟩ := declaration
      exact (touches_parameters names).settled_after_step h.of_within
  | methods declarations =>
      cases declarations <;>
        simp only [children, List.mem_cons, List.not_mem_nil, or_false, Prod.mk.injEq] at hchild
      case cons d ds =>
        obtain ⟨rfl, rfl⟩ | ⟨rfl, rfl⟩ := hchild
        · exact (FunctionDecl.touchesAll _ ds).settled_before h
        · exact (d.touches _ d.isInitializer).settled_after h

theorem Part.formed_child {spelled : Token → Prop} (h : part.Formed spelled)
    (hchild : (inner, site') ∈ part.children site) : inner.Formed spelled := by
  rcases part with (_ | _ | _ | _ | _ | _ | _ | _ | _ | _ | _ | _) | (_ | _) |
    (_ | _ | ⟨_, _ | _⟩ | _ | ⟨_, _, _ | _⟩ | _ | _ | _ | ⟨_, _ | _⟩ | _) | (_ | _) |
    ⟨_, _, _, _⟩ | (_ | _) <;>
    simp only [children, List.mem_cons, List.not_mem_nil, or_false, Prod.mk.injEq] at hchild <;>
    rcases hchild with ⟨rfl, -⟩ | ⟨rfl, -⟩ | ⟨rfl, -⟩ <;>
    simp_all [Formed, Expr.Formed, Expr.FormedAll, Stmt.Formed, Stmt.FormedAll,
      FunctionDecl.Formed, FunctionDecl.FormedAll, FunctionDecl.body]

theorem Part.ids_child (hchild : (inner, site') ∈ part.children site) :
    inner.ids ⊆ part.ids := by
  rcases part with (_ | _ | _ | _ | _ | _ | _ | _ | _ | _ | _ | _) | (_ | _) |
    (_ | _ | ⟨_, _ | _⟩ | _ | ⟨_, _, _ | _⟩ | _ | _ | _ | ⟨_, _ | _⟩ | _) | (_ | _) |
    ⟨_, _, _, _⟩ | (_ | _) <;>
    simp only [children, List.mem_cons, List.not_mem_nil, or_false, Prod.mk.injEq] at hchild <;>
    rcases hchild with ⟨rfl, -⟩ | ⟨rfl, -⟩ | ⟨rfl, -⟩ <;>
    simp [ids, Expr.ids, Expr.idsAll, Stmt.ids, Stmt.idsAll, FunctionDecl.ids,
      FunctionDecl.idsAll, FunctionDecl.body]

/-- The parts of an expression stand in the same scopes as the expression. -/
theorem Part.scopes_child_expression (hpart : part.isExpression)
    (hchild : (inner, site') ∈ part.children site) :
    inner.isExpression ∧ site'.regions = site.regions ∧ site'.scopes = site.scopes := by
  cases part with
  | expr e =>
      cases e <;>
        simp only [children, List.mem_cons, List.not_mem_nil, or_false, Prod.mk.injEq] at hchild <;>
        rcases hchild with ⟨rfl, hsite⟩ | ⟨rfl, hsite⟩
      all_goals simp_all [isExpression, Site.scopes, Site.after, analyze, Expr.scopes_analyze]
  | exprs es =>
      cases es <;>
        simp only [children, List.mem_cons, List.not_mem_nil, or_false, Prod.mk.injEq] at hchild
      rcases hchild with ⟨rfl, hsite⟩ | ⟨rfl, hsite⟩
      all_goals simp_all [isExpression, Site.scopes, Site.after, analyze, Expr.scopes_analyze]
  | stmt _ | stmts _ | function _ _ | methods _ => cases hpart

theorem Site.complete_after_expr (e : Expr) (h : Scope.Complete site.scopes) :
    Scope.Complete (site.after (.expr e)).scopes := by
  rw [scopes, after, Part.analyze, Expr.scopes_analyze]
  exact h

theorem Site.complete_after_stmt {spelled : Token → Prop} {s : Stmt} (hformed : s.Formed spelled)
    (h : Scope.Complete site.scopes) : Scope.Complete (site.after (.stmt s)).scopes := by
  rw [scopes, after, Part.analyze, s.scopes_analyze site.around hformed]
  cases s.declared? with
  | none => exact h
  | some name => exact Analysis.complete_declared name h

open Site in
theorem Part.complete_child_stmt {s : Stmt} (hformed : s.Formed Token.Spelled)
    (h : Scope.Complete site.scopes) (hchild : (inner, site') ∈ (stmt s).children site) :
    Scope.Marked inner.isExpression site'.scopes := by
  rcases s with value | value | ⟨name, _ | initializer⟩ | body |
    ⟨condition, thenBranch, _ | elseBranch⟩ | ⟨condition, body⟩ | keyword | declaration |
    ⟨keyword, _ | value⟩ | ⟨name, declarations⟩ <;>
    simp only [children, List.mem_cons, List.not_mem_nil, or_false, Prod.mk.injEq] at hchild
  case expression | print =>
    obtain ⟨rfl, rfl⟩ := hchild
    exact h.marked
  case declare.some =>
    obtain ⟨rfl, rfl⟩ := hchild
    exact Analysis.marked_declare (hformed.1.1.ne_this hformed.1.2) h
  case block =>
    obtain ⟨rfl, rfl⟩ := hchild
    exact (h.cons (by simp)).marked
  case branch.none =>
    obtain ⟨rfl, rfl⟩ | ⟨rfl, rfl⟩ := hchild
    · exact h.marked
    · exact (complete_after_expr _ h).marked
  case branch.some =>
    obtain ⟨rfl, rfl⟩ | ⟨rfl, rfl⟩ | ⟨rfl, rfl⟩ := hchild
    · exact h.marked
    · exact (complete_after_expr _ h).marked
    · exact (complete_after_stmt hformed.2.1.1 (complete_after_expr _ h)).marked
  case loop =>
    obtain ⟨rfl, rfl⟩ | ⟨rfl, rfl⟩ := hchild
    · exact h.marked
    · exact (complete_after_expr _ h).marked
  case function =>
    obtain ⟨rfl, rfl⟩ := hchild
    exact (Analysis.complete_declared _ h).marked
  case giveBack.some =>
    obtain ⟨rfl, rfl⟩ := hchild
    rw [Site.scopes, Site.checked, Site.checked, Analysis.scopes_reportIf,
      Analysis.scopes_reportIf]
    exact h.marked
  case classDecl =>
    obtain ⟨rfl, rfl⟩ := hchild
    refine (Scope.Complete.cons (Analysis.complete_declared _ h) ?_).marked
    intro other
    rw [Std.TreeMap.getElem?_insert]
    split <;> simp

/-- Declarations are complete wherever a statement or function is reached. -/
theorem Part.marked_child (hformed : part.Formed Token.Spelled)
    (h : Scope.Marked part.isExpression site.scopes)
    (hchild : (inner, site') ∈ part.children site) :
    Scope.Marked inner.isExpression site'.scopes := by
  by_cases hpart : part.isExpression
  · obtain ⟨hinner, -, hscopes⟩ := scopes_child_expression hpart hchild
    rw [hinner, hscopes]
    exact h.expression
  · have hcomplete : Scope.Complete site.scopes := by
      rw [Bool.not_eq_true] at hpart
      exact (hpart ▸ h).complete
    cases part with
    | expr _ | exprs _ => exact absurd rfl hpart
    | stmt s => exact complete_child_stmt hformed hcomplete hchild
    | stmts ss =>
        cases ss <;>
          simp only [children, List.mem_cons, List.not_mem_nil, or_false, Prod.mk.injEq] at hchild
        case cons s ss =>
          obtain ⟨rfl, rfl⟩ | ⟨rfl, rfl⟩ := hchild
          · exact hcomplete.marked
          · exact (Site.complete_after_stmt hformed.1 hcomplete).marked
    | function isInitializer declaration =>
        simp only [children, List.mem_singleton, Prod.mk.injEq] at hchild
        obtain ⟨rfl, rfl⟩ := hchild
        refine (Analysis.complete_parameters _ ?_).marked
        exact hcomplete.cons (by simp)
    | methods declarations =>
        cases declarations <;>
          simp only [children, List.mem_cons, List.not_mem_nil, or_false, Prod.mk.injEq] at hchild
        case cons d ds =>
          obtain ⟨rfl, rfl⟩ | ⟨rfl, rfl⟩ := hchild
          · exact hcomplete.marked
          · rw [Site.scopes, Site.after, analyze, d.scopes_analyze]
            exact hcomplete.marked

/-- Whatever is reached from a part that fits its site fits its own site. -/
theorem Site.Fits.child (h : site.Fits distances part)
    (hchild : (inner, site') ∈ part.children site) : site'.Fits distances inner where
  settled := Part.settled_child h.settled hchild
  formed := Part.formed_child h.formed hchild
  marked := Part.marked_child h.formed h.marked hchild

end Child

namespace Reached

variable {distances : Distances} {program : Program} {part : Part} {site : Site}

theorem fits (h : Reached program part site) (haccepted : program.Accepted distances) :
    site.Fits distances part := by
  induction h with
  | start => exact ⟨haccepted.settled, haccepted.formed, ⟨by simp [Scope.Complete, Program.site,
      Site.scopes], by simp [Program.site, Site.scopes]⟩⟩
  | child _ hchild ih => exact ih.child hchild

theorem ids_subset (h : Reached program part site) : part.ids ⊆ program.ids := by
  induction h with
  | start => exact List.Subset.refl _
  | child _ hchild ih => exact List.Subset.trans (Part.ids_child hchild) ih

/-- The analysis comes to every method of a class, in the scope of the class body
around it. -/
theorem method {declarations : List FunctionDecl} {declaration : FunctionDecl}
    (h : Reached program (.methods declarations) site) (hmem : declaration ∈ declarations) :
    ∃ site', Reached program (.function declaration.isInitializer declaration) site' ∧
      site'.regions = .classBody declaration :: site.regions ∧ site'.scopes = site.scopes := by
  induction declarations generalizing site with
  | nil => cases hmem
  | cons d ds ih =>
      rcases List.mem_cons.1 hmem with rfl | hmem
      · exact ⟨_, h.child List.mem_cons_self, rfl, rfl⟩
      · have hrest : Reached program (.methods ds) _ :=
          h.child (List.mem_cons_of_mem _ List.mem_cons_self)
        obtain ⟨site', hreached, hregions, hscopes⟩ := ih hrest hmem
        refine ⟨site', hreached, hregions, hscopes.trans ?_⟩
        exact d.scopes_analyze _ _ _

end Reached

/-! ## Name occurrences and keywords -/

namespace Site.Fits

open Analysis

variable {distances : Distances} {site : Site} {id : Nat} {name keyword : Token} {value : Expr}

theorem distance_resolve {analysis : Analysis} (h : analysis.distances[id]? = none) :
    (analysis.resolve id name).distances[id]? =
      Scope.distance? name.lexeme analysis.scopes := by
  cases hdistance : Scope.distance? name.lexeme analysis.scopes <;> simp [resolve, hdistance, h]

/-- A variable that is read has the distance that its scopes give, and its
declaration is complete. -/
theorem reference (h : site.Fits distances (.expr (.reference id name))) :
    distances[id]? = Scope.distance? name.lexeme site.scopes ∧
      site.analysis.isInitializing name = false := by
  have hunknown := h.settled.unknown id List.mem_cons_self
  have hkept := h.settled.kept id List.mem_cons_self
  have hclean := h.settled.clean
  cases hinitializing : site.analysis.isInitializing name with
  | true =>
      have hreport := (touches_resolve id name).clean _ hclean
      simp [hinitializing, reportIf, report] at hreport
  | false =>
      refine ⟨?_, rfl⟩
      rw [hkept]
      simp only [Part.analyze, Expr.analyze, hinitializing]
      exact distance_resolve hunknown

/-- A receiver stands in a class and has the distance that its scopes give. -/
theorem receiver (h : site.Fits distances (.expr (.receiver id keyword))) :
    distances[id]? = Scope.distance? keyword.lexeme site.scopes := by
  have hunknown := h.settled.unknown id List.mem_cons_self
  have hkept := h.settled.kept id List.mem_cons_self
  have hclean := h.settled.clean
  simp only [Part.analyze, Expr.analyze] at hkept hclean
  cases hclass : site.around.inClass with
  | true =>
      rw [hclass] at hkept
      exact hkept.trans (distance_resolve hunknown)
  | false => simp [hclass, report] at hclean

/-- A variable that is assigned has the distance that its scopes give. -/
theorem assign (h : site.Fits distances (.expr (.assign id name value))) :
    distances[id]? = Scope.distance? name.lexeme site.scopes := by
  have hmem : id ∈ (Expr.assign id name value).ids := by simp [Expr.ids]
  have hother : id ∉ value.ids := by
    have hdistinct := h.settled.distinct
    simp only [Part.ids, Expr.ids, List.nodup_append] at hdistinct
    intro hid
    exact hdistinct.2.2 id hid id (by simp) rfl
  have hunknown : (value.analyze site.around site.analysis).distances[id]? = none := by
    rw [(value.touches site.around).other _ id hother]
    exact h.settled.unknown id hmem
  rw [h.settled.kept id hmem]
  apply (distance_resolve hunknown).trans
  rw [Expr.scopes_analyze, scopes]

theorem leave (h : site.Fits distances (.stmt (.leave keyword))) : site.around.inLoop := by
  have hclean := h.settled.clean
  cases hloop : site.around.inLoop with
  | true => rfl
  | false => simp [Part.analyze, Stmt.analyze, hloop, reportIf, report] at hclean

theorem giveBack {value? : Option Expr}
    (h : site.Fits distances (.stmt (.giveBack keyword value?))) : site.around.inFunction := by
  have hclean := h.settled.clean
  cases hfunction : site.around.inFunction with
  | true => rfl
  | false =>
      cases value? with
      | none => simp [Part.analyze, Stmt.analyze, hfunction, reportIf, report] at hclean
      | some value =>
          have hreport :=
            (touches_reportIf _ _ _).clean _ ((value.touches site.around).clean _ hclean)
          simp [hfunction, reportIf, report] at hreport

end Site.Fits

end Lox
