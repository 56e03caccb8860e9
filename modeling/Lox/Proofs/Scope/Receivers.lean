import Lox.Proofs.Scope.Settled

/-!
# Scopes with a receiver

No name that is declared is spelled like the receiver.  The scopes in which the
analysis finds the receiver are therefore those of class bodies, and wherever a
receiver is accepted, its distance counts the scopes up to the innermost class body.
-/

namespace Lox

/-- Whether the region is the class body around a method. -/
def Region.isClassBody : Region → Bool
  | classBody _ => true
  | _ => false

/-- The distance of a name is the position of the first scope that has it. -/
theorem Scope.distance?_eq_findIdx? (name : String) (scopes : List Scope) :
    distance? name scopes = scopes.findIdx? (·.contains name) := by
  induction scopes with
  | nil => rfl
  | cons scope outer ih => rw [distance?, List.findIdx?_cons, ih]

namespace Analysis

/-- Which of the open scopes have a receiver, from the inside out. -/
def receivers (analysis : Analysis) : List Bool :=
  analysis.scopes.map (·.contains "this")

variable {analysis : Analysis}

theorem receivers_congr {other : Analysis} (h : analysis.scopes = other.scopes) :
    analysis.receivers = other.receivers :=
  congrArg (List.map _) h

theorem receivers_declare {name : Token} (hname : name.lexeme ≠ "this") :
    (analysis.declare name).receivers = analysis.receivers := by
  rw [receivers, receivers, declare]
  cases hscopes : analysis.scopes with
  | nil => simp [hscopes]
  | cons scope outer =>
      by_cases hcontains : scope.contains name.lexeme
      · simp [hcontains, report, hscopes]
      · simp [hcontains, Std.TreeMap.contains_insert, hname]

theorem receivers_define {name : Token} (hname : name.lexeme ≠ "this") :
    (analysis.define name).receivers = analysis.receivers := by
  rw [receivers, receivers, define]
  cases hscopes : analysis.scopes with
  | nil => simp [hscopes]
  | cons scope outer => simp [Std.TreeMap.contains_insert, hname]

theorem receivers_parameters {names : List Token} (hnames : ∀ name ∈ names, name.lexeme ≠ "this") :
    (parameters names analysis).receivers = analysis.receivers := by
  induction names generalizing analysis with
  | nil => rfl
  | cons name names ih =>
      obtain ⟨hname, hnames⟩ := List.forall_mem_cons.1 hnames
      rw [parameters, ih hnames, receivers_define hname, receivers_declare hname]

theorem receivers_scopesAfter {declared? : Option Token}
    (hdeclared : ∀ name ∈ declared?, name.lexeme ≠ "this") :
    (analysis.scopesAfter declared?).map (·.contains "this") = analysis.receivers := by
  cases declared? with
  | none => rfl
  | some name =>
      have hname := hdeclared name rfl
      exact (receivers_define hname).trans (receivers_declare hname)

end Analysis

/-- What a formed statement declares is not spelled like the receiver. -/
theorem Stmt.declared_ne_this {s : Stmt} (h : s.Formed Token.Spelled) :
    ∀ name ∈ s.declared?, name.lexeme ≠ "this" := by
  intro name hname
  have hnames : name.Names Token.Spelled := by
    rcases s with _ | _ | ⟨_, _ | _⟩ | _ | ⟨_, _, _ | _⟩ | _ | _ | ⟨_, _, _⟩ | ⟨_, _ | _⟩ | _ <;>
      simp only [declared?, Option.mem_def, Option.some.injEq, reduceCtorEq] at hname <;>
      subst hname
    case declare.none => exact h
    case declare.some => exact h.1
    case function => exact h.1
    case classDecl => exact h.1
  exact hnames.1.ne_this hnames.2

/-- At the methods of a class the scope of the class body is open, but the region of none
of them has been entered. -/
def Part.bodies : Part → List Bool
  | methods _ => [true]
  | _ => []

namespace Site

def receivers (site : Site) : List Bool :=
  site.analysis.receivers

/-- The scopes with a receiver are those of class bodies, and inside a class there is
one. -/
structure Receives (site : Site) (part : Part) : Prop where
  scopes : site.receivers = part.bodies ++ site.regions.map Region.isClassBody
  inClass : site.around.inClass → true ∈ site.receivers

variable {site site' : Site} {part inner : Part}

theorem receivers_after_expr (e : Expr) : (site.after (.expr e)).receivers = site.receivers :=
  Analysis.receivers_congr (e.scopes_analyze site.around site.analysis)

theorem receivers_after_stmt {s : Stmt} (h : s.Formed Token.Spelled) :
    (site.after (.stmt s)).receivers = site.receivers := by
  have hscopes := s.scopes_analyze site.around h site.analysis
  exact (congrArg (List.map _) hscopes).trans
    (Analysis.receivers_scopesAfter (Stmt.declared_ne_this h))

theorem receivers_declared {name : Token} (h : name.Names Token.Spelled) :
    (site.declared name).receivers = site.receivers := by
  have hname := h.1.ne_this h.2
  exact (Analysis.receivers_define hname).trans (Analysis.receivers_declare hname)

/-- A site with the same scopes. -/
theorem Receives.same (h : site.Receives part) (hbodies : inner.bodies = part.bodies)
    (hreceivers : site'.receivers = site.receivers) (hregions : site'.regions = site.regions)
    (haround : site'.around.inClass = site.around.inClass) : site'.Receives inner := by
  constructor
  · rw [hreceivers, hbodies, hregions]
    exact h.scopes
  · rw [hreceivers, haround]
    exact h.inClass

/-- A site with one more scope, that of a block or a function. -/
theorem Receives.scope (h : site.Receives part) (hpart : part.bodies = [])
    (hinner : inner.bodies = []) {region : Region} (hregion : region.isClassBody = false)
    (hreceivers : site'.receivers = false :: site.receivers)
    (hregions : site'.regions = region :: site.regions)
    (haround : site'.around.inClass = site.around.inClass) : site'.Receives inner := by
  constructor
  · rw [hreceivers, hinner, hregions, h.scopes, hpart, List.map_cons, hregion]
    rfl
  · rw [hreceivers, haround]
    exact fun hclass => List.mem_cons_of_mem _ (h.inClass hclass)

theorem around_child_expression (hpart : part.isExpression)
    (hchild : (inner, site') ∈ part.children site) : site'.around = site.around := by
  cases part with
  | expr e =>
      cases e <;>
        simp only [Part.children, List.mem_cons, List.not_mem_nil, or_false, Prod.mk.injEq]
          at hchild <;>
        rcases hchild with ⟨-, hsite⟩ | ⟨-, hsite⟩
      all_goals simp_all [Site.after]
  | exprs es =>
      cases es <;>
        simp only [Part.children, List.mem_cons, List.not_mem_nil, or_false, Prod.mk.injEq]
          at hchild
      rcases hchild with ⟨-, hsite⟩ | ⟨-, hsite⟩
      all_goals simp_all [Site.after]
  | stmt _ | stmts _ | function _ _ | methods _ => cases hpart

theorem Receives.child_expression (h : site.Receives part) (hpart : part.isExpression)
    (hchild : (inner, site') ∈ part.children site) : site'.Receives inner := by
  obtain ⟨hinner, hregions, hscopes⟩ := Part.scopes_child_expression hpart hchild
  have hnone {part : Part} (hpart : part.isExpression) : part.bodies = [] := by
    cases part <;> first | rfl | cases hpart
  exact h.same ((hnone hinner).trans (hnone hpart).symm) (Analysis.receivers_congr hscopes)
    hregions (congrArg _ (around_child_expression hpart hchild))

theorem Receives.child_stmt {s : Stmt} (h : site.Receives (.stmt s))
    (hformed : s.Formed Token.Spelled) (hchild : (inner, site') ∈ (Part.stmt s).children site) :
    site'.Receives inner := by
  rcases s with value | value | ⟨name, _ | initializer⟩ | body |
    ⟨condition, thenBranch, _ | elseBranch⟩ | ⟨condition, body⟩ | keyword | declaration |
    ⟨keyword, _ | value⟩ | ⟨name, declarations⟩ <;>
    simp only [Part.children, List.mem_cons, List.not_mem_nil, or_false, Prod.mk.injEq] at hchild
  case expression | print =>
    obtain ⟨rfl, rfl⟩ := hchild
    exact h.same rfl rfl rfl rfl
  case declare.some =>
    obtain ⟨rfl, rfl⟩ := hchild
    exact h.same rfl (Analysis.receivers_declare (hformed.1.1.ne_this hformed.1.2)) rfl rfl
  case block =>
    obtain ⟨rfl, rfl⟩ := hchild
    have hregion : (Region.block body).isClassBody = false := rfl
    refine h.scope rfl rfl hregion ?_ rfl rfl
    simp [receivers, Analysis.receivers, Site.inside, Site.within]
  case branch.none =>
    obtain ⟨rfl, rfl⟩ | ⟨rfl, rfl⟩ := hchild
    · exact h.same rfl rfl rfl rfl
    · exact h.same rfl (receivers_after_expr condition) rfl rfl
  case branch.some =>
    obtain ⟨rfl, rfl⟩ | ⟨rfl, rfl⟩ | ⟨rfl, rfl⟩ := hchild
    · exact h.same rfl rfl rfl rfl
    · exact h.same rfl (receivers_after_expr condition) rfl rfl
    · exact h.same rfl ((receivers_after_stmt hformed.2.1.1).trans
        (receivers_after_expr condition)) rfl rfl
  case loop =>
    obtain ⟨rfl, rfl⟩ | ⟨rfl, rfl⟩ := hchild
    · exact h.same rfl rfl rfl rfl
    · exact h.same rfl (receivers_after_expr condition) rfl rfl
  case function =>
    obtain ⟨rfl, rfl⟩ := hchild
    obtain ⟨name, parameters, body⟩ := declaration
    exact h.same rfl (receivers_declared hformed.1) rfl rfl
  case giveBack.some =>
    obtain ⟨rfl, rfl⟩ := hchild
    refine h.same rfl (Analysis.receivers_congr ?_) rfl rfl
    exact (Analysis.scopes_reportIf ..).trans (Analysis.scopes_reportIf ..)
  case classDecl =>
    obtain ⟨rfl, rfl⟩ := hchild
    have hreceivers : (((site.declared name).inside ((∅ : Scope).insert "this" true)).surrounded
        site.around.classBody).receivers = true :: site.receivers := by
      have hdeclared : (site.declared name).receivers = site.receivers :=
        receivers_declared hformed.1
      rw [← hdeclared]
      simp [receivers, Analysis.receivers, Site.inside, Site.surrounded]
    constructor
    · rw [hreceivers, h.scopes]
      rfl
    · rw [hreceivers]
      exact fun _ => List.mem_cons_self

/-- The parts inside a part are in scopes with receivers for their class bodies. -/
theorem Receives.child (h : site.Receives part) (hformed : part.Formed Token.Spelled)
    (hchild : (inner, site') ∈ part.children site) : site'.Receives inner := by
  cases part with
  | expr _ | exprs _ => exact h.child_expression rfl hchild
  | stmt s => exact h.child_stmt hformed hchild
  | stmts ss =>
      cases ss <;>
        simp only [Part.children, List.mem_cons, List.not_mem_nil, or_false, Prod.mk.injEq]
          at hchild
      case cons s ss =>
        obtain ⟨rfl, rfl⟩ | ⟨rfl, rfl⟩ := hchild
        · exact h.same rfl rfl rfl rfl
        · exact h.same rfl (receivers_after_stmt hformed.1) rfl rfl
  | function isInitializer declaration =>
      simp only [Part.children, List.mem_singleton, Prod.mk.injEq] at hchild
      obtain ⟨rfl, rfl⟩ := hchild
      obtain ⟨name, parameters, body⟩ := declaration
      have hparameters : ∀ parameter ∈ parameters, parameter.lexeme ≠ "this" :=
        fun parameter hparameter =>
          (hformed.2.1 parameter hparameter).1.ne_this (hformed.2.1 parameter hparameter).2
      have hregion : (Region.function (.mk name parameters body)).isClassBody = false := rfl
      refine h.scope rfl rfl hregion ?_ rfl rfl
      refine (Analysis.receivers_parameters hparameters).trans ?_
      simp [receivers, Analysis.receivers]
  | methods declarations =>
      cases declarations <;>
        simp only [Part.children, List.mem_cons, List.not_mem_nil, or_false, Prod.mk.injEq]
          at hchild
      case cons d ds =>
        obtain ⟨rfl, rfl⟩ | ⟨rfl, rfl⟩ := hchild
        · exact ⟨h.scopes, h.inClass⟩
        · exact h.same rfl (Analysis.receivers_congr (d.scopes_analyze _ _ _)) rfl rfl

end Site

theorem Reached.receives {distances : Distances} {program : Program} {part : Part} {site : Site}
    (h : Reached program part site) (haccepted : program.Accepted distances) :
    site.Receives part := by
  induction h with
  | start => exact ⟨rfl, fun hclass => by cases hclass⟩
  | child hreached hchild ih => exact ih.child (hreached.fits haccepted).formed hchild

/-- A receiver that is accepted is inside a class. -/
theorem Site.Fits.inClass {distances : Distances} {site : Site} {id : Nat} {keyword : Token}
    (h : site.Fits distances (.expr (.receiver id keyword))) : site.around.inClass := by
  have hclean := h.settled.clean
  cases hclass : site.around.inClass with
  | true => rfl
  | false => simp [Part.analyze, Expr.analyze, hclass, Analysis.report] at hclean

/-- A receiver is found as far out as the innermost class body is, and there is one. -/
theorem Site.Receives.distance {distances : Distances} {site : Site} {id : Nat} {keyword : Token}
    (h : site.Receives (.expr (.receiver id keyword)))
    (hfits : site.Fits distances (.expr (.receiver id keyword))) :
    ∃ distance, distances[id]? = some distance ∧
      site.regions.findIdx? Region.isClassBody = some distance := by
  have hthis : keyword.lexeme = "this" := hfits.formed.1.1 hfits.formed.2
  have hregions : site.receivers = site.regions.map Region.isClassBody := h.scopes
  have hfound : distances[id]? = site.regions.findIdx? Region.isClassBody := by
    calc
      distances[id]? = Scope.distance? "this" site.scopes := hthis ▸ hfits.receiver
      _ = site.receivers.findIdx? (·) := by
        rw [Scope.distance?_eq_findIdx?, receivers, Analysis.receivers, List.findIdx?_map]
        rfl
      _ = site.regions.findIdx? Region.isClassBody := by
        rw [hregions, List.findIdx?_map]
        rfl
  have hsome : (site.regions.findIdx? Region.isClassBody).isSome := by
    have hclass := h.inClass hfits.inClass
    rw [hregions, List.mem_map] at hclass
    obtain ⟨region, hmem, hbody⟩ := hclass
    rw [List.findIdx?_isSome]
    exact List.any_eq_true.2 ⟨region, hmem, hbody⟩
  obtain ⟨distance, hdistance⟩ := Option.isSome_iff_exists.1 hsome
  exact ⟨distance, hfound.trans hdistance, hdistance⟩

end Lox
