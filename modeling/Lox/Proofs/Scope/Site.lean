import Lox.Proofs.Scope.Pass

/-!
# Sites in a program

Scope analysis walks over a program from the outside in.  A site is what it
knows when it comes to a part: what encloses the part, the open scopes, and
which region of the program each of them belongs to.  The parts that are
reached, each with its site, are exactly those that the walk comes to.
-/

namespace Lox

/-- A part of a program that scope analysis walks over. -/
inductive Part where
  | expr (e : Expr)
  | exprs (es : List Expr)
  | stmt (s : Stmt)
  | stmts (ss : List Stmt)
  | function (isInitializer : Bool) (declaration : FunctionDecl)
  | methods (declarations : List FunctionDecl)

namespace Part

def analyze (around : Surroundings) : Part → Analysis → Analysis
  | expr e => e.analyze around
  | exprs es => Expr.analyzeAll around es
  | stmt s => s.analyze around
  | stmts ss => Stmt.analyzeAll around ss
  | function isInitializer declaration => declaration.analyze around isInitializer
  | methods declarations => FunctionDecl.analyzeMethods around declarations

/-- The numbers of the name occurrences in a part. -/
def ids : Part → List Nat
  | expr e => e.ids
  | exprs es => Expr.idsAll es
  | stmt s => s.ids
  | stmts ss => Stmt.idsAll ss
  | function _ declaration => declaration.ids
  | methods declarations => FunctionDecl.idsAll declarations

def Formed (spelled : Token → Prop) : Part → Prop
  | expr e => e.Formed spelled
  | exprs es => Expr.FormedAll spelled es
  | stmt s => s.Formed spelled
  | stmts ss => Stmt.FormedAll spelled ss
  | function _ declaration => declaration.Formed spelled
  | methods declarations => FunctionDecl.FormedAll spelled declarations

def isExpression : Part → Bool
  | expr _ | exprs _ => true
  | _ => false

end Part

/-- What a scope is made for: a block, a function with its parameters, or the
class body around a method. -/
inductive Region where
  | block (body : List Stmt)
  | function (declaration : FunctionDecl)
  | classBody (method : FunctionDecl)

/-- What the analysis knows when it comes to a part of the program. -/
structure Site where
  around : Surroundings
  /-- The regions that the open scopes belong to, from the inside out. -/
  regions : List Region
  analysis : Analysis

namespace Site

/-- The open scopes, from the inside out. -/
def scopes (site : Site) : List Scope :=
  site.analysis.scopes

/-- The site after a part. -/
def after (site : Site) (part : Part) : Site :=
  { site with analysis := part.analyze site.around site.analysis }

/-- The site at the initializer of a variable. -/
def declaring (site : Site) (name : Token) : Site :=
  { site with analysis := site.analysis.declare name }

/-- The site after the declaration of a function or class has been completed. -/
def declared (site : Site) (name : Token) : Site :=
  { site with analysis := (site.analysis.declare name).define name }

/-- The site after a keyword that may be misplaced. -/
def checked (site : Site) (condition : Bool) (token : Token) (error : ScopeError) : Site :=
  { site with analysis := site.analysis.reportIf condition token error }

def inside (site : Site) (scope : Scope) : Site :=
  { site with analysis := { site.analysis with scopes := scope :: site.analysis.scopes } }

def within (site : Site) (region : Region) : Site :=
  { site with regions := region :: site.regions }

def surrounded (site : Site) (around : Surroundings) : Site :=
  { site with around := around }

/-- The site at the body of a function. -/
def body (site : Site) (isInitializer : Bool) (declaration : FunctionDecl) : Site where
  around := site.around.function isInitializer
  regions := .function declaration :: site.regions
  analysis := Analysis.parameters declaration.parameters
    { site.analysis with scopes := ∅ :: site.analysis.scopes }

end Site

/-- The parts directly inside a part, each with the site at which the analysis
comes to it. -/
def Part.children : Part → Site → List (Part × Site)
  | expr (.grouping inner), site => [(expr inner, site)]
  | expr (.unary _ operand), site => [(expr operand, site)]
  | expr (.binary left _ right), site => [(expr left, site), (expr right, site.after (expr left))]
  | expr (.logical left _ right), site => [(expr left, site), (expr right, site.after (expr left))]
  | expr (.assign _ _ value), site => [(expr value, site)]
  | expr (.get object _), site => [(expr object, site)]
  | expr (.set object _ value), site =>
    [(expr value, site), (expr object, site.after (expr value))]
  | expr (.call callee _ arguments), site =>
    [(expr callee, site), (exprs arguments, site.after (expr callee))]
  | expr (.list _ elements), site => [(exprs elements, site)]
  | expr (.literal _), _ | expr (.reference _ _), _ | expr (.receiver _ _), _ => []
  | exprs [], _ => []
  | exprs (e :: es), site => [(expr e, site), (exprs es, site.after (expr e))]
  | stmt (.expression value), site => [(expr value, site)]
  | stmt (.print value), site => [(expr value, site)]
  | stmt (.declare _ none), _ => []
  | stmt (.declare name (some initializer)), site => [(expr initializer, site.declaring name)]
  | stmt (.block body), site => [(stmts body, (site.inside ∅).within (.block body))]
  | stmt (.branch condition thenBranch none), site =>
    [(expr condition, site), (stmt thenBranch, site.after (expr condition))]
  | stmt (.branch condition thenBranch (some elseBranch)), site =>
    [(expr condition, site), (stmt thenBranch, site.after (expr condition)),
      (stmt elseBranch, (site.after (expr condition)).after (stmt thenBranch))]
  | stmt (.loop condition body), site =>
    [(expr condition, site),
      (stmt body, (site.after (expr condition)).surrounded site.around.loop)]
  | stmt (.leave _), _ => []
  | stmt (.function declaration), site =>
    [(function false declaration, site.declared declaration.name)]
  | stmt (.giveBack _ none), _ => []
  | stmt (.giveBack keyword (some value)), site =>
    [(expr value, (site.checked (!site.around.inFunction) keyword .returnAtTopLevel).checked
      site.around.inInitializer keyword .returnFromInitializer)]
  | stmt (.classDecl name declarations), site =>
    [(methods declarations,
      ((site.declared name).inside ((∅ : Scope).insert "this" true)).surrounded
        site.around.classBody)]
  | stmts [], _ => []
  | stmts (s :: ss), site => [(stmt s, site), (stmts ss, site.after (stmt s))]
  | function isInitializer declaration, site =>
    [(stmts declaration.body, site.body isInitializer declaration)]
  | methods [], _ => []
  | methods (d :: ds), site =>
    [(function d.isInitializer d, site.within (.classBody d)),
      (methods ds, site.after (function d.isInitializer d))]

/-- A program and the distances known before it was analysed. -/
structure Program where
  distances : Distances
  statements : List Stmt

namespace Program

/-- The site of the whole program: no scope is open. -/
def site (program : Program) : Site where
  around := {}
  regions := []
  analysis := ⟨[], program.distances, #[]⟩

def ids (program : Program) : List Nat :=
  Stmt.idsAll program.statements

end Program

/-- The analysis of the program comes to the part at the site. -/
inductive Reached (program : Program) : Part → Site → Prop where
  | start : Reached program (.stmts program.statements) program.site
  | child {part inner : Part} {site site' : Site} (h : Reached program part site)
    (hchild : (inner, site') ∈ part.children site) : Reached program inner site'

end Lox
