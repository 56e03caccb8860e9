import Lox.Diagnostic
import Lox.Scope
import Lox.Syntax

/-!
# Scope analysis

One pass over a program that records the distance of every occurrence of a
local name and reports misplaced declarations and keywords.  A block, a
function with its parameters and a class body are a scope each; a class body
declares nothing but `this`.
-/

namespace Lox

/-- What encloses a part of a program, other than its scopes. -/
structure Surroundings where
  /-- Whether a loop of the same function encloses it. -/
  inLoop : Bool := false
  inFunction : Bool := false
  /-- Whether the innermost enclosing function is an initializer. -/
  inInitializer : Bool := false
  inClass : Bool := false
  deriving DecidableEq, Repr

namespace Surroundings

/-- The surroundings of a loop's body. -/
def loop (outside : Surroundings) : Surroundings :=
  { outside with inLoop := true }

/-- The surroundings of a function's body; loops outside it do not count. -/
def function (outside : Surroundings) (isInitializer : Bool) : Surroundings :=
  { outside with inLoop := false, inFunction := true, inInitializer := isInitializer }

/-- The surroundings of a class's methods. -/
def classBody (outside : Surroundings) : Surroundings :=
  { outside with inClass := true }

end Surroundings

/-- The state of the analysis: the open scopes from the inside out and what has
been found so far. -/
structure Analysis where
  scopes : List Scope
  distances : Distances
  diagnostics : Array Diagnostic

namespace Analysis

def report (token : Token) (error : ScopeError) (analysis : Analysis) : Analysis :=
  { analysis with diagnostics := analysis.diagnostics.push (.scoping token error) }

def reportIf (condition : Bool) (token : Token) (error : ScopeError)
    (analysis : Analysis) : Analysis :=
  if condition then analysis.report token error else analysis

/-- Begins the declaration of a name in the innermost scope.  Globals may be
declared again, all other names once in a scope. -/
def declare (name : Token) (analysis : Analysis) : Analysis :=
  match analysis.scopes with
  | [] => analysis
  | scope :: outer =>
    if scope.contains name.lexeme then analysis.report name .alreadyDeclared
    else { analysis with scopes := scope.insert name.lexeme false :: outer }

/-- Completes the declaration of a name. -/
def define (name : Token) (analysis : Analysis) : Analysis :=
  match analysis.scopes with
  | [] => analysis
  | scope :: outer => { analysis with scopes := scope.insert name.lexeme true :: outer }

/-- Records the distance of an occurrence of a name. -/
def resolve (id : Nat) (name : Token) (analysis : Analysis) : Analysis :=
  match Scope.distance? name.lexeme analysis.scopes with
  | some distance => { analysis with distances := analysis.distances.insert id distance }
  | none => analysis

/-- Whether the innermost scope is still at the initializer of the name. -/
def isInitializing (name : Token) (analysis : Analysis) : Bool :=
  match analysis.scopes with
  | [] => false
  | scope :: _ => scope[name.lexeme]? == some false

/-- Analyses a part of the program in a scope of its own. -/
def within (scope : Scope) (part : Analysis → Analysis) (analysis : Analysis) : Analysis :=
  let after := part { analysis with scopes := scope :: analysis.scopes }
  { after with scopes := after.scopes.tail }

def parameters : List Token → Analysis → Analysis
  | [], analysis => analysis
  | name :: names, analysis => parameters names ((analysis.declare name).define name)

end Analysis

open Analysis

mutual

def Expr.analyze (around : Surroundings) : Expr → Analysis → Analysis
  | .literal _, analysis => analysis
  | .grouping inner, analysis => inner.analyze around analysis
  | .unary _ operand, analysis => operand.analyze around analysis
  | .binary left _ right, analysis => right.analyze around (left.analyze around analysis)
  | .logical left _ right, analysis => right.analyze around (left.analyze around analysis)
  | .reference id name, analysis =>
    (analysis.reportIf (analysis.isInitializing name) name .ownInitializer).resolve id name
  | .assign id name value, analysis => (value.analyze around analysis).resolve id name
  | .receiver id keyword, analysis =>
    if around.inClass then analysis.resolve id keyword
    else analysis.report keyword .thisOutsideClass
  | .get object _, analysis => object.analyze around analysis
  | .set object _ value, analysis => object.analyze around (value.analyze around analysis)
  | .call callee _ arguments, analysis =>
    Expr.analyzeAll around arguments (callee.analyze around analysis)
  | .list _ elements, analysis => Expr.analyzeAll around elements analysis
termination_by structural e => e

def Expr.analyzeAll (around : Surroundings) : List Expr → Analysis → Analysis
  | [], analysis => analysis
  | e :: es, analysis => Expr.analyzeAll around es (e.analyze around analysis)
termination_by structural es => es

end

mutual

def Stmt.analyze (around : Surroundings) : Stmt → Analysis → Analysis
  | .expression value, analysis => value.analyze around analysis
  | .print value, analysis => value.analyze around analysis
  | .declare name none, analysis => (analysis.declare name).define name
  | .declare name (some initializer), analysis =>
    (initializer.analyze around (analysis.declare name)).define name
  | .block body, analysis => analysis.within ∅ (Stmt.analyzeAll around body)
  | .branch condition thenBranch none, analysis =>
    thenBranch.analyze around (condition.analyze around analysis)
  | .branch condition thenBranch (some elseBranch), analysis =>
    elseBranch.analyze around (thenBranch.analyze around (condition.analyze around analysis))
  | .loop condition body, analysis =>
    body.analyze around.loop (condition.analyze around analysis)
  | .leave keyword, analysis => analysis.reportIf (!around.inLoop) keyword .breakOutsideLoop
  | .function declaration, analysis =>
    declaration.analyze around false
      ((analysis.declare declaration.name).define declaration.name)
  | .giveBack keyword none, analysis =>
    analysis.reportIf (!around.inFunction) keyword .returnAtTopLevel
  | .giveBack keyword (some value), analysis =>
    value.analyze around
      ((analysis.reportIf (!around.inFunction) keyword .returnAtTopLevel).reportIf
        around.inInitializer keyword .returnFromInitializer)
  | .classDecl name methods, analysis =>
    ((analysis.declare name).define name).within ((∅ : Scope).insert "this" true)
      (FunctionDecl.analyzeMethods around.classBody methods)
termination_by structural s => s

def Stmt.analyzeAll (around : Surroundings) : List Stmt → Analysis → Analysis
  | [], analysis => analysis
  | s :: ss, analysis => Stmt.analyzeAll around ss (s.analyze around analysis)
termination_by structural ss => ss

/-- The parameters and the body share one scope. -/
def FunctionDecl.analyze (around : Surroundings) (isInitializer : Bool) :
    FunctionDecl → Analysis → Analysis
  | .mk _ names body, analysis =>
    analysis.within ∅ fun inside =>
      Stmt.analyzeAll (around.function isInitializer) body (parameters names inside)
termination_by structural declaration => declaration

def FunctionDecl.analyzeMethods (around : Surroundings) :
    List FunctionDecl → Analysis → Analysis
  | [], analysis => analysis
  | d :: ds, analysis =>
    FunctionDecl.analyzeMethods around ds (d.analyze around d.isInitializer analysis)
termination_by structural ds => ds

end

/-- Analyses a program: the distances known so far together with those of its
local names, and the errors in it. -/
def Analysis.ofProgram (distances : Distances) (statements : List Stmt) :
    Distances × List Diagnostic :=
  let analysis := Stmt.analyzeAll {} statements ⟨[], distances, #[]⟩
  (analysis.distances, analysis.diagnostics.toList)

end Lox
