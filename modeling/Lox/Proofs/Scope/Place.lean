import Lox.Proofs.Scope.Lexical

/-!
# Misplaced keywords and names

A keyword `break`, `return` or `this`, a name that is declared and a variable
that is read are right or wrong by what is around them: loops, functions and
classes, and the names that the scopes hold from earlier declarations.  All of
this is read off the tree alone.
-/

namespace Lox

open Occurrence (declaring)

/-- A construct around a place in a program. -/
inductive Enclosing where
  | loopBody
  | function (name : String) (isMethod : Bool)
  | classBody
  deriving DecidableEq, Repr

namespace Enclosing

def isFunction : Enclosing → Bool
  | function _ _ => true
  | loopBody | classBody => false

@[simp]
theorem isFunction_loopBody : loopBody.isFunction = false := rfl

@[simp]
theorem isFunction_function (name : String) (isMethod : Bool) :
    (function name isMethod).isFunction = true := rfl

@[simp]
theorem isFunction_classBody : classBody.isFunction = false := rfl

end Enclosing

/-- What stands at a place. -/
inductive Place.Kind where
  | leave
  | giveBack (hasValue : Bool)
  | receiver
  | declaration
  | reference
  deriving DecidableEq, Repr

structure Place where
  kind : Place.Kind
  token : Token
  /-- The constructs around the place, from the inside out. -/
  enclosing : List Enclosing
  /-- What the scopes around the place hold from earlier declarations, from the
  inside out.  Global names are in none of them. -/
  scopes : List (List String)
  /-- The variable whose initializer the place is in.  The scopes do not count its
  declaration. -/
  initialized? : Option String

namespace Place

/-- What is wrong at a place, by the message for it. -/
inductive Violates (place : Place) : String → Prop
  | breakOutsideLoop (hkind : place.kind = .leave)
      (houtside : .loopBody ∉ place.enclosing.takeWhile (!·.isFunction)) :
    Violates place "Can only break out of loops."
  | returnAtTopLevel {hasValue : Bool} (hkind : place.kind = .giveBack hasValue)
      (houtside : ∀ construct ∈ place.enclosing, ¬construct.isFunction) :
    Violates place "Can't return from top-level code."
  | returnFromInitializer (hkind : place.kind = .giveBack true)
      (hfunction : place.enclosing.find? Enclosing.isFunction = some (.function "init" true)) :
    Violates place "Can't return a value from an initializer."
  | thisOutsideClass (hkind : place.kind = .receiver) (houtside : .classBody ∉ place.enclosing) :
    Violates place "Can't use 'this' outside of a class."
  | alreadyDeclared {scope : List String} {outer : List (List String)}
      (hkind : place.kind = .declaration) (hlocal : place.scopes = scope :: outer)
      (hearlier : place.token.lexeme ∈ scope) :
    Violates place "Already a variable with this name in this scope."
  | ownInitializer {scope : List String} {outer : List (List String)}
      (hkind : place.kind = .reference) (hlocal : place.scopes = scope :: outer)
      (hvariable : place.initialized? = some place.token.lexeme)
      (hfirst : place.token.lexeme ∉ scope) :
    Violates place "Can't read local variable in its own initializer."

/-- Whether the innermost scope holds the name.  There is none for global names. -/
def holds (scopes : List (List String)) (name : String) : Bool :=
  match scopes with
  | [] => false
  | scope :: _ => name ∈ scope

/-- Whether the name is that of the local variable whose initializer the place is
in, and the scope has it from there only. -/
def isInitializing (scopes : List (List String)) (initialized? : Option String)
    (name : String) : Bool :=
  match scopes with
  | [] => false
  | scope :: _ => initialized? = some name && name ∉ scope

end Place

/-- The surroundings that constructs, from the inside out, make for what is in
them. -/
def Surroundings.of (enclosing : List Enclosing) : Surroundings where
  inLoop := .loopBody ∈ enclosing.takeWhile (!·.isFunction)
  inFunction := enclosing.any Enclosing.isFunction
  inInitializer := enclosing.find? Enclosing.isFunction = some (.function "init" true)
  inClass := .classBody ∈ enclosing

namespace Surroundings

theorem of_nil : of [] = {} := rfl

theorem of_loopBody (enclosing : List Enclosing) :
    of (.loopBody :: enclosing) = (of enclosing).loop := by
  simp [of, loop]

theorem of_function (declaration : FunctionDecl) (isMethod : Bool) (enclosing : List Enclosing) :
    of (.function declaration.name.lexeme isMethod :: enclosing) =
      (of enclosing).function (isMethod && declaration.isInitializer) := by
  have hinitializer : decide (declaration.name.lexeme = "init" ∧ isMethod = true) =
      (isMethod && declaration.isInitializer) := by
    rw [Bool.decide_and, Bool.and_comm, Bool.decide_eq_true]
    rfl
  simpa [of, function] using hinitializer

theorem of_classBody (enclosing : List Enclosing) :
    of (.classBody :: enclosing) = (of enclosing).classBody := by
  simp [of, classBody]

theorem inFunction_of_inInitializer {enclosing : List Enclosing}
    (h : (of enclosing).inInitializer = true) : (of enclosing).inFunction = true := by
  have hfunction : enclosing.find? Enclosing.isFunction = some (.function "init" true) :=
    of_decide_eq_true h
  exact List.any_eq_true.2 ⟨_, List.mem_of_find?_eq_some hfunction, rfl⟩

end Surroundings

namespace Place

/-- The error at a place, if something is wrong there. -/
def error? (place : Place) : Option ScopeError :=
  let around := Surroundings.of place.enclosing
  match place.kind with
  | .leave => if around.inLoop then none else some .breakOutsideLoop
  | .giveBack hasValue =>
    if !around.inFunction then some .returnAtTopLevel
    else if hasValue && around.inInitializer then some .returnFromInitializer
    else none
  | .receiver => if around.inClass then none else some .thisOutsideClass
  | .declaration => if holds place.scopes place.token.lexeme then some .alreadyDeclared else none
  | .reference =>
    if isInitializing place.scopes place.initialized? place.token.lexeme then some .ownInitializer
    else none

def report? (place : Place) : Option Diagnostic :=
  place.error?.map (.scoping place.token)

theorem holds_iff {scopes : List (List String)} {name : String} :
    holds scopes name ↔ ∃ scope outer, scopes = scope :: outer ∧ name ∈ scope := by
  cases scopes <;> simp [holds]

theorem isInitializing_iff {scopes : List (List String)} {initialized? : Option String}
    {name : String} :
    isInitializing scopes initialized? name ↔
      ∃ scope outer, scopes = scope :: outer ∧ initialized? = some name ∧ name ∉ scope := by
  cases scopes <;> simp [isInitializing]

/-- At most one thing is wrong at a place, and the error there says so. -/
theorem violates_iff (place : Place) (message : String) :
    place.Violates message ↔ ∃ error, place.error? = some error ∧ error.message = message := by
  constructor
  · intro hviolates
    cases hviolates with
    | breakOutsideLoop hkind houtside =>
        exact ⟨.breakOutsideLoop, by simpa [error?, hkind, Surroundings.of] using houtside, rfl⟩
    | returnAtTopLevel hkind houtside =>
        refine ⟨.returnAtTopLevel, ?_, rfl⟩
        have hnone : place.enclosing.any Enclosing.isFunction = false := by simpa using houtside
        simp [error?, hkind, Surroundings.of, hnone]
    | returnFromInitializer hkind hfunction =>
        refine ⟨.returnFromInitializer, ?_, rfl⟩
        have hsome : place.enclosing.any Enclosing.isFunction = true :=
          List.any_eq_true.2 ⟨_, List.mem_of_find?_eq_some hfunction, rfl⟩
        simp [error?, hkind, Surroundings.of, hfunction, hsome]
    | thisOutsideClass hkind houtside =>
        exact ⟨.thisOutsideClass, by simpa [error?, hkind, Surroundings.of] using houtside, rfl⟩
    | alreadyDeclared hkind hlocal hearlier =>
        refine ⟨.alreadyDeclared, ?_, rfl⟩
        simp [error?, hkind, holds_iff.2 ⟨_, _, hlocal, hearlier⟩]
    | ownInitializer hkind hlocal hvariable hfirst =>
        refine ⟨.ownInitializer, ?_, rfl⟩
        simp [error?, hkind, isInitializing_iff.2 ⟨_, _, hlocal, hvariable, hfirst⟩]
  · rintro ⟨error, herror, rfl⟩
    cases hkind : place.kind with
    | leave =>
        obtain ⟨houtside, rfl⟩ : _ ∧ ScopeError.breakOutsideLoop = error := by
          simpa [error?, hkind, Surroundings.of] using herror
        exact .breakOutsideLoop hkind (by simpa using houtside)
    | giveBack hasValue =>
        by_cases houtside : place.enclosing.any Enclosing.isFunction = false
        · obtain rfl : ScopeError.returnAtTopLevel = error := by
            simpa [error?, hkind, Surroundings.of, houtside] using herror
          exact .returnAtTopLevel hkind (by simpa using houtside)
        · obtain ⟨⟨rfl, hfunction⟩, rfl⟩ :
              (hasValue = true ∧ _) ∧ ScopeError.returnFromInitializer = error := by
            simpa [error?, hkind, Surroundings.of, houtside] using herror
          exact .returnFromInitializer hkind hfunction
    | receiver =>
        obtain ⟨houtside, rfl⟩ : _ ∧ ScopeError.thisOutsideClass = error := by
          simpa [error?, hkind, Surroundings.of] using herror
        exact .thisOutsideClass hkind houtside
    | declaration =>
        obtain ⟨hholds, rfl⟩ : _ ∧ ScopeError.alreadyDeclared = error := by
          simpa [error?, hkind] using herror
        obtain ⟨scope, outer, hlocal, hearlier⟩ := holds_iff.1 hholds
        exact .alreadyDeclared hkind hlocal hearlier
    | reference =>
        obtain ⟨hinitializing, rfl⟩ : _ ∧ ScopeError.ownInitializer = error := by
          simpa [error?, hkind] using herror
        obtain ⟨scope, outer, hlocal, hvariable, hfirst⟩ := isInitializing_iff.1 hinitializing
        exact .ownInitializer hkind hlocal hvariable hfirst

theorem violates_iff_report (place : Place) (message : String) :
    place.Violates message ↔
      ∃ error, place.report? = some (.scoping place.token error) ∧ error.message = message := by
  rw [violates_iff]
  simp [report?]

/-- The places of names that are declared one after the other in one scope. -/
def declarations (enclosing : List Enclosing) (scopes : List (List String)) :
    List Token → List Place
  | [] => []
  | name :: names =>
    ⟨.declaration, name, enclosing, scopes, none⟩ ::
      declarations enclosing (declaring [name.lexeme] scopes) names

end Place

/-! ## The places of a program -/

mutual

/-- The places in an expression that is, or is not, in the initializer of a
variable. -/
def Expr.places (enclosing : List Enclosing) (scopes : List (List String))
    (initialized? : Option String) : Expr → List Place
  | .literal _ => []
  | .grouping inner => inner.places enclosing scopes initialized?
  | .unary _ operand => operand.places enclosing scopes initialized?
  | .binary left _ right =>
    left.places enclosing scopes initialized? ++ right.places enclosing scopes initialized?
  | .logical left _ right =>
    left.places enclosing scopes initialized? ++ right.places enclosing scopes initialized?
  | .reference _ name => [⟨.reference, name, enclosing, scopes, initialized?⟩]
  | .assign _ _ value => value.places enclosing scopes initialized?
  | .receiver _ keyword => [⟨.receiver, keyword, enclosing, scopes, initialized?⟩]
  | .get object _ => object.places enclosing scopes initialized?
  | .set object _ value =>
    value.places enclosing scopes initialized? ++ object.places enclosing scopes initialized?
  | .call callee _ arguments =>
    callee.places enclosing scopes initialized? ++
      Expr.placesAll enclosing scopes initialized? arguments
  | .list _ elements => Expr.placesAll enclosing scopes initialized? elements
termination_by structural e => e

def Expr.placesAll (enclosing : List Enclosing) (scopes : List (List String))
    (initialized? : Option String) : List Expr → List Place
  | [] => []
  | e :: es =>
    e.places enclosing scopes initialized? ++ Expr.placesAll enclosing scopes initialized? es
termination_by structural es => es

end

mutual

/-- The places in a statement, in the order in which they are written but for the
value of a property, which comes before the object. -/
def Stmt.places (enclosing : List Enclosing) (scopes : List (List String)) : Stmt → List Place
  | .expression value => value.places enclosing scopes none
  | .print value => value.places enclosing scopes none
  | .declare name none => [⟨.declaration, name, enclosing, scopes, none⟩]
  | .declare name (some initializer) =>
    ⟨.declaration, name, enclosing, scopes, none⟩ ::
      initializer.places enclosing scopes (some name.lexeme)
  | .block body => Stmt.placesAll enclosing ([] :: scopes) body
  | .branch condition thenBranch none =>
    condition.places enclosing scopes none ++ thenBranch.places enclosing scopes
  | .branch condition thenBranch (some elseBranch) =>
    condition.places enclosing scopes none ++ thenBranch.places enclosing scopes ++
      elseBranch.places enclosing (declaring thenBranch.declares scopes)
  | .loop condition body =>
    condition.places enclosing scopes none ++ body.places (.loopBody :: enclosing) scopes
  | .leave keyword => [⟨.leave, keyword, enclosing, scopes, none⟩]
  | .function declaration =>
    ⟨.declaration, declaration.name, enclosing, scopes, none⟩ ::
      declaration.places enclosing (declaring [declaration.name.lexeme] scopes) false
  | .giveBack keyword none => [⟨.giveBack false, keyword, enclosing, scopes, none⟩]
  | .giveBack keyword (some value) =>
    ⟨.giveBack true, keyword, enclosing, scopes, none⟩ :: value.places enclosing scopes none
  | .classDecl name methods =>
    ⟨.declaration, name, enclosing, scopes, none⟩ ::
      FunctionDecl.placesOfMethods (.classBody :: enclosing)
        (["this"] :: declaring [name.lexeme] scopes) methods
termination_by structural s => s

/-- The places in statements of one scope, where each statement sees what those
before it declare. -/
def Stmt.placesAll (enclosing : List Enclosing) (scopes : List (List String)) :
    List Stmt → List Place
  | [] => []
  | s :: ss =>
    s.places enclosing scopes ++ Stmt.placesAll enclosing (declaring s.declares scopes) ss
termination_by structural ss => ss

/-- The parameters and the body of a function share one scope. -/
def FunctionDecl.places (enclosing : List Enclosing) (scopes : List (List String))
    (isMethod : Bool) : FunctionDecl → List Place
  | .mk name parameters body =>
    Place.declarations (.function name.lexeme isMethod :: enclosing) ([] :: scopes) parameters ++
      Stmt.placesAll (.function name.lexeme isMethod :: enclosing)
        (parameters.map Token.lexeme :: scopes) body
termination_by structural declaration => declaration

def FunctionDecl.placesOfMethods (enclosing : List Enclosing) (scopes : List (List String)) :
    List FunctionDecl → List Place
  | [] => []
  | d :: ds =>
    d.places enclosing scopes true ++ FunctionDecl.placesOfMethods enclosing scopes ds
termination_by structural ds => ds

end

end Lox
