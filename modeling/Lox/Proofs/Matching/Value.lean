import Lox.Proofs.Likeness.Value
import Lox.Proofs.Matching.Tree

/-!
# Matching values

Two values match if they differ in nothing but the trees of the functions in
them, and these match; such values are alike, so operators give matching results
and matching values are shown in the same way.
-/

namespace Lox

variable (c : Correspondence)

structure Closure.Matches (closure closure' : Closure) : Prop where
  identity : closure.identity = closure'.identity
  declaration : closure.declaration.Matches c closure'.declaration
  frame : closure.frame = closure'.frame
  isInitializer : closure.isInitializer = closure'.isInitializer

structure ClassValue.Matches (cls cls' : ClassValue) : Prop where
  identity : cls.identity = cls'.identity
  name : cls.name = cls'.name
  methods (name : String) : Option.Rel (Closure.Matches c) cls.methods[name]? cls'.methods[name]?

inductive Value.Matches : Value → Value → Prop where
  | nil : Matches .nil .nil
  | truth (value : Bool) : Matches (.truth value) (.truth value)
  | number (value : Float) : Matches (.number value) (.number value)
  | text (value : String) : Matches (.text value) (.text value)
  | function {closure closure' : Closure} (h : closure.Matches c closure') :
    Matches (.function closure) (.function closure')
  | native (native : Native) : Matches (.native native) (.native native)
  | classValue {cls cls' : ClassValue} (h : cls.Matches c cls') :
    Matches (.classValue cls) (.classValue cls')
  | object {cls cls' : ClassValue} (h : cls.Matches c cls') (id : InstanceId) :
    Matches (.object cls id) (.object cls' id)
  | list (id : ListId) : Matches (.list id) (.list id)

/-- The values match one by one. -/
abbrev Value.MatchAll (values values' : Array Value) : Prop :=
  List.Forall₂ (Value.Matches c) values.toList values'.toList

/-- The same error, or matching values. -/
inductive Value.ResultsMatch : Except RuntimeError Value → Except RuntimeError Value → Prop where
  | ok {value value' : Value} (h : value.Matches c value') : ResultsMatch (.ok value) (.ok value')
  | error (error : RuntimeError) : ResultsMatch (.error error) (.error error)

variable {c}

theorem Closure.Matches.arity {closure closure' : Closure} (h : closure.Matches c closure') :
    closure.arity = closure'.arity :=
  h.declaration.arity

theorem Closure.Matches.name {closure closure' : Closure} (h : closure.Matches c closure') :
    closure.name = closure'.name :=
  h.declaration.name.lexeme

theorem ClassValue.Matches.initializer? {cls cls' : ClassValue} (h : cls.Matches c cls') :
    Option.Rel (Closure.Matches c) cls.initializer? cls'.initializer? :=
  h.methods FunctionDecl.initializerName

theorem ClassValue.Matches.arity {cls cls' : ClassValue} (h : cls.Matches c cls') :
    cls.arity = cls'.arity := by
  have hinitializer := h.initializer?
  simp only [ClassValue.arity]
  generalize cls.initializer? = method at hinitializer ⊢
  generalize cls'.initializer? = method' at hinitializer ⊢
  cases hinitializer with
  | none => rfl
  | some hmethod => exact hmethod.arity

/-- What matches is alike. -/
def Correspondence.likeness (c : Correspondence) : Likeness where
  functions := Closure.Matches c
  classes := ClassValue.Matches c
  identity_function h := h.identity
  name_function h := h.name
  identity_class h := h.identity
  name_class h := h.name

namespace Value

variable {value value' left left' right right' : Value}

theorem Matches.like (h : value.Matches c value') : value.Like c.likeness value' := by
  cases h with
  | nil => exact .nil
  | truth value => exact .truth value
  | number value => exact .number value
  | text value => exact .text value
  | function hclosure => exact .function hclosure
  | native native => exact .native native
  | classValue hcls => exact .classValue hcls
  | object hcls id => exact .object hcls id
  | list id => exact .list id

theorem Like.matches (h : value.Like c.likeness value') : value.Matches c value' := by
  cases h with
  | nil => exact .nil
  | truth value => exact .truth value
  | number value => exact .number value
  | text value => exact .text value
  | function hclosure => exact .function hclosure
  | native native => exact .native native
  | classValue hcls => exact .classValue hcls
  | object hcls id => exact .object hcls id
  | list id => exact .list id

theorem ResultsLike.matches {result result' : Except RuntimeError Value}
    (h : ResultsLike c.likeness result result') : ResultsMatch c result result' := by
  cases h with
  | ok hvalue => exact .ok hvalue.matches
  | error error => exact .error error

theorem MatchAll.like {values values' : Array Value} (h : MatchAll c values values') :
    AllLike c.likeness values values' :=
  List.Forall₂.imp (fun _ _ => Matches.like) h

theorem AllLike.matches {values values' : Array Value} (h : AllLike c.likeness values values') :
    MatchAll c values values' :=
  List.Forall₂.imp (fun _ _ => Like.matches) h

theorem Matches.isTruthy (h : value.Matches c value') : value.isTruthy = value'.isTruthy :=
  h.like.isTruthy

theorem Matches.applyUnary (h : value.Matches c value') (operator : Kind) :
    ResultsMatch c (value.applyUnary operator) (value'.applyUnary operator) :=
  (h.like.applyUnary operator).matches

theorem Matches.applyBinary (hleft : left.Matches c left') (hright : right.Matches c right')
    (operator : Kind) :
    ResultsMatch c (left.applyBinary operator right) (left'.applyBinary operator right') :=
  (hleft.like.applyBinary hright.like operator).matches

end Value

/-- The lists of one text have matching elements in the other. -/
structure Lists.Match (c : Correspondence) (lists lists' : Array (Array Value)) : Prop where
  size : lists.size = lists'.size
  elements (list : ListId) : Value.MatchAll c (lists.getD list #[]) (lists'.getD list #[])

theorem Lists.Match.like {lists lists' : Array (Array Value)} (h : Lists.Match c lists lists') :
    Lists.Like c.likeness lists lists' :=
  ⟨h.size, fun list => Value.MatchAll.like (h.elements list)⟩

theorem Value.Matches.display {lists lists' : Array (Array Value)}
    (hlists : Lists.Match c lists lists') {value value' : Value} (h : value.Matches c value') :
    value.display lists = value'.display lists' :=
  h.like.display hlists.like

end Lox
