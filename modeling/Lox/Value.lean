import Std.Data.TreeMap
import Lox.Syntax

/-!
# Values

The values of a running program.  Functions, classes, instances and lists have
an identity, by which they are compared; their mutable parts are kept in the
store, under the numbers that occur here.
-/

namespace Lox

/-- The number of a frame, a list or an instance in the store. -/
abbrev FrameId := Nat

abbrev ListId := Nat

abbrev InstanceId := Nat

/-- A function or method with the frame in which its free names are looked up. -/
structure Closure where
  identity : Nat
  declaration : FunctionDecl
  frame : FrameId
  /-- Whether a call gives `this`, whatever the body does. -/
  isInitializer : Bool
  deriving Inhabited

namespace Closure

def name (closure : Closure) : String :=
  closure.declaration.name.lexeme

def arity (closure : Closure) : Nat :=
  closure.declaration.arity

end Closure

/-- The functions that every program can use without declaring them. -/
inductive Builtin where
  | clock
  | newList
  | length
  | get
  | append
  | set
  | remove
  deriving DecidableEq, Repr, Inhabited

namespace Builtin

def name : Builtin → String
  | clock => "clock"
  | newList => "List"
  | length => "length"
  | get => "get"
  | append => "append"
  | set => "set"
  | remove => "remove"

def arity : Builtin → Nat
  | clock => 0
  | newList => 0
  | length => 0
  | get => 1
  | append => 1
  | set => 2
  | remove => 1

/-- The method of lists with the given name. -/
def listMethod? (name : String) : Option Builtin :=
  [length, get, append, set, remove].find? (·.name == name)

end Builtin

/-- A built-in function, and the list whose method it is. -/
structure Native where
  identity : Nat
  builtin : Builtin
  receiver : Option ListId := none
  deriving DecidableEq, Repr, Inhabited

structure ClassValue where
  identity : Nat
  name : String
  methods : Std.TreeMap String Closure

namespace ClassValue

def initializer? (cls : ClassValue) : Option Closure :=
  cls.methods[FunctionDecl.initializerName]?

/-- A class is called with the arguments of its initializer. -/
def arity (cls : ClassValue) : Nat :=
  (cls.initializer?.map Closure.arity).getD 0

end ClassValue

inductive Value where
  | nil
  | truth (value : Bool)
  | number (value : Float)
  | text (value : String)
  | function (closure : Closure)
  | native (native : Native)
  | classValue (cls : ClassValue)
  | object (cls : ClassValue) (id : InstanceId)
  | list (id : ListId)

namespace Value

instance : Inhabited Value := ⟨nil⟩

/-- Only `nil` and `false` do not hold. -/
def isTruthy : Value → Bool
  | nil => false
  | truth value => value
  | _ => true

def typeName : Value → String
  | nil => "nil"
  | truth _ => "bool"
  | number _ => "number"
  | text _ => "string"
  | function _ => "function"
  | native _ => "native function"
  | classValue _ => "class"
  | object _ _ => "instance"
  | list _ => "list"

/-- Plain values are equal by content, all others by identity.  Values of
different types differ, and NaN differs from itself. -/
def equals : Value → Value → Bool
  | nil, nil => true
  | truth a, truth b => a == b
  | number a, number b => a == b
  | text a, text b => a == b
  | function a, function b => a.identity == b.identity
  | native a, native b => a.identity == b.identity
  | classValue a, classValue b => a.identity == b.identity
  | object _ a, object _ b => a == b
  | list a, list b => a == b
  | _, _ => false

end Value

/-- The value of a literal. -/
def Literal.eval : Literal → Value
  | nil => .nil
  | truth value => .truth value
  | number value => .number value
  | text value => .text value

end Lox
