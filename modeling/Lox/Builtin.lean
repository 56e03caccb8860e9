import Lox.Decimal.Double
import Lox.Failure
import Lox.Store

/-!
# Built-in functions

The clock and the operations on lists.  A call that fails leaves the store as
it was.
-/

namespace Lox

namespace Value

/-- A value as an index into `length` elements. -/
def index (length : Nat) : Value → Except BuiltinError Nat
  | number x =>
    match Decimal.integer? x with
    | some n =>
      if 0 ≤ n && n < length then .ok n.toNat else .error .indexOutOfBounds
    | none => .error .indexNotInteger
  | _ => .error .indexNotInteger

/-- A value as the list that a method is called on. -/
def listId : Value → Except BuiltinError ListId
  | list id => .ok id
  | other => .error (.notAList other.typeName)

end Value

namespace Builtin

/-- What a call does to the store and which value it gives. -/
abbrev Action := EStateM BuiltinError Store

/-- Acts on the list that a method is called on. -/
def onList (receiver : Value) (action : ListId → Action Value) : Action Value :=
  match receiver.listId with
  | .ok list => action list
  | .error error => throw error

/-- Acts on the element at a position of a list. -/
def atIndex (position : Value) (list : ListId) (action : Nat → Action Value) :
    Action Value := fun store =>
  match position.index (store.elements list).size with
  | .ok i => action i store
  | .error error => .error error store

def element (list : ListId) (i : Nat) : Action Value := fun store =>
  .ok ((store.elements list).getD i .nil) store

def change (list : ListId) (edit : Array Value → Array Value) : Action Unit := fun store =>
  .ok () (store.modifyList list edit)

/-- Calls a built-in function at the time `now`.  The receiver is looked at first
and then the arguments in their order. -/
def call (now : Float) (receiver : Value) : Builtin → List Value → Action Value
  | clock, _ => return .number now
  | newList, _ => modifyGet (·.newList #[])
  | length, _ => onList receiver fun list store =>
    .ok (.number (Float.ofNat (store.elements list).size)) store
  | get, position :: _ => onList receiver fun list =>
    atIndex position list (element list)
  | append, value :: _ => onList receiver fun list => do
    change list (·.push value)
    return .nil
  | set, position :: values => onList receiver fun list =>
    atIndex position list fun i => do
      match values with
      | value :: _ =>
        change list (·.setIfInBounds i value)
        return value
      | [] => throw .missingArgument
  | remove, position :: _ => onList receiver fun list =>
    atIndex position list fun i => do
      let removed ← element list i
      change list (·.eraseIdxIfInBounds i)
      return removed
  | _, _ => onList receiver fun _ => throw .missingArgument

end Builtin

end Lox
