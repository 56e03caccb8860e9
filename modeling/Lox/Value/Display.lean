import Lox.Decimal.Layout
import Lox.Value

/-!
# How values are shown

The text that printing a value gives.  A list shows its elements in brackets;
inside a list that is being shown, that list itself is cut to `[...]`, so
showing ends even where lists contain themselves.  A list that merely occurs
twice is shown in full both times.
-/

namespace Lox

/-- A small integer has no point; any other number is written plainly.  Zero
keeps its sign. -/
def Value.numberText (x : Float) : String :=
  if Decimal.isNegativeZero x then "-0"
  else
    match Decimal.smallInteger? x with
    | some n => toString n
    | none => Decimal.Layout.plain.render x

def Native.display (native : Native) : String :=
  match native.builtin with
  | .newList => native.builtin.name
  | _ => s!"<native fn {native.builtin.name}>"

/-- The text of a value that is no list. -/
def Value.plainText : Value → String
  | nil => "nil"
  | truth value => if value then "true" else "false"
  | number value => numberText value
  | text value => value
  | function closure => s!"<fn {closure.name}>"
  | native callee => callee.display
  | classValue cls => cls.name
  | object cls _ => s!"{cls.name} instance"
  | list _ => ""

/-- The text written so far and the lists that are being written, the innermost
first. -/
structure Rendering where
  text : String := ""
  opened : List ListId := []
  deriving DecidableEq, Repr

namespace Rendering

def put (text : String) (rendering : Rendering) : Rendering :=
  { rendering with text := rendering.text ++ text }

def openList (list : ListId) (rendering : Rendering) : Rendering :=
  { rendering with opened := list :: rendering.opened }

def closeList (rendering : Rendering) : Rendering :=
  { rendering with opened := rendering.opened.tail }

/-- Writes values with a comma and a space between them. -/
def separated (write : Value → Rendering → Rendering) :
    List Value → Rendering → Rendering
  | [], rendering => rendering
  | [value], rendering => write value rendering
  | value :: values, rendering => separated write values ((write value rendering).put ", ")

/-- Writes a value.  No more than `depth` lists are opened inside each other,
which is no restriction once `depth` is the number of all lists. -/
def write (lists : Array (Array Value)) : Nat → Value → Rendering → Rendering
  | depth, .list id, rendering =>
    if rendering.opened.contains id then rendering.put "[...]"
    else
      match depth with
      | 0 => rendering
      | depth + 1 =>
        (((separated (write lists depth) (lists.getD id #[]).toList
          ((rendering.openList id).put "["))).closeList).put "]"
  | _, value, rendering => rendering.put value.plainText

end Rendering

/-- The text of a value, given the elements of all lists. -/
def Value.display (lists : Array (Array Value)) (value : Value) : String :=
  (Rendering.write lists (lists.size + 1) value {}).text

end Lox
