import Lox.Store
import Lox.Text.Quoted
import Lox.Value.Display

/-!
# Inspecting values

A form of values for diagnosis, which names the type and shows more than
printing does: quoted strings, the arity of functions, the methods of classes.
-/

namespace Lox

namespace Value

/-- Numbers always show a point or an exponent; there is an exponent from
`10 ^ 16` up and below `10 ^ -4`. -/
def inspectedNumber : Decimal.Layout where
  positional := some (-4, 16)
  pointed := true
  signed := false
  tie := .up
  nan := "NaN"
  infinite negative := if negative then "-inf" else "inf"

/-- A named record with its fields in braces. -/
def fields (name : String) (parts : List (String × String)) : String :=
  name ++ " \x7b " ++ ", ".intercalate (parts.map fun (key, value) => key ++ ": " ++ value) ++
    " \x7d"

def tagged (tag : String) (content : String) : String :=
  tag ++ "(" ++ content ++ ")"

/-- The diagnostic form of a value. -/
def inspect (store : Store) : Value → String
  | nil => "Nil"
  | truth value => tagged "Bool" (if value then "true" else "false")
  | number value => tagged "Number" (inspectedNumber.render value)
  | text value => tagged "String" (Text.literal value)
  | function closure =>
    tagged "Function" (fields "Function"
      [("name", Text.literal closure.name), ("arity", toString closure.arity),
        ("is_initializer", if closure.isInitializer then "true" else "false")])
  | native callee =>
    tagged "Native" (fields "NativeFunction"
      [("name", Text.literal callee.builtin.name), ("arity", toString callee.builtin.arity),
        ("receiver", Text.literal ((callee.receiver.map list).getD nil).typeName)])
  | classValue cls =>
    tagged "Class" (fields "Class"
      [("name", Text.literal cls.name),
        ("methods", "[" ++ ", ".intercalate (cls.methods.keys.map Text.literal) ++ "]")])
  | object cls id =>
    tagged "Instance" (fields "RefCell"
      [("value", fields "Instance"
        [("class", Text.literal cls.name),
          ("fields", toString ((store.fields[id]?.map (·.size)).getD 0))])])
  | list id => tagged "List" ((list id).display store.lists)

end Value

end Lox
