import Lox.Token
import Lox.Decimal.Layout
import Lox.Text.Quoted

/-!
# Token listings

The two forms in which a token is listed: a plain line of kind, lexeme and
literal, and a record with named fields on one line.
-/

namespace Lox

namespace Kind

/-- The literal of a token in a plain listing.  A small integer ends in `.0`
and has no sign if it is zero; any other number is written plainly. -/
def literalText : Kind → String
  | symbol _ => "null"
  | text value => value
  | number value =>
    match Decimal.smallInteger? value with
    | some n => s!"{n}.0"
    | none => Decimal.Layout.plain.render value

/-- Numbers in a record: an exponent from `10 ^ 16` up and below `10 ^ -5`, and
nothing for a number that is not finite. -/
def recordNumber : Decimal.Layout where
  positional := some (-5, 16)
  pointed := true
  signed := true
  tie := .even
  nan := "null"
  infinite _ := "null"

/-- A kind with a literal is a field of its own, any other just its name. -/
def record : Kind → String
  | symbol s => Text.recordString s.name
  | text value => "\x7b\"STRING\":" ++ Text.recordString value ++ "\x7d"
  | number value => "\x7b\"NUMBER\":" ++ recordNumber.render value ++ "\x7d"

end Kind

namespace Token

def display (token : Token) : String :=
  token.kind.name ++ " " ++ token.lexeme ++ " " ++ token.kind.literalText

def record (token : Token) : String :=
  "\x7b\"token_type\":" ++ token.kind.record ++
    ",\"lexeme\":" ++ Text.recordString token.lexeme ++
    ",\"line\":" ++ toString token.line ++ "\x7d"

end Token

end Lox
