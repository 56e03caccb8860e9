import Lox.Text.Printable

/-!
# Quoted text

Text between quotation marks, in two styles.  A literal shows text on one line
and makes unprintable characters visible; a field of a record is escaped only
as far as its format demands.
-/

namespace Lox.Text

/-- Hexadecimal digits, lower case, at least `width` of them. -/
def hexadecimal (width : Nat) (n : Nat) : String :=
  let digits := String.ofList (Nat.toDigits 16 n)
  String.ofList (List.replicate (width - digits.length) '0') ++ digits

/-- How a literal shows a character.  The apostrophe ends no literal and is
shown as it is. -/
def literalCharacter (c : Char) : String :=
  if c == '\x00' then "\\0"
  else if c == '\t' then "\\t"
  else if c == '\r' then "\\r"
  else if c == '\n' then "\\n"
  else if c == '\\' || c == '"' then "\\" ++ c.toString
  else if isPrintable c then c.toString
  else "\\u\x7b" ++ hexadecimal 1 c.toNat ++ "\x7d"

/-- The text as a literal in double quotation marks. -/
def literal (text : String) : String :=
  "\"" ++ String.join (text.toList.map literalCharacter) ++ "\""

/-- How a record's string shows a character: control characters, the quotation
mark and the backslash are escaped and nothing else. -/
def recordCharacter (c : Char) : String :=
  if c == '"' then "\\\""
  else if c == '\\' then "\\\\"
  else if c == '\x08' then "\\b"
  else if c == '\x0c' then "\\f"
  else if c == '\n' then "\\n"
  else if c == '\r' then "\\r"
  else if c == '\t' then "\\t"
  else if c.toNat < 32 then "\\u" ++ hexadecimal 4 c.toNat
  else c.toString

def recordString (text : String) : String :=
  "\"" ++ String.join (text.toList.map recordCharacter) ++ "\""

end Lox.Text
