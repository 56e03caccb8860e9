/-!
# Output

What a program has written, as bytes, and how much more its output accepts.
Text that does not fit is written as far as it does, and the output is closed.
-/

namespace Lox

structure Output where
  bytes : ByteArray := .empty
  /-- The number of bytes still accepted; no limit if there is none. -/
  room : Option Nat := none

namespace Output

/-- Writes a text; `false` if not all of it was accepted. -/
def write (output : Output) (text : String) : Bool × Output :=
  match output.room with
  | none => (true, { output with bytes := output.bytes ++ text.toUTF8 })
  | some room =>
    if text.utf8ByteSize ≤ room then
      (true, ⟨output.bytes ++ text.toUTF8, some (room - text.utf8ByteSize)⟩)
    else (false, ⟨output.bytes ++ text.toUTF8.extract 0 room, some 0⟩)

/-- What has been written, and the output with nothing written yet. -/
def take (output : Output) : ByteArray × Output :=
  (output.bytes, { output with bytes := .empty })

end Output

end Lox
