/-!
# UTF-8

Bytes as text.  A fault is a place at which bytes stop being UTF-8: either some
bytes that no character begins with, or the beginning of a character that is
cut off at the end.
-/

namespace Lox.Text

/-- The position of a fault, and the number of bytes that are wrong; none if
the bytes just end too early. -/
structure Fault where
  position : Nat
  length : Option Nat
  deriving DecidableEq, Repr

namespace Utf8

/-- For the first byte of a character of several bytes: how many follow, and
between which bounds the first of these lies. -/
def lead? (byte : UInt8) : Option (Nat × UInt8 × UInt8) :=
  if 0xC2 ≤ byte && byte ≤ 0xDF then some (1, 0x80, 0xBF)
  else if byte == 0xE0 then some (2, 0xA0, 0xBF)
  else if byte == 0xED then some (2, 0x80, 0x9F)
  else if 0xE1 ≤ byte && byte ≤ 0xEF then some (2, 0x80, 0xBF)
  else if byte == 0xF0 then some (3, 0x90, 0xBF)
  else if 0xF1 ≤ byte && byte ≤ 0xF3 then some (3, 0x80, 0xBF)
  else if byte == 0xF4 then some (3, 0x80, 0x8F)
  else none

/-- How a character goes on: whole, with a wrong byte after `good` right ones,
or cut off. -/
inductive Continuation where
  | whole
  | wrong (good : Nat)
  | cut
  deriving DecidableEq, Repr

/-- Looks at the `count` bytes after the first of a character, `good` bytes of
which have been seen. -/
def continuation (good : Nat) (low high : UInt8) : Nat → List UInt8 → Continuation
  | 0, _ => .whole
  | _ + 1, [] => .cut
  | count + 1, byte :: bytes =>
    if low ≤ byte && byte ≤ high then continuation (good + 1) 0x80 0xBF count bytes
    else .wrong good

/-- The first fault of bytes, the first of which is at `position`.  The bytes
inside a character, `inside` of them, have been looked at before. -/
def faultFrom (position inside : Nat) : List UInt8 → Option Fault
  | [] => none
  | byte :: bytes =>
    match inside with
    | inside + 1 => faultFrom (position + 1) inside bytes
    | 0 =>
      if byte < 0x80 then faultFrom (position + 1) 0 bytes
      else
        match lead? byte with
        | none => some ⟨position, some 1⟩
        | some (count, low, high) =>
          match continuation 1 low high count bytes with
          | .whole => faultFrom (position + 1) count bytes
          | .wrong good => some ⟨position, some good⟩
          | .cut => some ⟨position, none⟩

/-- The first fault of bytes that are not UTF-8. -/
def fault? (bytes : ByteArray) : Option Fault :=
  faultFrom 0 0 bytes.toList

end Utf8

def Fault.message (fault : Fault) : String :=
  match fault.length with
  | some length => s!"invalid utf-8 sequence of {length} bytes from index {fault.position}"
  | none => s!"incomplete utf-8 byte sequence from index {fault.position}"

/-- The text of bytes, with the replacement character for every fault. -/
def decode (bytes : ByteArray) : String :=
  go bytes.size bytes
where
  go : Nat → ByteArray → String
    | 0, _ => ""
    | steps + 1, bytes =>
      match Utf8.fault? bytes with
      | none => (String.fromUTF8? bytes).getD ""
      | some fault =>
        let good := (String.fromUTF8? (bytes.extract 0 fault.position)).getD ""
        match fault.length with
        | none => good ++ "\uFFFD"
        | some length =>
          good ++ "\uFFFD" ++ go steps (bytes.extract (fault.position + length) bytes.size)

end Lox.Text
