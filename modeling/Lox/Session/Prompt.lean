import Lox.Session

/-!
# The prompt

A conversation: a line is asked for and run, errors in it are reported, and the
next line is asked for, until there are no more lines or reading or reporting
fails.
-/

namespace Lox.Prompt

/-- What is written before a line is read. -/
def text : String := "> "

/-- What comes of asking for a line. -/
inductive Reading where
  | line (text : String)
  | broken (message : String)

namespace Reading

/-- A line without the line ends and carriage returns after it. -/
def ofLine (bytes : List UInt8) : Reading :=
  let kept := (bytes.reverse.dropWhile fun byte => byte == 10 || byte == 13).reverse
  match String.fromUTF8? ⟨kept.toArray⟩ with
  | some text => line text
  | none => broken "stream did not contain valid UTF-8"

/-- The lines of an input; the last need not be ended.  `begun` is what has been
seen of the present line, last byte first. -/
def ofBytes (begun : List UInt8) : List UInt8 → List Reading
  | [] => if begun.isEmpty then [] else [ofLine begun.reverse]
  | byte :: bytes =>
    if byte == 10 then ofLine (byte :: begun).reverse :: ofBytes [] bytes
    else ofBytes (byte :: begun) bytes

def ofInput (input : ByteArray) : List Reading :=
  ofBytes [] input.toList

end Reading

/-- A request for a line, with what was written since the one before. -/
structure Exchange where
  output : ByteArray
  errors : ByteArray

structure Transcript where
  exchanges : List Exchange
  /-- What was written after the last request. -/
  output : ByteArray
  errors : ByteArray
  /-- The message of the failure that ended the conversation. -/
  broken : Option String

/-- Runs a line and reports what is wrong with it; `false` if the report could
not be written. -/
def respond (session : Session) (errors : Output) (fuel : Nat) (line : String) :
    Bool × Session × Output :=
  let (outcome, session) := session.run fuel true line
  match outcome.report? with
  | none => (true, session, errors)
  | some report =>
    let (accepted, errors) := errors.write (report ++ "\n")
    (accepted, session, errors)

/-- Asks for a line. -/
def request (session : Session) (errors : Output) : Exchange × Session × Output :=
  let (written, session) := session.takeOutput
  let (reported, errors) := errors.take
  (⟨written, reported⟩, session, errors)

/-- The conversation over the given lines. -/
def converse (fuel : Nat) : List Reading → Session → Output → Transcript
  | [], session, errors => ⟨[(request session errors).1], .empty, .empty, none⟩
  | .broken message :: _, session, errors =>
    ⟨[(request session errors).1], .empty, .empty, some message⟩
  | .line line :: readings, session, errors =>
    let (exchange, session, errors) := request session errors
    let (accepted, session, errors) := respond session errors fuel line
    if accepted then
      let transcript := converse fuel readings session errors
      { transcript with exchanges := exchange :: transcript.exchanges }
    else
      ⟨[exchange], session.machine.output.bytes, errors.bytes,
        some Failure.outputClosed.display⟩

end Lox.Prompt
