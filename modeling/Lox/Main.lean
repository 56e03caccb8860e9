import Std.Time.DateTime
import Lox.CommandLine

/-!
# The command

Carries out what `Lox.CommandLine` describes: reads the script or the lines that
are typed in, and writes what comes of them.
-/

namespace Lox.CommandLine

/-- More steps than any run can take. -/
def ampleFuel : Nat :=
  Nat.pow 2 62

/-- The seconds since the beginning of 1970. -/
def currentTime : IO Float := do
  let now ← Std.Time.Timestamp.now
  return Float.ofInt now.toMillisecondsSinceUnixEpoch.val / 1000.0

def writeBytes (stream : IO.FS.Stream) (bytes : ByteArray) : IO Unit := do
  stream.write bytes
  stream.flush

def writeReport (report : Report) : IO UInt32 := do
  writeBytes (← IO.getStdout) report.output
  writeBytes (← IO.getStderr) report.errors.toUTF8
  return report.exitStatus.toUInt32

def fileError : IO.Error → FileError
  | .inappropriateType _ 21 _ => .isADirectory
  | .inappropriateType .. => .notADirectory
  | .permissionDenied .. => .notPermitted
  | .invalidArgument .. => .nameTooLong
  | _ => .missing

def access (name : String) : IO Access := do
  try
    return .ok (← IO.FS.readBinFile name)
  catch error => return .error (fileError error)

/-- The bytes of the next line, none at the end of the input. -/
partial def readLine (stream : IO.FS.Stream) (begun : ByteArray) : IO ByteArray := do
  let bytes ← stream.read 1
  if bytes.isEmpty || bytes.toList == [10] then return begun ++ bytes
  else readLine stream (begun ++ bytes)

/-- Asks for lines and runs them until there are no more. -/
partial def converse (session : Session) : IO UInt32 := do
  let output ← IO.getStdout
  writeBytes output Prompt.text.toUTF8
  let bytes ← readLine (← IO.getStdin) .empty
  if bytes.isEmpty then return 0
  match Prompt.Reading.ofLine bytes.toList with
  | .broken message => writeReport (.trouble Report.conversationContext message)
  | .line line =>
    let time ← currentTime
    let machine := { session.machine with clock := fun _ => time }
    let (_, session, errors) :=
      Prompt.respond { session with machine := machine } {} ampleFuel line
    let (written, session) := session.takeOutput
    writeBytes output written
    writeBytes (← IO.getStderr) errors.bytes
    converse session

/-- Makes an empty log file; the failure to do so if there is one. -/
def makeLog : IO (Option Report) := do
  try
    IO.FS.writeFile logName ""
    return none
  catch error => return some (.unlogged (fileError error))

def perform (options : Options) : IO UInt32 := do
  let time ← currentTime
  let session := Session.initial (fun _ => time) {}
  if options.log then
    if let some report ← makeLog then return ← writeReport report
  match options.script with
  | some name => writeReport (.script session ampleFuel options name (← access name))
  | none => converse session

end Lox.CommandLine

open Lox.CommandLine in
def main (arguments : List String) : IO UInt32 := do
  match Request.ofArguments {} false arguments with
  | .refused => writeReport .usage
  | .help => writeReport .help
  | .version => writeReport .version
  | .run options => perform options
