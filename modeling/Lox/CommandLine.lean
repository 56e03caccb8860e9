import Lox.CommandLine.Options
import Lox.Session.Prompt
import Lox.Syntax.Printer
import Lox.Text.Quoted
import Lox.Text.Utf8
import Lox.Token.Listing

/-!
# The command line

What the command does with its arguments, the files it is given and its
standard input: the exit status, what it writes and whether it leaves a log.
-/

namespace Lox.CommandLine

/-- Why a file cannot be had. -/
inductive FileError where
  | missing
  | notPermitted
  /-- Something in the file's path is not a directory. -/
  | notADirectory
  /-- The file itself is a directory. -/
  | isADirectory
  /-- The path, or a name in it, is longer than the system allows. -/
  | nameTooLong
  deriving DecidableEq, Repr

namespace FileError

def message : FileError → String
  | missing => "No such file or directory (os error 2)"
  | notPermitted => "Permission denied (os error 13)"
  | notADirectory => "Not a directory (os error 20)"
  | isADirectory => "Is a directory (os error 21)"
  | nameTooLong => "File name too long (os error 36)"

/-- What fails: a directory can be opened but not read. -/
def action : FileError → String
  | isADirectory => "read"
  | _ => "open"

end FileError

/-- What comes of opening and reading a file. -/
abbrev Access := Except FileError ByteArray

/-- The result of a run of the command. -/
structure Report where
  exitStatus : Nat := 0
  output : ByteArray := .empty
  errors : String := ""

namespace Report

def writing (text : String) : Report :=
  { output := text.toUTF8 }

/-- The exit status of a command whose arguments are refused. -/
def usageStatus : Nat := 64

def usage : Report where
  exitStatus := usageStatus
  errors := "Usage: lox [--log] [--tokens | --ast] [script]\n"

def version : Report :=
  writing "rox 0.1.0\n"

def help : Report :=
  writing <| "Lox language interpreter\n\n" ++
    "Usage: lox [OPTIONS] [SCRIPT]\n\n" ++
    "Arguments:\n" ++
    "  [SCRIPT]  Script to run; starts an interactive prompt when omitted\n\n" ++
    "Options:\n" ++
    "      --log      Enable logging to app.log\n" ++
    "      --tokens   Print the script's tokens as JSON lines instead of running it\n" ++
    "      --ast      Print the script's syntax tree instead of running it\n" ++
    "  -h, --help     Print help\n" ++
    "  -V, --version  Print version\n"

/-- The report of a failure that is not the program's. -/
def trouble (context cause : String) : Report where
  exitStatus := 1
  errors := s!"Error: {context}\n\nCaused by:\n    {cause}\n"

/-- Every line of a list of lines is ended. -/
def lines (texts : List String) : String :=
  String.join (texts.map (· ++ "\n"))

/-- The tokens of a source, one on each line, and the lexical errors. -/
def tokens (source : String) : Report :=
  let items := Item.ofSource source
  let errors := items.filterMap Item.diagnostic?
  { exitStatus := if errors.isEmpty then 0 else Outcome.rejectedStatus
    output := (lines ((items.filterMap Item.token?).map Token.record)).toUTF8
    errors := lines (errors.map Diagnostic.display) }

/-- The statements of a source in parenthesised form, or the errors in it. -/
def tree (source : String) : Report :=
  let parsed := Parsed.ofSource source 0
  if parsed.diagnostics.isEmpty then writing (lines (parsed.statements.map Stmt.outline))
  else
    { exitStatus := Outcome.rejectedStatus
      errors := lines (parsed.diagnostics.map Diagnostic.display) }

/-- The run of a source. -/
def execution (session : Session) (fuel : Nat) (source : String) : Report :=
  let (outcome, session) := session.run fuel false source
  { exitStatus := outcome.exitStatus
    output := session.takeOutput.1
    errors := lines outcome.report?.toList }

/-- What is done with a script, whose file is as `access` says. -/
def script (session : Session) (fuel : Nat) (options : Options) (name : String)
    (access : Access) : Report :=
  match access with
  | .error error =>
    trouble s!"Failed to {error.action} file {Text.literal name}" error.message
  | .ok bytes =>
    match String.fromUTF8? bytes with
    | none =>
      trouble s!"File {Text.literal name} is not valid UTF-8"
        (((Text.Utf8.fault? bytes).map Text.Fault.message).getD "")
    | some source =>
      if options.tokens then tokens source
      else if options.tree then tree source
      else execution session fuel source

def conversationContext : String := "REPL I/O failed"

/-- The conversation with the lines of the standard input. -/
def conversation (session : Session) (fuel : Nat) (input : ByteArray) : Report :=
  let transcript := Prompt.converse fuel (Prompt.Reading.ofInput input) session {}
  let output := transcript.exchanges.foldl
    (fun bytes exchange => bytes ++ exchange.output ++ Prompt.text.toUTF8) ByteArray.empty
  let errors := transcript.exchanges.map fun exchange => Text.decode exchange.errors
  let ending : Report := match transcript.broken with
    | none => {}
    | some message => trouble conversationContext message
  { exitStatus := ending.exitStatus
    output := output ++ transcript.output
    errors := String.join errors ++ Text.decode transcript.errors ++ ending.errors }

end Report

/-- The name of the log file. -/
def logName : String := "app.log"

/-- The report of a log file that cannot be made. -/
def Report.unlogged (error : FileError) : Report :=
  trouble s!"Failed to create {logName}" error.message

/-- A report, and whether the log file has been made. -/
structure Result where
  report : Report
  logged : Bool

/-- Runs the command. -/
def run (session : Session) (fuel : Nat) (arguments : List String)
    (files : String → Access) (input : ByteArray) : Result :=
  match Request.ofArguments {} false arguments with
  | .refused => ⟨.usage, false⟩
  | .help => ⟨.help, false⟩
  | .version => ⟨.version, false⟩
  | .run options =>
    match options.log, files logName with
    | true, .error .isADirectory => ⟨.unlogged .isADirectory, false⟩
    | _, _ =>
      let report := match options.script with
        | some name => .script session fuel options name (files name)
        | none => .conversation session fuel input
      ⟨report, options.log⟩

end Lox.CommandLine
