/-!
# Options

The arguments of the command: at most one script, and flags in any place before
`--`.  Arguments are taken from left to right, and the first that asks for help
or is refused settles the matter.
-/

namespace Lox.CommandLine

structure Options where
  log : Bool := false
  tokens : Bool := false
  tree : Bool := false
  script : Option String := none
  deriving DecidableEq, Repr

/-- What the arguments ask for. -/
inductive Request where
  | run (options : Options)
  | help
  | version
  | refused
  deriving DecidableEq, Repr

namespace Request

/-- What a word after `--` asks for; every flag can be given once. -/
def flag (options : Options) (name : String) (go : Options → Request) : Request :=
  if name == "help" then help
  else if name == "version" then version
  else if name == "log" && !options.log then go { options with log := true }
  else if name == "tokens" && !options.tokens then go { options with tokens := true }
  else if name == "ast" && !options.tree then go { options with tree := true }
  else refused

/-- Letters after a single `-` all end the matter, so the first decides. -/
def letter : Char → Request
  | 'h' => help
  | 'V' => version
  | _ => refused

def script (options : Options) (name : String) (go : Options → Request) : Request :=
  if options.script.isSome || name.isEmpty then refused
  else go { options with script := some name }

/-- Both forms of listing need a script, and they exclude each other. -/
def complete (options : Options) : Request :=
  if (options.tokens || options.tree) && options.script.isNone then refused
  else if options.tokens && options.tree then refused
  else run options

/-- Takes the remaining arguments; `flagsEnded` says whether `--` has come. -/
def ofArguments (options : Options) (flagsEnded : Bool) : List String → Request
  | [] => complete options
  | argument :: arguments =>
    if flagsEnded then
      script options argument fun options => ofArguments options true arguments
    else
      match argument.toList with
      | ['-', '-'] => ofArguments options true arguments
      | '-' :: '-' :: name =>
        flag options (String.ofList name) fun options => ofArguments options false arguments
      | '-' :: first :: _ => letter first
      | _ => script options argument fun options => ofArguments options false arguments

end Request

end Lox.CommandLine
