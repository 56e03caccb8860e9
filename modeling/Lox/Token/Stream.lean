import Lox.Diagnostic
import Lox.Token.Segment

/-!
# The tokens of a source text

Reading a source gives, in order, its tokens and its lexical errors, and last
the end-of-file token.  Blanks and comments give nothing.  Every item stands on
the line where its segment ends, so a string over several lines has the line of
its closing quotation mark.
-/

namespace Lox

/-- What reading a source yields: a token, or the error found in its place. -/
abbrev Item := Except Diagnostic Token

namespace Segment

/-- What a segment that ends on `line` yields. -/
def item? (line : Nat) (segment : Segment) : Option Item :=
  match segment.piece with
  | .token kind => some (.ok ⟨kind, String.ofList segment.text, line⟩)
  | .unterminated => some (.error (.lexical line .unterminatedString))
  | .unexpected c => some (.error (.lexical line (.unexpected c)))
  | .blank => none
  | .comment => none

/-- The items of consecutive segments, the first of which starts on `line`. -/
def items (line : Nat) : List Segment → List Item
  | [] => [.ok (Token.ending line)]
  | segment :: following =>
    let line := line + segment.text.count '\n'
    match segment.item? line with
    | some item => item :: items line following
    | none => items line following

end Segment

/-- The items of a source, the end-of-file token last. -/
def Item.ofSource (source : String) : List Item :=
  Segment.items 1 (Segment.all source.toList)

namespace Item

def token? : Item → Option Token
  | .ok token => some token
  | .error _ => none

def diagnostic? : Item → Option Diagnostic
  | .ok _ => none
  | .error diagnostic => some diagnostic

end Item

/-- Tokens to be read as a program: those before the end of the file, and the
end-of-file token. -/
structure TokenStream where
  body : List Token
  ending : Token
  deriving Repr, Inhabited

namespace TokenStream

/-- The stream up to the first end-of-file token; what follows it is not part
of the program. -/
def ofTokens (tokens : List Token) : TokenStream where
  body := tokens.takeWhile (!·.is .endOfFile)
  ending := (tokens.find? (·.is .endOfFile)).getD (Token.ending 1)

end TokenStream

/-- The token stream of a source and its lexical errors. -/
def TokenStream.ofSource (source : String) : TokenStream × List Diagnostic :=
  let items := Item.ofSource source
  (ofTokens (items.filterMap Item.token?), items.filterMap Item.diagnostic?)

end Lox
