import Lox.Diagnostic
import Lox.Syntax
import Lox.Token.Stream

/-!
# Reading a program from its tokens

A predictive parser: one token of lookahead decides every choice.

    program        → declaration* end ;
    declaration    → classDecl | funDecl | varDecl | statement ;
    classDecl      → "class" NAME "{" callable* "}" ;
    funDecl        → "fun" callable ;
    callable       → NAME "(" ( NAME ( "," NAME )* )? ")" block ;
    varDecl        → "var" NAME ( "=" expression )? ";" ;
    statement      → expression ";" | for | if | while | "break" ";"
                   | "return" expression? ";" | "print" expression ";" | block ;
    for            → "for" "(" ( varDecl | expression ";" | ";" )
                     expression? ";" expression? ")" statement ;
    if             → "if" "(" expression ")" statement ( "else" statement )? ;
    while          → "while" "(" expression ")" statement ;
    block          → "{" declaration* "}" ;
    expression     → ( call "." )? NAME "=" expression | binary ;
    call           → primary ( "(" arguments? ")" | "." NAME )* ;
    arguments      → expression ( "," expression )* ;
    primary        → NUMBER | STRING | "true" | "false" | "nil" | "this" | NAME
                   | "(" expression ")" | "[" arguments? "]" ;

Binary operators follow the table `Level.all`, and the prefix operators `!` and
`-` bind tighter than all of them.  A declaration with a syntax error is left
out; reading goes on at the next place where a statement can begin.
-/

namespace Lox

/-- A level of binary operators that bind equally tight, to the left. -/
structure Level where
  operators : List Symbol
  isLogical : Bool
  deriving DecidableEq, Repr

namespace Level

/-- The levels of binary operators, the loosest first. -/
def all : List Level :=
  [⟨[.orWord], true⟩, ⟨[.andWord], true⟩, ⟨[.bangEqual, .equalEqual], false⟩,
    ⟨[.greater, .greaterEqual, .less, .lessEqual], false⟩, ⟨[.minus, .plus], false⟩,
    ⟨[.slash, .star], false⟩]

def build (level : Level) (left : Expr) (operator : Token) (right : Expr) : Expr :=
  if level.isLogical then .logical left operator right else .binary left operator right

end Level

namespace Parser

/-- The reserved words that begin a statement or declaration. -/
def starters : List Symbol :=
  [.classWord, .funWord, .varWord, .forWord, .ifWord, .whileWord, .printWord, .returnWord,
    .breakWord]

/-- The tokens from the next place on where a statement can begin: after a
semicolon or at a word that begins one.  `afterSemicolon` says whether the
token before was a semicolon. -/
def resume (afterSemicolon : Bool) : List Token → List Token
  | [] => []
  | token :: rest =>
    if afterSemicolon || token.isAny starters then token :: rest
    else resume (token.is .semicolon) rest

structure State where
  /-- The tokens to come, without the end of the file. -/
  rest : List Token
  ending : Token
  /-- The number of the next occurrence of a name. -/
  nextId : Nat
  diagnostics : Array Diagnostic

inductive Halt where
  | syntaxError
  | outOfFuel
  deriving DecidableEq, Repr

end Parser

/-- Reading a part of a program.  Diagnostics and numbers given out outlast a
syntax error. -/
abbrev Parser := EStateM Parser.Halt Parser.State

namespace Parser

def State.next (state : State) : Token :=
  state.rest.headD state.ending

def State.report (state : State) (token : Token) (error : SyntaxError) : State :=
  { state with diagnostics := state.diagnostics.push (.syntactic token error) }

/-- Leaves out the token at which reading failed and goes on at the next place
where a statement can begin. -/
def State.recover (state : State) : State :=
  match state.rest with
  | [] => state
  | token :: rest => { state with rest := resume (token.is .semicolon) rest }

/-- The next token, which stays. -/
def peek : Parser Token :=
  fun state => .ok state.next state

def atEnd : Parser Bool :=
  fun state => .ok state.rest.isEmpty state

def nextIs (symbol : Symbol) : Parser Bool :=
  fun state => .ok (state.rest.head?.any (·.is symbol)) state

/-- Passes over the next token; the end of the file is never passed. -/
def advance : Parser Unit :=
  fun state => .ok () { state with rest := state.rest.tail }

/-- Passes over the next token if it is one of the symbols. -/
def accept? (symbols : List Symbol) : Parser (Option Token) :=
  fun state =>
    match state.rest with
    | [] => .ok none state
    | token :: rest =>
      if token.isAny symbols then .ok (some token) { state with rest := rest }
      else .ok none state

def report (token : Token) (error : SyntaxError) : Parser Unit :=
  fun state => .ok () (state.report token error)

def fail {α : Type} (what : Expectation) : Parser α :=
  fun state => .error .syntaxError (state.report state.next (.expected what))

/-- Passes over the next token, which has to be `symbol`. -/
def expect (symbol : Symbol) (what : Expectation) : Parser Token := do
  match ← accept? [symbol] with
  | some token => return token
  | none => fail what

def freshId : Parser Nat :=
  fun state => .ok state.nextId { state with nextId := state.nextId + 1 }

/-- Reads a part that is left out if it has a syntax error. -/
def attempt {α : Type} (part : Parser α) : Parser (Option α) :=
  fun state =>
    match part state with
    | .ok result state => .ok (some result) state
    | .error .syntaxError state => .ok none state.recover
    | .error .outOfFuel state => .error .outOfFuel state

/-- Reports the next token as one too many when there are `count` before it. -/
def checkArity (count : Nat) (error : SyntaxError) : Parser Unit := do
  if maxArity ≤ count then report (← peek) error

/-- The expression that assigns to `target`.  Anything but a variable or a
property is reported, and the value stands for the whole. -/
def assignment (target : Expr) (equals : Token) (value : Expr) : Parser Expr := do
  match target with
  | .reference _ name => return .assign (← freshId) name value
  | .get object name => return .set object name value
  | _ =>
    report equals .invalidAssignmentTarget
    return value

mutual

def expression : Nat → Parser Expr
  | 0 => throw .outOfFuel
  | fuel + 1 => do
    let target ← binary fuel Level.all
    match ← accept? [.equal] with
    | some equals => assignment target equals (← expression fuel)
    | none => return target

/-- An expression of the first of the levels. -/
def binary : Nat → List Level → Parser Expr
  | 0, _ => throw .outOfFuel
  | fuel + 1, [] => unary fuel
  | fuel + 1, level :: tighter => do
    binaryRest fuel level tighter (← binary fuel tighter)

/-- The further operands of a level, after what has been read of it. -/
def binaryRest : Nat → Level → List Level → Expr → Parser Expr
  | 0, _, _, _ => throw .outOfFuel
  | fuel + 1, level, tighter, left => do
    match ← accept? level.operators with
    | some operator =>
      let right ← binary fuel tighter
      binaryRest fuel level tighter (level.build left operator right)
    | none => return left

def unary : Nat → Parser Expr
  | 0 => throw .outOfFuel
  | fuel + 1 => do
    match ← accept? [.bang, .minus] with
    | some operator => return .unary operator (← unary fuel)
    | none => callRest fuel (← primary fuel)

/-- The calls and properties that follow an expression. -/
def callRest : Nat → Expr → Parser Expr
  | 0, _ => throw .outOfFuel
  | fuel + 1, callee => do
    if (← accept? [.leftParen]).isSome then
      let arguments ← arguments fuel .rightParen
      let closing ← expect .rightParen .argumentsClosing
      callRest fuel (.call callee closing arguments)
    else if (← accept? [.dot]).isSome then
      let name ← expect .identifier .propertyName
      callRest fuel (.get callee name)
    else
      return callee

/-- Expressions separated by commas, none if `closing` comes first. -/
def arguments : Nat → Symbol → Parser (List Expr)
  | 0, _ => throw .outOfFuel
  | fuel + 1, closing => do
    if ← nextIs closing then return [] else argumentsRest fuel 0

/-- One more expression, after `count` of them, and those that follow it. -/
def argumentsRest : Nat → Nat → Parser (List Expr)
  | 0, _ => throw .outOfFuel
  | fuel + 1, count => do
    checkArity count .tooManyArguments
    let argument ← expression fuel
    if (← accept? [.comma]).isSome then
      return argument :: (← argumentsRest fuel (count + 1))
    else
      return [argument]

def primary : Nat → Parser Expr
  | 0 => throw .outOfFuel
  | fuel + 1 => do
    let token ← peek
    match token.kind with
    | .symbol .falseWord => advance; return .literal (.truth false)
    | .symbol .trueWord => advance; return .literal (.truth true)
    | .symbol .nilWord => advance; return .literal .nil
    | .number value => advance; return .literal (.number value)
    | .text value => advance; return .literal (.text value)
    | .symbol .thisWord => advance; return .receiver (← freshId) token
    | .symbol .identifier => advance; return .reference (← freshId) token
    | .symbol .leftParen =>
      advance
      let inner ← expression fuel
      let _ ← expect .rightParen .groupClosing
      return .grouping inner
    | .symbol .leftBracket =>
      advance
      let elements ← arguments fuel .rightBracket
      return .list (← expect .rightBracket .listClosing) elements
    | _ => fail .expression

end

/-- What follows the word `var`. -/
def variableDeclaration (fuel : Nat) : Parser Stmt := do
  let name ← expect .identifier .variableName
  let initializer ←
    if (← accept? [.equal]).isSome then some <$> expression fuel else pure none
  let _ ← expect .semicolon .endOfVariable
  return .declare name initializer

def expressionStatement (fuel : Nat) : Parser Stmt := do
  let value ← expression fuel
  let _ ← expect .semicolon .endOfExpression
  return .expression value

def printStatement (fuel : Nat) : Parser Stmt := do
  let value ← expression fuel
  let _ ← expect .semicolon .endOfPrint
  return .print value

def returnStatement (fuel : Nat) (keyword : Token) : Parser Stmt := do
  let value ← if ← nextIs .semicolon then pure none else some <$> expression fuel
  let _ ← expect .semicolon .endOfReturn
  return .giveBack keyword value

def breakStatement (keyword : Token) : Parser Stmt := do
  let _ ← expect .semicolon .endOfBreak
  return .leave keyword

/-- The first clause of a `for` statement, with its semicolon. -/
def forInitializer (fuel : Nat) : Parser (Option Stmt) := do
  if (← accept? [.semicolon]).isSome then return none
  else if (← accept? [.varWord]).isSome then return some (← variableDeclaration fuel)
  else return some (← expressionStatement fuel)

/-- An expression that may be missing before `closing`, which is passed over. -/
def clause (fuel : Nat) (closing : Symbol) (what : Expectation) : Parser (Option Expr) := do
  let value ← if ← nextIs closing then pure none else some <$> expression fuel
  let _ ← expect closing what
  return value

/-- The parameters of a callable: one more name, after `count` of them, and
those that follow it. -/
def parametersRest : Nat → Nat → Parser (List Token)
  | 0, _ => throw .outOfFuel
  | fuel + 1, count => do
    checkArity count .tooManyParameters
    let parameter ← expect .identifier .parameterName
    if (← accept? [.comma]).isSome then
      return parameter :: (← parametersRest fuel (count + 1))
    else
      return [parameter]

def parameters (fuel : Nat) : Parser (List Token) := do
  if ← nextIs .rightParen then return [] else parametersRest fuel 0

mutual

/-- A declaration or statement, or nothing if it has a syntax error. -/
def declaration? : Nat → Parser (Option Stmt)
  | 0 => throw .outOfFuel
  | fuel + 1 => attempt (declaration fuel)

def declaration : Nat → Parser Stmt
  | 0 => throw .outOfFuel
  | fuel + 1 => do
    match (← peek).kind with
    | .symbol .classWord =>
      advance
      let name ← expect .identifier .className
      let _ ← expect .leftBrace .classOpening
      let methods ← methods fuel
      let _ ← expect .rightBrace .classClosing
      return .classDecl name methods
    | .symbol .funWord => advance; return .function (← callable fuel .function)
    | .symbol .varWord => advance; variableDeclaration fuel
    | _ => statement fuel

def statement : Nat → Parser Stmt
  | 0 => throw .outOfFuel
  | fuel + 1 => do
    let token ← peek
    match token.kind with
    | .symbol .forWord =>
      advance
      let _ ← expect .leftParen .forOpening
      let initializer ← forInitializer fuel
      let condition ← clause fuel .semicolon .endOfForCondition
      let increment ← clause fuel .rightParen .forClosing
      return .forLoop initializer condition increment (← statement fuel)
    | .symbol .ifWord =>
      advance
      let _ ← expect .leftParen .ifOpening
      let condition ← expression fuel
      let _ ← expect .rightParen .ifClosing
      let thenBranch ← statement fuel
      if (← accept? [.elseWord]).isSome then
        return .branch condition thenBranch (some (← statement fuel))
      else
        return .branch condition thenBranch none
    | .symbol .whileWord =>
      advance
      let _ ← expect .leftParen .whileOpening
      let condition ← expression fuel
      let _ ← expect .rightParen .whileClosing
      return .loop condition (← statement fuel)
    | .symbol .breakWord => advance; breakStatement token
    | .symbol .returnWord => advance; returnStatement fuel token
    | .symbol .leftBrace => advance; return .block (← block fuel)
    | .symbol .printWord => advance; printStatement fuel
    | _ => expressionStatement fuel

/-- The declarations of a block after its opening brace. -/
def block : Nat → Parser (List Stmt)
  | 0 => throw .outOfFuel
  | fuel + 1 => do
    let body ← declarations fuel
    let _ ← expect .rightBrace .blockClosing
    return body

/-- Declarations up to a closing brace or the end of the file. -/
def declarations : Nat → Parser (List Stmt)
  | 0 => throw .outOfFuel
  | fuel + 1 => do
    if (← nextIs .rightBrace) || (← atEnd) then return []
    else
      let first ← declaration? fuel
      return first.toList ++ (← declarations fuel)

/-- A name, parameters and a body. -/
def callable : Nat → CallableForm → Parser FunctionDecl
  | 0, _ => throw .outOfFuel
  | fuel + 1, form => do
    let name ← expect .identifier (.callableName form)
    let _ ← expect .leftParen (.parametersOpening form)
    let parameters ← parameters fuel
    let _ ← expect .rightParen .parametersClosing
    let _ ← expect .leftBrace (.bodyOpening form)
    return .mk name parameters (← block fuel)

/-- Methods up to a closing brace or the end of the file. -/
def methods : Nat → Parser (List FunctionDecl)
  | 0 => throw .outOfFuel
  | fuel + 1 => do
    if (← nextIs .rightBrace) || (← atEnd) then return []
    else
      let first ← callable fuel .method
      return first :: (← methods fuel)

end

/-- Declarations up to the end of the file. -/
def program : Nat → Parser (List Stmt)
  | 0 => throw .outOfFuel
  | fuel + 1 => do
    if ← atEnd then return []
    else
      let first ← declaration? fuel
      return first.toList ++ (← program fuel)

end Parser

/-- A program with the errors found in its text.  Declarations with a syntax
error are missing from it. -/
structure Parsed where
  statements : List Stmt
  diagnostics : List Diagnostic
  /-- The number that the next occurrence of a name would get. -/
  nextId : Nat

namespace Parsed

/-- Enough for any stream: no more than 24 steps pass without a token. -/
def fuel (stream : TokenStream) : Nat :=
  32 * (stream.body.length + 1)

/-- Reads a program, numbering the occurrences of names from `nextId` on. -/
def ofStream (stream : TokenStream) (nextId : Nat) : Parsed :=
  match Parser.program (fuel stream) ⟨stream.body, stream.ending, nextId, #[]⟩ with
  | .ok statements state => ⟨statements, state.diagnostics.toList, state.nextId⟩
  | .error _ state => ⟨[], state.diagnostics.toList, state.nextId⟩

/-- Reads the program of a source; lexical errors come before syntax errors. -/
def ofSource (source : String) (nextId : Nat) : Parsed :=
  let (stream, lexical) := TokenStream.ofSource source
  let parsed := ofStream stream nextId
  { parsed with diagnostics := lexical ++ parsed.diagnostics }

end Parsed

end Lox
