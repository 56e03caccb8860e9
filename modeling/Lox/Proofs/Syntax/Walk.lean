import Lox.Syntax.Parser

/-!
# Reading by position

The rules of the parser over a list of tokens and a position in it.  A rule looks
at the token at the position, passes over it and looks back at the one it has
passed.  Looking fails where the list has no token, be it behind the end of the
list or before its beginning, and such a failure ends the whole reading.
-/

namespace Lox

namespace Walk

structure Cursor where
  tokens : List Token
  current : Nat
  /-- The number of the next occurrence of a name. -/
  nextId : Nat
  diagnostics : Array Diagnostic

def Cursor.next (cursor : Cursor) : Cursor :=
  { cursor with current := cursor.current + 1 }

inductive Stop where
  | syntaxError
  /-- A token was asked for where the list has none. -/
  | outOfRange
  | outOfFuel
  deriving DecidableEq, Repr

end Walk

/-- Reading a part of a program by position. -/
abbrev Walk := EStateM Walk.Stop Walk.Cursor

namespace Walk

/-! ## Looking and passing -/

def tokenAt (index : Nat) : Walk Token :=
  fun cursor =>
    match cursor.tokens[index]? with
    | some token => .ok token cursor
    | none => .error .outOfRange cursor

def peek : Walk Token :=
  fun cursor => tokenAt cursor.current cursor

/-- The token that has been passed last. -/
def previous : Walk Token :=
  fun cursor =>
    match cursor.current with
    | 0 => .error .outOfRange cursor
    | index + 1 => tokenAt index cursor

def isAtEnd : Walk Bool := do
  return (← peek).is .endOfFile

/-- Passes over the next token unless it is the end of the file, and looks back. -/
def advance : Walk Token := do
  if ← isAtEnd then previous
  else
    modify Cursor.next
    previous

def check (symbol : Symbol) : Walk Bool := do
  if ← isAtEnd then return false else return (← peek).is symbol

/-- Passes over the next token if it is the symbol. -/
def accepts (symbol : Symbol) : Walk Bool := do
  if ← check symbol then
    let _ ← advance
    return true
  else return false

def acceptsAny : List Symbol → Walk Bool
  | [] => return false
  | symbol :: symbols => do
    if ← check symbol then
      let _ ← advance
      return true
    else acceptsAny symbols

/-- Passes over the next token if it is one of the symbols, and looks back at it. -/
def accepted? (symbols : List Symbol) : Walk (Option Token) := do
  if ← acceptsAny symbols then return some (← previous) else return none

def report (token : Token) (error : SyntaxError) : Walk Unit :=
  modify fun cursor =>
    { cursor with diagnostics := cursor.diagnostics.push (.syntactic token error) }

def fail {α : Type} (what : Expectation) : Walk α := do
  report (← peek) (.expected what)
  throw .syntaxError

def expect (symbol : Symbol) (what : Expectation) : Walk Token := do
  if ← check symbol then advance else fail what

def freshId : Walk Nat :=
  modifyGet fun cursor => (cursor.nextId, { cursor with nextId := cursor.nextId + 1 })

/-- Passes over tokens up to the next place where a statement can begin. -/
def skip : Nat → Walk Unit
  | 0 => throw .outOfFuel
  | fuel + 1 => do
    if ← isAtEnd then return
    else if (← previous).is .semicolon then return
    else if (← peek).isAny Parser.starters then return
    else
      let _ ← advance
      skip fuel

/-- Passes over the token at which reading failed, and on to a statement. -/
def synchronize : Walk Unit := do
  let _ ← advance
  skip (← get).tokens.length

/-- Reads a part that is left out if it has a syntax error. -/
def attempt {α : Type} (part : Walk α) : Walk (Option α) :=
  fun cursor =>
    match part cursor with
    | .ok result after => .ok (some result) after
    | .error .syntaxError after => (do synchronize; return none : Walk (Option α)) after
    | .error stop after => .error stop after

def checkArity (count : Nat) (error : SyntaxError) : Walk Unit := do
  if maxArity ≤ count then report (← peek) error

/-! ## Expressions -/

def assignment (target : Expr) (equals : Token) (value : Expr) : Walk Expr := do
  match target with
  | .reference _ name => return .assign (← freshId) name value
  | .get object name => return .set object name value
  | _ =>
    report equals .invalidAssignmentTarget
    return value

mutual

def expression : Nat → Walk Expr
  | 0 => throw .outOfFuel
  | fuel + 1 => do
    let target ← binary fuel Level.all
    match ← accepted? [.equal] with
    | some equals => assignment target equals (← expression fuel)
    | none => return target

def binary : Nat → List Level → Walk Expr
  | 0, _ => throw .outOfFuel
  | fuel + 1, [] => unary fuel
  | fuel + 1, level :: tighter => do
    binaryRest fuel level tighter (← binary fuel tighter)

def binaryRest : Nat → Level → List Level → Expr → Walk Expr
  | 0, _, _, _ => throw .outOfFuel
  | fuel + 1, level, tighter, left => do
    match ← accepted? level.operators with
    | some operator =>
      let right ← binary fuel tighter
      binaryRest fuel level tighter (level.build left operator right)
    | none => return left

def unary : Nat → Walk Expr
  | 0 => throw .outOfFuel
  | fuel + 1 => do
    match ← accepted? [.bang, .minus] with
    | some operator => return .unary operator (← unary fuel)
    | none => callRest fuel (← primary fuel)

def callRest : Nat → Expr → Walk Expr
  | 0, _ => throw .outOfFuel
  | fuel + 1, callee => do
    if ← accepts .leftParen then
      let arguments ← arguments fuel .rightParen
      let closing ← expect .rightParen .argumentsClosing
      callRest fuel (.call callee closing arguments)
    else if ← accepts .dot then
      let name ← expect .identifier .propertyName
      callRest fuel (.get callee name)
    else
      return callee

def arguments : Nat → Symbol → Walk (List Expr)
  | 0, _ => throw .outOfFuel
  | fuel + 1, closing => do
    if ← check closing then return [] else argumentsRest fuel 0

def argumentsRest : Nat → Nat → Walk (List Expr)
  | 0, _ => throw .outOfFuel
  | fuel + 1, count => do
    checkArity count .tooManyArguments
    let argument ← expression fuel
    if ← accepts .comma then
      return argument :: (← argumentsRest fuel (count + 1))
    else
      return [argument]

def primary : Nat → Walk Expr
  | 0 => throw .outOfFuel
  | fuel + 1 => do
    let token ← peek
    match token.kind with
    | .symbol .falseWord => let _ ← advance; return .literal (.truth false)
    | .symbol .trueWord => let _ ← advance; return .literal (.truth true)
    | .symbol .nilWord => let _ ← advance; return .literal .nil
    | .number value => let _ ← advance; return .literal (.number value)
    | .text value => let _ ← advance; return .literal (.text value)
    | .symbol .thisWord =>
      let id ← freshId
      let _ ← advance
      return .receiver id token
    | .symbol .identifier =>
      let id ← freshId
      let _ ← advance
      return .reference id token
    | .symbol .leftParen =>
      let _ ← advance
      let inner ← expression fuel
      let _ ← expect .rightParen .groupClosing
      return .grouping inner
    | .symbol .leftBracket =>
      let _ ← advance
      let elements ← arguments fuel .rightBracket
      return .list (← expect .rightBracket .listClosing) elements
    | _ => fail .expression

end

/-! ## Statements -/

def variableDeclaration (fuel : Nat) : Walk Stmt := do
  let name ← expect .identifier .variableName
  let initializer ← if ← accepts .equal then some <$> expression fuel else pure none
  let _ ← expect .semicolon .endOfVariable
  return .declare name initializer

def expressionStatement (fuel : Nat) : Walk Stmt := do
  let value ← expression fuel
  let _ ← expect .semicolon .endOfExpression
  return .expression value

def printStatement (fuel : Nat) : Walk Stmt := do
  let value ← expression fuel
  let _ ← expect .semicolon .endOfPrint
  return .print value

/-- The keyword has been passed already. -/
def returnStatement (fuel : Nat) : Walk Stmt := do
  let keyword ← previous
  let value ← if ← check .semicolon then pure none else some <$> expression fuel
  let _ ← expect .semicolon .endOfReturn
  return .giveBack keyword value

def breakStatement : Walk Stmt := do
  let keyword ← previous
  let _ ← expect .semicolon .endOfBreak
  return .leave keyword

def forInitializer (fuel : Nat) : Walk (Option Stmt) := do
  if ← accepts .semicolon then return none
  else if ← accepts .varWord then return some (← variableDeclaration fuel)
  else return some (← expressionStatement fuel)

def clause (fuel : Nat) (closing : Symbol) (what : Expectation) : Walk (Option Expr) := do
  let value ← if ← check closing then pure none else some <$> expression fuel
  let _ ← expect closing what
  return value

def parametersRest : Nat → Nat → Walk (List Token)
  | 0, _ => throw .outOfFuel
  | fuel + 1, count => do
    checkArity count .tooManyParameters
    let parameter ← expect .identifier .parameterName
    if ← accepts .comma then
      return parameter :: (← parametersRest fuel (count + 1))
    else
      return [parameter]

def parameters (fuel : Nat) : Walk (List Token) := do
  if ← check .rightParen then return [] else parametersRest fuel 0

mutual

def declaration? : Nat → Walk (Option Stmt)
  | 0 => throw .outOfFuel
  | fuel + 1 => attempt (declaration fuel)

/-- The line of the next token is looked at first, for the log. -/
def declaration : Nat → Walk Stmt
  | 0 => throw .outOfFuel
  | fuel + 1 => do
    let _ ← peek
    if ← accepts .classWord then
      let name ← expect .identifier .className
      let _ ← expect .leftBrace .classOpening
      let methods ← methods fuel
      let _ ← expect .rightBrace .classClosing
      return .classDecl name methods
    else if ← accepts .funWord then return .function (← callable fuel .function)
    else if ← accepts .varWord then variableDeclaration fuel
    else statement fuel

/-- The line of the next token is looked at first, for the log. -/
def statement : Nat → Walk Stmt
  | 0 => throw .outOfFuel
  | fuel + 1 => do
    let _ ← peek
    if ← accepts .forWord then
      let _ ← expect .leftParen .forOpening
      let initializer ← forInitializer fuel
      let condition ← clause fuel .semicolon .endOfForCondition
      let increment ← clause fuel .rightParen .forClosing
      return .forLoop initializer condition increment (← statement fuel)
    else if ← accepts .ifWord then
      let _ ← expect .leftParen .ifOpening
      let condition ← expression fuel
      let _ ← expect .rightParen .ifClosing
      let thenBranch ← statement fuel
      if ← accepts .elseWord then
        return .branch condition thenBranch (some (← statement fuel))
      else
        return .branch condition thenBranch none
    else if ← accepts .whileWord then
      let _ ← expect .leftParen .whileOpening
      let condition ← expression fuel
      let _ ← expect .rightParen .whileClosing
      return .loop condition (← statement fuel)
    else if ← accepts .breakWord then breakStatement
    else if ← accepts .returnWord then returnStatement fuel
    else if ← accepts .leftBrace then return .block (← block fuel)
    else if ← accepts .printWord then printStatement fuel
    else expressionStatement fuel

def block : Nat → Walk (List Stmt)
  | 0 => throw .outOfFuel
  | fuel + 1 => do
    let body ← declarations fuel
    let _ ← expect .rightBrace .blockClosing
    return body

def declarations : Nat → Walk (List Stmt)
  | 0 => throw .outOfFuel
  | fuel + 1 => do
    if ← check .rightBrace then return []
    else if ← isAtEnd then return []
    else
      let first ← declaration? fuel
      return first.toList ++ (← declarations fuel)

def callable : Nat → CallableForm → Walk FunctionDecl
  | 0, _ => throw .outOfFuel
  | fuel + 1, form => do
    let name ← expect .identifier (.callableName form)
    let _ ← expect .leftParen (.parametersOpening form)
    let parameters ← parameters fuel
    let _ ← expect .rightParen .parametersClosing
    let _ ← expect .leftBrace (.bodyOpening form)
    return .mk name parameters (← block fuel)

def methods : Nat → Walk (List FunctionDecl)
  | 0 => throw .outOfFuel
  | fuel + 1 => do
    if ← check .rightBrace then return []
    else if ← isAtEnd then return []
    else
      let first ← callable fuel .method
      return first :: (← methods fuel)

end

def program : Nat → Walk (List Stmt)
  | 0 => throw .outOfFuel
  | fuel + 1 => do
    if ← isAtEnd then return []
    else
      let first ← declaration? fuel
      return first.toList ++ (← program fuel)

/-! ## The rules by name -/

/-- The rules that call each other, each with what it goes on from. -/
inductive Rule : Type → Type where
  | expression : Rule Expr
  | binary (levels : List Level) : Rule Expr
  | binaryRest (level : Level) (tighter : List Level) (left : Expr) : Rule Expr
  | unary : Rule Expr
  | callRest (callee : Expr) : Rule Expr
  | arguments (closing : Symbol) : Rule (List Expr)
  | argumentsRest (count : Nat) : Rule (List Expr)
  | primary : Rule Expr
  | parametersRest (count : Nat) : Rule (List Token)
  | declaration? : Rule (Option Stmt)
  | declaration : Rule Stmt
  | statement : Rule Stmt
  | block : Rule (List Stmt)
  | declarations : Rule (List Stmt)
  | callable (form : CallableForm) : Rule FunctionDecl
  | methods : Rule (List FunctionDecl)

namespace Rule

/-- The rule as it is read by position. -/
def walk (fuel : Nat) {α : Type} : Rule α → Walk α
  | expression => Walk.expression fuel
  | binary levels => Walk.binary fuel levels
  | binaryRest level tighter left => Walk.binaryRest fuel level tighter left
  | unary => Walk.unary fuel
  | callRest callee => Walk.callRest fuel callee
  | arguments closing => Walk.arguments fuel closing
  | argumentsRest count => Walk.argumentsRest fuel count
  | primary => Walk.primary fuel
  | parametersRest count => Walk.parametersRest fuel count
  | declaration? => Walk.declaration? fuel
  | declaration => Walk.declaration fuel
  | statement => Walk.statement fuel
  | block => Walk.block fuel
  | declarations => Walk.declarations fuel
  | callable form => Walk.callable fuel form
  | methods => Walk.methods fuel

/-- The rule as the parser reads it. -/
def read (fuel : Nat) {α : Type} : Rule α → Parser α
  | expression => Parser.expression fuel
  | binary levels => Parser.binary fuel levels
  | binaryRest level tighter left => Parser.binaryRest fuel level tighter left
  | unary => Parser.unary fuel
  | callRest callee => Parser.callRest fuel callee
  | arguments closing => Parser.arguments fuel closing
  | argumentsRest count => Parser.argumentsRest fuel count
  | primary => Parser.primary fuel
  | parametersRest count => Parser.parametersRest fuel count
  | declaration? => Parser.declaration? fuel
  | declaration => Parser.declaration fuel
  | statement => Parser.statement fuel
  | block => Parser.block fuel
  | declarations => Parser.declarations fuel
  | callable form => Parser.callable fuel form
  | methods => Parser.methods fuel

end Rule

end Walk

end Lox
