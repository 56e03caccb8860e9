import Lox.Machine
import Lox.Value.Operators

/-!
# Evaluation

The meaning of expressions and statements.  A statement ends in one of three
ways: it goes on with the next one, returns from the function it is in, or
leaves the loop it is in.  Errors stop the whole run.  Every step has less fuel
than the one it is part of; running out of it is told apart from all results.
-/

namespace Lox

/-- How a statement ends. -/
inductive Flow where
  | normal
  | returned (value : Value)
  /-- On its way out of a loop, from the given line. -/
  | left (line : Nat)

namespace Machine

mutual

def evaluate : Nat → Expr → Exec Value
  | 0, _ => throw .outOfFuel
  | _ + 1, .literal value => return value.eval
  | fuel + 1, .grouping inner => evaluate fuel inner
  | fuel + 1, .unary operator operand => do
    let value ← evaluate fuel operand
    ofExcept operator.line (value.applyUnary operator.kind)
  | fuel + 1, .binary left operator right => do
    let leftValue ← evaluate fuel left
    let rightValue ← evaluate fuel right
    ofExcept operator.line (leftValue.applyBinary operator.kind rightValue)
  | fuel + 1, .logical left operator right => do
    let leftValue ← evaluate fuel left
    if leftValue.isTruthy == operator.is .orWord then return leftValue
    else evaluate fuel right
  | _ + 1, .reference id name => lookup id name
  | _ + 1, .receiver id keyword => lookup id keyword
  | fuel + 1, .assign id name expression => do
    let value ← evaluate fuel expression
    assign id name value
    return value
  | fuel + 1, .get object name => do
    property (← evaluate fuel object) name
  | fuel + 1, .set object name expression => do
    match ← evaluate fuel object with
    | .object _ id =>
      let value ← evaluate fuel expression
      withStore fun store => ((), store.setField id name.lexeme value)
      return value
    | _ => fail name.line .noFields
  | fuel + 1, .call callee closing arguments => do
    let function ← evaluate fuel callee
    let values ← evaluateAll fuel arguments
    call fuel function closing.line values
  | fuel + 1, .list _ elements => do
    let values ← evaluateAll fuel elements
    withStore (·.newList values.toArray)

/-- The values of expressions, from the first to the last. -/
def evaluateAll : Nat → List Expr → Exec (List Value)
  | 0, _ => throw .outOfFuel
  | _ + 1, [] => return []
  | fuel + 1, expression :: expressions => do
    let value ← evaluate fuel expression
    let values ← evaluateAll fuel expressions
    return value :: values

/-- Calls a value from the given line. -/
def call : Nat → Value → Nat → List Value → Exec Value
  | 0, _, _, _ => throw .outOfFuel
  | fuel + 1, .function closure, line, arguments => do
    checkArity line closure.arity arguments.length
    invoke fuel closure arguments
  | _ + 1, .native native, line, arguments => do
    checkArity line native.builtin.arity arguments.length
    callNative line native arguments
  | fuel + 1, .classValue cls, line, arguments => do
    checkArity line cls.arity arguments.length
    let object ← withStore (·.newInstance cls)
    match cls.initializer? with
    | some method =>
      let initializer ← withStore (·.bind method object)
      let _ ← invoke fuel initializer arguments
      return object
    | none => return object
  | _ + 1, _, line, _ => fail line .notCallable

/-- Runs the body of a function.  An initializer gives the `this` of its own
frame, however the body ends. -/
def invoke : Nat → Closure → List Value → Exec Value
  | 0, _, _ => throw .outOfFuel
  | fuel + 1, closure, arguments => do
    let frame ← enter closure arguments
    let flow ← within frame (executeAll fuel closure.declaration.body)
    if closure.isInitializer then
      let frames := (← get).store.frames
      return (frames.get? closure.frame "this").getD .nil
    else
      match flow with
      | .normal => return .nil
      | .returned value => return value
      | .left line => fail line .breakOutsideLoop

def execute : Nat → Stmt → Exec Flow
  | 0, _ => throw .outOfFuel
  | fuel + 1, .expression expression => do
    let _ ← evaluate fuel expression
    return .normal
  | fuel + 1, .print expression => do
    printLine (← evaluate fuel expression)
    return .normal
  | _ + 1, .declare name none => do
    define name.lexeme .nil
    return .normal
  | fuel + 1, .declare name (some initializer) => do
    define name.lexeme (← evaluate fuel initializer)
    return .normal
  | fuel + 1, .block body => do
    within (← enterBlock) (executeAll fuel body)
  | fuel + 1, .branch condition thenBranch elseBranch => do
    if (← evaluate fuel condition).isTruthy then execute fuel thenBranch
    else
      match elseBranch with
      | some statement => execute fuel statement
      | none => return .normal
  | fuel + 1, .loop condition body => loop fuel condition body
  | _ + 1, .leave keyword => return .left keyword.line
  | _ + 1, .function declaration => do
    let frame := (← get).current
    let closure ← withStore (·.newClosure declaration frame false)
    define declaration.name.lexeme (.function closure)
    return .normal
  | _ + 1, .giveBack _ none => return .returned .nil
  | fuel + 1, .giveBack _ (some expression) => do
    return .returned (← evaluate fuel expression)
  | _ + 1, .classDecl name methods => do
    let frame := (← get).current
    let cls ← withStore (·.newClass name.lexeme methods frame)
    define name.lexeme (.classValue cls)
    return .normal

/-- Runs statements until one does not go on with the next. -/
def executeAll : Nat → List Stmt → Exec Flow
  | 0, _ => throw .outOfFuel
  | _ + 1, [] => return .normal
  | fuel + 1, statement :: statements => do
    match ← execute fuel statement with
    | .normal => executeAll fuel statements
    | flow => return flow

/-- Repeats the body as long as the condition holds. -/
def loop : Nat → Expr → Stmt → Exec Flow
  | 0, _, _ => throw .outOfFuel
  | fuel + 1, condition, body => do
    if (← evaluate fuel condition).isTruthy then
      match ← execute fuel body with
      | .normal => loop fuel condition body
      | .left _ => return .normal
      | .returned value => return .returned value
    else return .normal

end

/-- Runs a statement of a program; if `echo` is set, the value of an expression
statement is printed. -/
def executeTop (fuel : Nat) (echo : Bool) : Stmt → Exec Flow
  | .expression expression =>
    if echo then do
      printLine (← evaluate fuel expression)
      return .normal
    else execute fuel (.expression expression)
  | statement => execute fuel statement

/-- Runs a program up to its end or first error. -/
def run (fuel : Nat) (echo : Bool) : List Stmt → Exec Unit
  | [] => return ()
  | statement :: statements => do
    match ← executeTop fuel echo statement with
    | .normal => run fuel echo statements
    | .left line => fail line .breakOutsideLoop
    | .returned _ => fail 0 .returnOutsideFunction

end Machine

end Lox
