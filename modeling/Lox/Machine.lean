import Lox.Builtin
import Lox.Output
import Lox.Scope
import Lox.Value.Display

/-!
# The machine

The state in which a program runs and the steps that its parts are made of.
Names are looked up by distance where scope analysis recorded one, and among
the globals otherwise.
-/

namespace Lox

structure Machine where
  store : Store
  /-- The frame of the global names. -/
  globals : FrameId
  /-- The frame of the innermost scope that is being run. -/
  current : FrameId
  distances : Distances
  output : Output
  /-- The reading of the clock at each time it is asked. -/
  clock : Nat → Float
  /-- How often the clock has been read. -/
  readings : Nat

/-- Why a computation stops. -/
inductive Halt where
  | failed (failure : Failure)
  | outOfFuel
  deriving DecidableEq, Repr

/-- A computation of the machine.  Its effects stay when it stops early. -/
abbrev Exec := EStateM Halt Machine

namespace Machine

/-- A machine at the start of a session. -/
def initial (clock : Nat → Float) (output : Output) : Machine where
  store := .initial
  globals := 0
  current := 0
  distances := ∅
  output := output
  clock := clock
  readings := 0

def fail {α : Type} (line : Nat) (error : RuntimeError) : Exec α :=
  throw (.failed (.error line error))

def ofExcept {α : Type} (line : Nat) : Except RuntimeError α → Exec α
  | .ok value => pure value
  | .error error => fail line error

/-- The value of a name, if it has one. -/
def value? (machine : Machine) (id : Nat) (name : String) : Option Value :=
  match machine.distances[id]? with
  | some distance => machine.store.frames.getAt? machine.current distance name
  | none => machine.store.frames.get? machine.globals name

/-- The value of an occurrence of a name. -/
def lookup (id : Nat) (name : Token) : Exec Value := fun machine =>
  match machine.value? id name.lexeme with
  | some value => .ok value machine
  | none => fail name.line (.undefinedVariable name.lexeme) machine

/-- Changes the frames of the store. -/
def withFrames {α : Type} (change : Frames → α × Frames) : Exec α := fun machine =>
  let ⟨⟨frames, lists, fields, nextIdentity⟩, globals, current, distances, output, clock,
    readings⟩ := machine
  let (result, frames) := change frames
  .ok result ⟨⟨frames, lists, fields, nextIdentity⟩, globals, current, distances, output,
    clock, readings⟩

/-- Changes the store. -/
def withStore {α : Type} (change : Store → α × Store) : Exec α := fun machine =>
  let ⟨store, globals, current, distances, output, clock, readings⟩ := machine
  let (result, store) := change store
  .ok result ⟨store, globals, current, distances, output, clock, readings⟩

/-- Gives a name of the current frame a value. -/
def define (name : String) (value : Value) : Exec Unit := do
  let current := (← get).current
  withFrames fun frames => ((), frames.define current name value)

/-- Changes the value of a name, which has to have one. -/
def assign (id : Nat) (name : Token) (value : Value) : Exec Unit := do
  let machine ← get
  let bound ← match machine.distances[id]? with
    | some distance =>
      let current := machine.current
      withFrames (·.assignAt current distance name.lexeme value)
    | none =>
      let globals := machine.globals
      withFrames (·.assign globals name.lexeme value)
  unless bound do fail name.line (.undefinedVariable name.lexeme)

/-- The property of a value. -/
def property (object : Value) (name : Token) : Exec Value := do
  match object with
  | .object _ _ | .list _ =>
    match ← withStore (·.property object name.lexeme) with
    | some value => return value
    | none => fail name.line (.undefinedProperty name.lexeme)
  | _ => fail name.line .noProperties

/-- Writes a value on a line of its own. -/
def printLine (value : Value) : Exec Unit := fun machine =>
  let text := value.display machine.store.lists ++ "\n"
  let ⟨store, globals, current, distances, output, clock, readings⟩ := machine
  let (accepted, output) := output.write text
  let machine : Machine := ⟨store, globals, current, distances, output, clock, readings⟩
  if accepted then .ok () machine else .error (.failed .outputClosed) machine

/-- Runs a part of the program in another frame and returns to the present one,
however the part ends. -/
def within {α : Type} (frame : FrameId) (part : Exec α) : Exec α := fun machine =>
  let previous := machine.current
  match part { machine with current := frame } with
  | .ok result machine => .ok result { machine with current := previous }
  | .error halt machine => .error halt { machine with current := previous }

/-- The time; every reading of the clock is the next one. -/
def now : Exec Float := fun machine =>
  .ok (machine.clock machine.readings) { machine with readings := machine.readings + 1 }

/-- Calls a built-in function from the given line. -/
def callNative (line : Nat) (native : Native) (arguments : List Value) : Exec Value := do
  let time ← if native.builtin = .clock then now else pure 0.0
  let receiver : Value := (native.receiver.map .list).getD .nil
  fun machine =>
    let ⟨store, globals, current, distances, output, clock, readings⟩ := machine
    match native.builtin.call time receiver arguments store with
    | .ok value store => .ok value ⟨store, globals, current, distances, output, clock, readings⟩
    | .error error store =>
      .error (.failed (.error line (.builtin error)))
        ⟨store, globals, current, distances, output, clock, readings⟩

def checkArity (line : Nat) (expected got : Nat) : Exec Unit := do
  unless expected == got do fail line (.wrongArity expected got)

/-- Gives the parameters of a function their arguments; an argument without a
parameter is dropped, and a parameter without an argument has no value. -/
def bindAll (frame : FrameId) : List Token → List Value → Frames → Frames
  | parameter :: parameters, argument :: arguments, frames =>
    bindAll frame parameters arguments (frames.define frame parameter.lexeme argument)
  | _, _, frames => frames

/-- Makes the frame of a call, with the arguments under the parameters' names. -/
def enter (closure : Closure) (arguments : List Value) : Exec FrameId :=
  withFrames fun frames =>
    let (frame, frames) := frames.child closure.frame
    (frame, bindAll frame closure.declaration.parameters arguments frames)

/-- Makes a frame inside the current one. -/
def enterBlock : Exec FrameId := do
  let current := (← get).current
  withFrames (·.child current)

end Machine

end Lox
