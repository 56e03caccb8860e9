import Lox.Value

/-!
# Frames

A frame holds the values of the names declared in one scope and leads to the
frame around it.  Frames form a forest: a new frame is a child of an older one,
and no frame is ever attached anew.
-/

namespace Lox

structure Frame where
  values : Std.TreeMap String Value := ∅
  enclosing : Option FrameId := none

instance : Inhabited Frame := ⟨{}⟩

/-- All frames made so far; the number of a frame is its position. -/
structure Frames where
  toArray : Array Frame

namespace Frames

/-- A single frame, number 0, with nothing around it. -/
def root : Frames :=
  ⟨#[{}]⟩

/-- Makes an empty frame inside `enclosing`. -/
def child (frames : Frames) (enclosing : FrameId) : FrameId × Frames :=
  (frames.toArray.size, ⟨frames.toArray.push { enclosing := some enclosing }⟩)

def enclosing? (frames : Frames) (frame : FrameId) : Option FrameId :=
  frames.toArray[frame]?.bind Frame.enclosing

/-- The value of a name in this frame alone. -/
def get? (frames : Frames) (frame : FrameId) (name : String) : Option Value :=
  frames.toArray[frame]?.bind (·.values[name]?)

/-- Gives a name a value in this frame, whether or not it had one. -/
def define (frames : Frames) (frame : FrameId) (name : String) (value : Value) : Frames :=
  ⟨frames.toArray.modify frame fun f => { f with values := f.values.insert name value }⟩

/-- Changes the value of a name of this frame; `false` if it is not one. -/
def assign (frames : Frames) (frame : FrameId) (name : String) (value : Value) :
    Bool × Frames :=
  if (frames.get? frame name).isSome then (true, frames.define frame name value)
  else (false, frames)

/-- The frame `distance` steps further out. -/
def ancestor? (frames : Frames) : Nat → FrameId → Option FrameId
  | 0, frame => some frame
  | distance + 1, frame => (frames.enclosing? frame).bind (frames.ancestor? distance)

/-- The value of a name in the frame `distance` steps further out. -/
def getAt? (frames : Frames) (frame : FrameId) (distance : Nat) (name : String) :
    Option Value :=
  (frames.ancestor? distance frame).bind (frames.get? · name)

/-- Changes the value of a name in the frame `distance` steps further out;
`false` if there is no such frame or it has no such name. -/
def assignAt (frames : Frames) (frame : FrameId) (distance : Nat) (name : String)
    (value : Value) : Bool × Frames :=
  match frames.ancestor? distance frame with
  | some target => frames.assign target name value
  | none => (false, frames)

end Frames

end Lox
