import Lox.Frame

/-!
# The store

Everything that changes while a program runs: frames, the elements of lists and
the fields of instances.  Nothing is ever taken out of the store, so numbers
handed out stay valid.
-/

namespace Lox

structure Store where
  frames : Frames
  lists : Array (Array Value) := #[]
  fields : Array (Std.TreeMap String Value) := #[]
  /-- The identity of the next function or class. -/
  nextIdentity : Nat := 0

namespace Store

def newFrame (store : Store) (enclosing : FrameId) : FrameId × Store :=
  let (frame, frames) := store.frames.child enclosing
  (frame, { store with frames })

def define (store : Store) (frame : FrameId) (name : String) (value : Value) : Store :=
  { store with frames := store.frames.define frame name value }

def identify (store : Store) : Nat × Store :=
  (store.nextIdentity, { store with nextIdentity := store.nextIdentity + 1 })

def newList (store : Store) (elements : Array Value) : Value × Store :=
  (.list store.lists.size, { store with lists := store.lists.push elements })

/-- Makes an instance without fields. -/
def newInstance (store : Store) (cls : ClassValue) : Value × Store :=
  (.object cls store.fields.size, { store with fields := store.fields.push ∅ })

def elements (store : Store) (list : ListId) : Array Value :=
  store.lists.getD list #[]

def modifyList (store : Store) (list : ListId) (change : Array Value → Array Value) :
    Store :=
  { store with lists := store.lists.modify list change }

def field? (store : Store) (id : InstanceId) (name : String) : Option Value :=
  store.fields[id]?.bind (·[name]?)

def setField (store : Store) (id : InstanceId) (name : String) (value : Value) : Store :=
  { store with fields := store.fields.modify id (·.insert name value) }

/-- A function declared in the frame. -/
def newClosure (store : Store) (declaration : FunctionDecl) (frame : FrameId)
    (isInitializer : Bool) : Closure × Store :=
  let (identity, store) := store.identify
  (⟨identity, declaration, frame, isInitializer⟩, store)

/-- The methods of a class; of two with one name the later counts. -/
def newMethods (frame : FrameId) :
    List FunctionDecl → Std.TreeMap String Closure → Store →
      Std.TreeMap String Closure × Store
  | [], methods, store => (methods, store)
  | declaration :: declarations, methods, store =>
    let (closure, store) := store.newClosure declaration frame declaration.isInitializer
    newMethods frame declarations (methods.insert closure.name closure) store

def newClass (store : Store) (name : String) (declarations : List FunctionDecl)
    (frame : FrameId) : ClassValue × Store :=
  let (methods, store) := newMethods frame declarations ∅ store
  let (identity, store) := store.identify
  (⟨identity, name, methods⟩, store)

/-- Binds a method to an instance: a new function whose frame, inside that of
the method, holds nothing but `this`. -/
def bind (store : Store) (method : Closure) (this : Value) : Closure × Store :=
  let (frame, store) := store.newFrame method.frame
  (store.define frame "this" this).newClosure method.declaration frame method.isInitializer

/-- The property of a value: a field of an instance, else a method of its class
bound to it, or a method of a list. -/
def property (store : Store) (value : Value) (name : String) : Option Value × Store :=
  match value with
  | .object cls id =>
    match store.field? id name with
    | some field => (some field, store)
    | none =>
      match cls.methods[name]? with
      | some method =>
        let (closure, store) := store.bind method value
        (some (.function closure), store)
      | none => (none, store)
  | .list id =>
    match Builtin.listMethod? name with
    | some builtin =>
      let (identity, store) := store.identify
      (some (.native ⟨identity, builtin, some id⟩), store)
    | none => (none, store)
  | _ => (none, store)

/-- The store of a new session: one frame, number 0, with the built-in
functions that have a name of their own. -/
def initial : Store :=
  let store : Store := { frames := Frames.root, nextIdentity := 2 }
  (store.define 0 Builtin.clock.name (.native { identity := 0, builtin := .clock })).define 0
    Builtin.newList.name (.native { identity := 1, builtin := .newList })

end Store

end Lox
