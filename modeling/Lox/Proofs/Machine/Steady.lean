import Lox.Machine
import Lox.Proofs.Store

/-!
# Steady computations

A steady computation leaves the machine in the frame it found it in, with the
same globals, distances and clock, however it ends.  It loses no name and
attaches no frame anew; names are gained by the current frame at most, and by
none if the computation declares nothing.
-/

namespace Lox

namespace Machine

/-- What the machine `after` has kept of `before`. -/
structure Keeps (gaining? : Option FrameId) (before after : Machine) : Prop where
  frames : before.store.frames.Keeps gaining? after.store.frames
  current : after.current = before.current
  globals : after.globals = before.globals
  distances : after.distances = before.distances
  clock : after.clock = before.clock

namespace Keeps

variable {gaining? : Option FrameId} {before middle after : Machine}

theorem refl (machine : Machine) : Keeps gaining? machine machine :=
  ⟨.refl _, rfl, rfl, rfl, rfl⟩

theorem trans (hfirst : Keeps gaining? before middle) (hsecond : Keeps gaining? middle after) :
    Keeps gaining? before after :=
  ⟨hfirst.frames.trans hsecond.frames, hsecond.current.trans hfirst.current,
    hsecond.globals.trans hfirst.globals, hsecond.distances.trans hfirst.distances,
    hsecond.clock.trans hfirst.clock⟩

theorem widen (h : Keeps none before after) : Keeps gaining? before after :=
  ⟨h.frames.widen, h.current, h.globals, h.distances, h.clock⟩

end Keeps

/-- The frame that may gain names. -/
def gaining? (declares : Bool) (machine : Machine) : Option FrameId :=
  if declares then some machine.current else none

end Machine

open Machine

/-- The computation keeps what a machine has; only if it `declares` something
the current frame may gain names. -/
def Exec.Steady {α : Type} (declares : Bool) (part : Exec α) : Prop :=
  ∀ machine : Machine, machine.Keeps (machine.gaining? declares) (finalState (part machine))

namespace Exec.Steady

variable {α β : Type} {declares : Bool} {part : Exec α} {rest : α → Exec β}

theorem pure (result : α) : Steady declares (pure result : Exec α) :=
  fun machine => .refl machine

theorem throw (halt : Halt) : Steady declares (throw halt : Exec α) :=
  fun machine => .refl machine

theorem widen (h : Steady false part) : Steady declares part :=
  fun machine => (h machine).widen

theorem bind (hpart : Steady declares part) (hrest : ∀ result, Steady declares (rest result)) :
    Steady declares (part >>= rest) := by
  intro machine
  have hfirst := hpart machine
  cases hresult : part machine with
  | error halt after =>
      rw [hresult] at hfirst
      rw [bind_of_error hresult]
      exact hfirst
  | ok result after =>
      rw [hresult] at hfirst
      have hsecond := hrest result after
      have hsame : after.gaining? declares = machine.gaining? declares := by
        simp only [gaining?, show after.current = machine.current from hfirst.current]
      rw [hsame] at hsecond
      rw [bind_of_ok hresult]
      exact Keeps.trans hfirst hsecond

/-- What runs in a frame made for it declares nothing in older frames. -/
theorem within {allocate : Exec FrameId}
    (hallocate : ∀ machine : Machine, match allocate machine with
      | .ok frame after => machine.Keeps none after ∧ machine.store.frames.size ≤ frame
      | .error _ after => machine.Keeps none after)
    (hpart : Steady true part) :
    Steady declares (allocate >>= fun frame => Machine.within frame part) := by
  apply widen
  intro machine
  have hfirst := hallocate machine
  cases hresult : allocate machine with
  | error halt after =>
      rw [hresult] at hfirst
      rw [bind_of_error hresult]
      exact hfirst
  | ok frame after =>
      rw [hresult] at hfirst
      obtain ⟨hkeeps, hnew⟩ := hfirst
      rw [bind_of_ok hresult]
      have hsecond := hpart { after with current := frame }
      have hframes := hkeeps.frames.of_new hnew hsecond.frames
      rw [Machine.within]
      cases hinner : part { after with current := frame } with
      | ok result last | error halt last =>
          rw [hinner] at hsecond hframes
          exact ⟨hframes, hkeeps.current, hsecond.globals.trans hkeeps.globals,
            hsecond.distances.trans hkeeps.distances, hsecond.clock.trans hkeeps.clock⟩

end Exec.Steady

namespace Machine

open Exec

variable {α : Type} {declares : Bool}

/-! ## Steps of the machine -/

theorem steady_fail (line : Nat) (error : RuntimeError) :
    Steady declares (fail line error : Exec α) :=
  .throw _

theorem steady_ofExcept (line : Nat) (result : Except RuntimeError α) :
    Steady declares (ofExcept line result) := by
  cases result with
  | ok value => exact .pure value
  | error error => exact steady_fail line error

theorem steady_lookup (id : Nat) (name : Token) : Steady declares (lookup id name) := by
  intro machine
  rw [lookup]
  split
  · exact .refl machine
  · exact steady_fail _ _ machine

theorem withFrames_eq (change : Frames → α × Frames) (machine : Machine) :
    withFrames change machine =
      .ok (change machine.store.frames).1
        { machine with store.frames := (change machine.store.frames).2 } := rfl

theorem withStore_eq (change : Store → α × Store) (machine : Machine) :
    withStore change machine =
      .ok (change machine.store).1 { machine with store := (change machine.store).2 } := rfl

/-- A change of the store is as steady as it is on frames. -/
theorem steady_withStore {change : Store → α × Store}
    (h : ∀ store : Store, store.frames.Keeps none (change store).2.frames) :
    Steady declares (withStore change) := by
  intro machine
  rw [withStore_eq]
  exact Keeps.widen ⟨h machine.store, rfl, rfl, rfl, rfl⟩

theorem steady_define (name : String) (value : Value) : Steady true (define name value) :=
  fun _ => ⟨Frames.keeps_define .., rfl, rfl, rfl, rfl⟩

/-- Whether an assignment finds the name, and the frames after it. -/
def assigned (machine : Machine) (id : Nat) (name : String) (value : Value) : Bool × Frames :=
  match machine.distances[id]? with
  | some distance => machine.store.frames.assignAt machine.current distance name value
  | none => machine.store.frames.assign machine.globals name value

theorem assign_eq (id : Nat) (name : Token) (value : Value) (machine : Machine) :
    assign id name value machine =
      let (found, frames) := machine.assigned id name.lexeme value
      let after := { machine with store.frames := frames }
      if found then .ok () after
      else .error (.failed (.error name.line (.undefinedVariable name.lexeme))) after := by
  have hget : (get : Exec Machine) machine = .ok machine machine := rfl
  rw [assign, assigned]
  rw [bind_of_ok hget]
  cases machine.distances[id]? with
  | none =>
      dsimp only
      rw [bind_of_ok (withFrames_eq _ machine)]
      split <;> rfl
  | some distance =>
      dsimp only
      rw [bind_of_ok (withFrames_eq _ machine)]
      split <;> rfl

theorem steady_assign (id : Nat) (name : Token) (value : Value) :
    Steady declares (assign id name value) := by
  apply Steady.widen
  intro machine
  have hframes : machine.store.frames.Keeps none (machine.assigned id name.lexeme value).2 := by
    rw [assigned]
    split
    · exact Frames.keeps_assignAt ..
    · exact Frames.keeps_assign ..
  rw [assign_eq]
  dsimp only
  split <;> exact ⟨hframes, rfl, rfl, rfl, rfl⟩

theorem steady_printLine (value : Value) : Steady declares (printLine value) := by
  intro machine
  rw [printLine]
  dsimp only
  split <;> exact ⟨.refl _, rfl, rfl, rfl, rfl⟩

theorem steady_checkArity (line expected got : Nat) :
    Steady declares (checkArity line expected got) := by
  rw [checkArity]
  split
  · exact .pure ()
  · exact steady_fail _ _

theorem steady_property (object : Value) (name : Token) :
    Steady declares (property object name) := by
  cases object with
  | object _ _ | list _ =>
      apply (steady_withStore fun store => store.keeps_property _ name.lexeme).bind
      rintro (_ | value)
      · exact steady_fail _ _
      · exact .pure value
  | nil | truth _ | number _ | text _ | function _ | native _ | classValue _ =>
      exact steady_fail _ _

/-- The property of an instance or a list. -/
theorem property_eq {object : Value} (name : Token) (machine : Machine)
    (h : (∃ cls id, object = .object cls id) ∨ ∃ id, object = .list id) :
    property object name machine =
      let after := { machine with store := (machine.store.property object name.lexeme).2 }
      match (machine.store.property object name.lexeme).1 with
      | some value => .ok value after
      | none => .error (.failed (.error name.line (.undefinedProperty name.lexeme))) after := by
  obtain ⟨cls, id, rfl⟩ | ⟨id, rfl⟩ := h <;>
    simp only [property] <;>
    rw [bind_of_ok (withStore_eq _ machine)] <;>
    cases (machine.store.property _ name.lexeme).1 <;> rfl

theorem steady_now : Steady declares now :=
  fun _ => ⟨.refl _, rfl, rfl, rfl, rfl⟩

/-- What a built-in function gives at the given time. -/
def nativeCall (line : Nat) (native : Native) (arguments : List Value) (time : Float) :
    Exec Value := fun machine =>
  match native.builtin.call time ((native.receiver.map .list).getD .nil) arguments
      machine.store with
  | .ok value store => .ok value { machine with store }
  | .error error store => .error (.failed (.error line (.builtin error))) { machine with store }

theorem callNative_eq (line : Nat) (native : Native) (arguments : List Value) :
    callNative line native arguments =
      if native.builtin = .clock then now >>= nativeCall line native arguments
      else nativeCall line native arguments 0.0 := by
  rw [callNative]
  split <;> rfl

theorem steady_nativeCall (line : Nat) (native : Native) (arguments : List Value)
    (time : Float) : Steady declares (nativeCall line native arguments time) := by
  intro machine
  have hframes := Builtin.frames_call time ((native.receiver.map .list).getD .nil)
    native.builtin arguments machine.store
  rw [nativeCall]
  cases hresult : native.builtin.call time ((native.receiver.map .list).getD .nil) arguments
      machine.store <;>
    rw [hresult] at hframes <;>
    exact ⟨hframes ▸ .refl _, rfl, rfl, rfl, rfl⟩

theorem steady_callNative (line : Nat) (native : Native) (arguments : List Value) :
    Steady declares (callNative line native arguments) := by
  rw [callNative_eq]
  split
  · exact steady_now.bind (steady_nativeCall line native arguments)
  · exact steady_nativeCall line native arguments 0.0

theorem enterBlock_eq (machine : Machine) :
    enterBlock machine = .ok machine.store.frames.size
      { machine with store.frames := (machine.store.frames.child machine.current).2 } := rfl

theorem enter_eq (closure : Closure) (arguments : List Value) (machine : Machine) :
    enter closure arguments machine =
      let frames := bindAll machine.store.frames.size closure.declaration.parameters arguments
        (machine.store.frames.child closure.frame).2
      .ok machine.store.frames.size { machine with store.frames := frames } := rfl

theorem keeps_bindAll (frame : FrameId) (parameters : List Token) (arguments : List Value)
    (frames : Frames) :
    frames.Keeps (some frame) (bindAll frame parameters arguments frames) := by
  induction parameters generalizing arguments frames with
  | nil => exact .refl frames
  | cons parameter parameters ih =>
      cases arguments with
      | nil => exact .refl frames
      | cons argument arguments => exact (Frames.keeps_define ..).trans (ih ..)

@[simp]
theorem size_bindAll (frame : FrameId) (parameters : List Token) (arguments : List Value)
    (frames : Frames) : (bindAll frame parameters arguments frames).size = frames.size := by
  induction parameters generalizing arguments frames with
  | nil => rfl
  | cons parameter parameters ih =>
      cases arguments with
      | nil => rfl
      | cons argument arguments =>
          rw [bindAll, ih]
          exact Frames.size_define ..

/-- With an argument for every parameter, the frame gains the parameters'
names. -/
theorem binds_bindAll {frame : FrameId} {parameters : List Token} {arguments : List Value}
    {frames : Frames} {name : String} (harity : parameters.length = arguments.length)
    (hlt : frame < frames.size) :
    (bindAll frame parameters arguments frames).Binds frame name ↔
      name ∈ parameters.map Token.lexeme ∨ frames.Binds frame name := by
  induction parameters generalizing arguments frames with
  | nil => simp [bindAll]
  | cons parameter parameters ih =>
      cases arguments with
      | nil => simp at harity
      | cons argument arguments =>
          have hinner := @ih arguments (frames.define frame parameter.lexeme argument)
            (by simpa using harity) (by simpa using hlt)
          rw [bindAll, hinner]
          by_cases hname : parameter.lexeme = name
          · simp [Frames.Binds, Frames.get?_define, hname, hlt]
          · simp [Frames.Binds, Frames.get?_define, hname, Ne.symm hname]

theorem all_bindAll {good : Value → Prop} {store : Store} {frame : FrameId}
    {parameters : List Token} {arguments : List Value}
    (harguments : ∀ v ∈ arguments, good v) (h : store.All good) :
    ({ store with frames := bindAll frame parameters arguments store.frames } : Store).All
      good := by
  induction parameters generalizing arguments store with
  | nil => exact h
  | cons parameter parameters ih =>
      cases arguments with
      | nil => exact h
      | cons argument arguments =>
          rw [List.forall_mem_cons] at harguments
          exact ih harguments.2 (h.define frame parameter.lexeme harguments.1)

/-- What runs in a new block declares nothing around it. -/
theorem steady_enterBlock {part : Exec α} (hpart : Steady true part) :
    Steady declares (enterBlock >>= fun frame => within frame part) := by
  refine Steady.within (fun machine => ?_) hpart
  rw [enterBlock_eq]
  exact ⟨⟨Frames.keeps_child .., rfl, rfl, rfl, rfl⟩, Nat.le_refl _⟩

/-- The body of a function declares nothing outside it. -/
theorem steady_enter {part : Exec α} (closure : Closure) (arguments : List Value)
    (hpart : Steady true part) :
    Steady declares (enter closure arguments >>= fun frame => within frame part) := by
  refine Steady.within (fun machine => ?_) hpart
  rw [enter_eq]
  refine ⟨⟨?_, rfl, rfl, rfl, rfl⟩, Nat.le_refl _⟩
  exact (Frames.keeps_child ..).of_new (Nat.le_refl _) (keeps_bindAll ..)

end Machine

end Lox
