import Lox.Proofs.Machine.Steady
import Lox.Proofs.Matching.Scope
import Lox.Proofs.Matching.Store

/-!
# Matching machines

Two machines match if their stores do and corresponding numbers of name
occurrences have the same distances in them.  Each step of the machine ends in
the same way on matching machines, with the same output.
-/

namespace Lox

/-- The machines agree in everything that a program can observe. -/
structure Machine.Matches (c : Correspondence) (machine machine' : Machine) : Prop where
  store : machine.store.Matches c machine'.store
  globals : machine.globals = machine'.globals
  current : machine.current = machine'.current
  distances : Distances.Match c machine.distances machine'.distances
  output : machine.output = machine'.output
  clock : machine.clock = machine'.clock
  readings : machine.readings = machine'.readings

/-- The same reason for stopping, on corresponding lines. -/
inductive Halt.Matches (c : Correspondence) : Halt → Halt → Prop where
  | error {line line' : Nat} (hline : c.lines line line') (cause : RuntimeError) :
    Matches c (.failed (.error line cause)) (.failed (.error line' cause))
  | outputClosed : Matches c (.failed .outputClosed) (.failed .outputClosed)
  | outOfFuel : Matches c .outOfFuel .outOfFuel

/-- On matching machines two computations end in the same way. -/
abbrev Exec.Match {α α' : Type} (c : Correspondence) (results : α → α' → Prop) (part : Exec α)
    (part' : Exec α') : Prop :=
  Parallel (Machine.Matches c) (Halt.Matches c) results part part'

namespace Machine

variable {c : Correspondence} {machine machine' : Machine}

theorem Matches.withStore (h : machine.Matches c machine') {store store' : Store}
    (hstore : store.Matches c store') :
    ({ machine with store } : Machine).Matches c { machine' with store := store' } :=
  ⟨hstore, h.globals, h.current, h.distances, h.output, h.clock, h.readings⟩

theorem Matches.withFrames (h : machine.Matches c machine') {frames frames' : Frames}
    (hframes : frames.Match c frames') :
    ({ machine with store.frames := frames } : Machine).Matches c
      { machine' with store.frames := frames' } :=
  h.withStore (h.store.withFrames hframes)

theorem Matches.atFrame (h : machine.Matches c machine') (frame : FrameId) :
    ({ machine with current := frame } : Machine).Matches c { machine' with current := frame } :=
  ⟨h.store, h.globals, rfl, h.distances, h.output, h.clock, h.readings⟩

section Steps

variable {α α' : Type} {results : α → α' → Prop} {line line' : Nat} {name name' : Token}
variable {value value' : Value}

theorem fail_matches (hline : c.lines line line') (error : RuntimeError) :
    Exec.Match c results (fail line error) (fail line' error) :=
  .throw (.error hline error)

theorem ofExcept_matches (hline : c.lines line line') {result result' : Except RuntimeError Value}
    (h : Value.ResultsMatch c result result') :
    Exec.Match c (Value.Matches c) (ofExcept line result) (ofExcept line' result') := by
  cases h with
  | ok hvalue => exact .pure hvalue
  | error error => exact fail_matches hline error

theorem get_matches : Exec.Match c (Machine.Matches c) get get :=
  fun _ _ h => .ok h h

/-! ## Names -/

theorem Matches.value? (h : machine.Matches c machine') {id id' : Nat} (hid : c.ids id id')
    (name : String) :
    Option.Rel (Value.Matches c) (machine.value? id name) (machine'.value? id' name) := by
  simp only [Machine.value?]
  rw [h.distances id id' hid, h.current, h.globals]
  split
  · exact h.store.frames.getAt? _ _ name
  · exact h.store.frames.get? _ name

theorem lookup_matches {id id' : Nat} (hid : c.ids id id') (hname : name.Matches c name') :
    Exec.Match c (Value.Matches c) (lookup id name) (lookup id' name') := by
  intro machine machine' h
  have hvalue := h.value? hid name.lexeme
  simp only [lookup]
  rw [← hname.lexeme]
  generalize machine.value? id name.lexeme = found at hvalue ⊢
  generalize machine'.value? id' name.lexeme = found' at hvalue ⊢
  cases hvalue with
  | some hvalue => exact .ok hvalue h
  | none => exact fail_matches hname.line _ _ _ h

theorem Matches.assigned (h : machine.Matches c machine') {id id' : Nat} (hid : c.ids id id')
    (name : String) (hvalue : value.Matches c value') :
    (machine.assigned id name value).1 = (machine'.assigned id' name value').1 ∧
      (machine.assigned id name value).2.Match c (machine'.assigned id' name value').2 := by
  simp only [Machine.assigned]
  rw [h.distances id id' hid, h.current, h.globals]
  split
  · exact h.store.frames.assignAt _ _ name hvalue
  · exact h.store.frames.assign _ name hvalue

theorem assign_matches {id id' : Nat} (hid : c.ids id id') (hname : name.Matches c name')
    (hvalue : value.Matches c value') :
    Exec.Match c Eq (assign id name value) (assign id' name' value') := by
  intro machine machine' h
  have hassigned := h.assigned hid name.lexeme hvalue
  have hafter := h.withFrames hassigned.2
  rw [assign_eq, assign_eq, ← hname.lexeme]
  dsimp only
  rw [hassigned.1]
  split
  · exact .ok rfl hafter
  · exact .error (.error hname.line _) hafter

theorem define_matches (name : String) (hvalue : value.Matches c value') :
    Exec.Match c Eq (define name value) (define name value') := by
  apply get_matches.bind
  intro before before' hbefore machine machine' h
  rw [withFrames_eq, withFrames_eq, hbefore.current]
  exact .ok rfl (h.withFrames (h.store.frames.define _ name hvalue))

/-! ## The store -/

theorem withStore_matches {change : Store → α × Store} {change' : Store → α' × Store}
    (hchange : ∀ {store store' : Store}, store.Matches c store' →
      Store.ChangesMatch c results (change store) (change' store')) :
    Exec.Match c results (withStore change) (withStore change') := by
  intro machine machine' h
  have hchanged := hchange h.store
  rw [withStore_eq, withStore_eq]
  exact .ok hchanged.1 (h.withStore hchanged.2)

theorem setField_matches (id : InstanceId) (name : String) (hvalue : value.Matches c value') :
    Exec.Match c Eq (withStore fun store => ((), store.setField id name value))
      (withStore fun store => ((), store.setField id name value')) :=
  withStore_matches fun h => ⟨rfl, h.setField id name hvalue⟩

theorem property_matches (hvalue : value.Matches c value') (hname : name.Matches c name') :
    Exec.Match c (Value.Matches c) (property value name) (property value' name') := by
  have hobject := hvalue
  cases hvalue with
  | object _ _ | list _ =>
      simp only [property, ← hname.lexeme]
      apply (withStore_matches fun h => h.property hobject name.lexeme).bind
      intro found found' hfound
      cases hfound with
      | some hfound => exact .pure hfound
      | none => exact fail_matches hname.line _
  | nil | truth _ | number _ | text _ | function _ | native _ | classValue _ =>
      exact fail_matches hname.line _

theorem printLine_matches (hvalue : value.Matches c value') :
    Exec.Match c Eq (printLine value) (printLine value') := by
  intro machine machine' h
  unfold printLine
  dsimp only
  rw [hvalue.display h.store.lists, h.output]
  split
  · exact .ok rfl ⟨h.store, h.globals, h.current, h.distances, rfl, h.clock, h.readings⟩
  · exact .error .outputClosed
      ⟨h.store, h.globals, h.current, h.distances, rfl, h.clock, h.readings⟩

/-! ## Calls -/

theorem now_matches : Exec.Match c Eq now now := by
  intro machine machine' h
  rw [now]
  rw [h.clock, h.readings]
  exact .ok rfl ⟨h.store, h.globals, h.current, h.distances, h.output, rfl, rfl⟩

theorem nativeCall_matches (hline : c.lines line line') (native : Native)
    {arguments arguments' : List Value}
    (harguments : List.Forall₂ (Value.Matches c) arguments arguments') (time : Float) :
    Exec.Match c (Value.Matches c) (nativeCall line native arguments time)
      (nativeCall line' native arguments' time) := by
  intro machine machine' h
  have hreceiver : ((native.receiver.map .list).getD .nil : Value).Matches c
      ((native.receiver.map .list).getD .nil) := by
    cases native.receiver with
    | none => exact .nil
    | some list => exact .list list
  have hcall := Builtin.call_matches time hreceiver native.builtin harguments _ _ h.store
  simp only [nativeCall]
  generalize native.builtin.call time _ arguments machine.store = result at hcall ⊢
  generalize native.builtin.call time _ arguments' machine'.store = result' at hcall ⊢
  cases hcall with
  | ok hvalue hstore => exact .ok hvalue (h.withStore hstore)
  | error herror hstore =>
      cases herror
      exact .error (.error hline _) (h.withStore hstore)

theorem callNative_matches (hline : c.lines line line') (native : Native)
    {arguments arguments' : List Value}
    (harguments : List.Forall₂ (Value.Matches c) arguments arguments') :
    Exec.Match c (Value.Matches c) (callNative line native arguments)
      (callNative line' native arguments') := by
  rw [callNative_eq, callNative_eq]
  split
  · apply now_matches.bind
    rintro time _ rfl
    exact nativeCall_matches hline native harguments time
  · exact nativeCall_matches hline native harguments 0.0

theorem checkArity_matches (hline : c.lines line line') (expected got : Nat) :
    Exec.Match c Eq (checkArity line expected got) (checkArity line' expected got) := by
  simp only [checkArity]
  split
  · exact .pure rfl
  · exact fail_matches hline _

theorem bindAll_matches (frame : FrameId) {parameters parameters' : List Token}
    {arguments arguments' : List Value}
    (hparameters : List.Forall₂ (Token.Matches c) parameters parameters')
    (harguments : List.Forall₂ (Value.Matches c) arguments arguments') {frames frames' : Frames}
    (h : frames.Match c frames') :
    (bindAll frame parameters arguments frames).Match c
      (bindAll frame parameters' arguments' frames') := by
  induction hparameters generalizing arguments arguments' frames frames' with
  | nil => exact h
  | cons hparameter _ ih =>
      cases harguments with
      | nil => exact h
      | cons hargument harguments =>
          simp only [bindAll, ← hparameter.lexeme]
          exact ih harguments (h.define frame _ hargument)

theorem enter_matches {closure closure' : Closure} (hclosure : closure.Matches c closure')
    {arguments arguments' : List Value}
    (harguments : List.Forall₂ (Value.Matches c) arguments arguments') :
    Exec.Match c Eq (enter closure arguments) (enter closure' arguments') := by
  intro machine machine' h
  have hframes := bindAll_matches machine.store.frames.size hclosure.declaration.parameters
    harguments (h.store.frames.child closure.frame)
  rw [enter_eq, enter_eq, ← h.store.frames.size, ← hclosure.frame]
  exact .ok rfl (h.withFrames hframes)

theorem enterBlock_matches : Exec.Match c Eq enterBlock enterBlock := by
  intro machine machine' h
  have hframes : (machine.store.frames.child machine.current).2.Match c
      (machine'.store.frames.child machine'.current).2 := by
    rw [h.current]
    exact h.store.frames.child _
  rw [enterBlock_eq, enterBlock_eq, h.store.frames.size]
  exact .ok rfl (h.withFrames hframes)

theorem within_matches (frame : FrameId) {part : Exec α} {part' : Exec α'}
    (hpart : Exec.Match c results part part') :
    Exec.Match c results (within frame part) (within frame part') := by
  intro machine machine' h
  have hinner := hpart _ _ (h.atFrame frame)
  unfold within
  dsimp only
  rw [h.current]
  generalize part { machine with current := frame } = result at hinner ⊢
  generalize part' { machine' with current := frame } = result' at hinner ⊢
  cases hinner with
  | ok hresult hafter => exact .ok hresult (hafter.atFrame _)
  | error hhalt hafter => exact .error hhalt (hafter.atFrame _)

end Steps

end Machine

end Lox
