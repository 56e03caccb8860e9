import Lox.Proofs.Machine.Steady
import Lox.Proofs.Variant.Frames

/-!
# Machines of variants

A program and its variant take the same steps on machines that vary from each
other, in frames that are reached along the nest of the step.  Braces cost fuel, and
so do tests in a body, so the two runs are compared at a pace: with the same fuel,
with enough of it for the variant to end when the program does, or the other way
round.  Of a run that
is out of fuel where the other need not be, nothing is said.
-/

namespace Lox

/-- Which of two runs is given fuel enough to end if the other does. -/
inductive Pace where
  | same
  | forth
  | further
  | back
  deriving DecidableEq

namespace Pace

/-- Braces take two more steps, and a test in the body of a loop takes five. -/
def Enough : Pace → Nat → Nat → Prop
  | same, fuel, fuel' => fuel = fuel'
  | forth, fuel, fuel' => 3 * fuel ≤ fuel'
  | further, fuel, fuel' => 6 * fuel ≤ fuel'
  | back, fuel, fuel' => fuel' ≤ fuel

/-- The variant has fuel enough, so the program may be out of it before. -/
inductive Leads : Pace → Prop where
  | forth : Leads .forth
  | further : Leads .further

/-- Also tests in the bodies of loops are paid for. -/
inductive PaysTests : Pace → Prop where
  | further : PaysTests .further
  | back : PaysTests .back

theorem PaysTests.ne_same {pace : Pace} (h : pace.PaysTests) : pace ≠ .same := by
  rintro rfl
  cases h

end Pace

/-- A program and its variant, with the distances of their names. -/
structure Variant where
  naming : Naming
  pace : Pace
  distances : Distances
  distances' : Distances

namespace Variant

/-- An occurrence of a name has the distance that the nest gives it, and the name
of the scope that it is bound by. -/
structure Occurs (r : Variant) (nest : Nest) (id : Nat) (name name' : Token) : Prop where
  renames : name.Renames r.naming (nest.renamedAt? r.distances[id]?) name'
  used : nest.renamedAt? r.distances[id]? → r.naming.Used name.lexeme
  distance : r.distances'[id]? = r.distances[id]?.map nest.distance

def variation (r : Variant) : Variation where
  naming := r.naming
  bracing := r.pace ≠ .same
  testing := r.pace.PaysTests
  occurs := r.Occurs

/-- What the values of a world differ in. -/
abbrev Values (r : Variant) (world : World) : Value → Value → Prop :=
  Value.Like (world.likeness r.variation)

end Variant

/-- The same reason for stopping, but for a name in use that is undefined. -/
inductive Halt.Varies (naming : Naming) : Halt → Halt → Prop where
  | same (halt : Halt) : Varies naming halt halt
  | undefined (line : Nat) {name : String} (hused : naming.Used name) :
    Varies naming (.failed (.error line (.undefinedVariable name)))
      (.failed (.error line (.undefinedVariable (naming.change name))))

variable (r : Variant)

/-- The machines are in the same step, in frames that are reached along the nest. -/
structure Machine.Vary (world : World) (nest : Nest) (machine machine' : Machine) : Prop where
  frames : machine.store.frames.Vary r.variation world machine'.store.frames
  store : machine.store.Like (world.likeness r.variation) machine'.store
  globals : machine.globals = 0
  globals' : machine'.globals = 0
  current : world.along nest machine.current machine'.current
  distances : machine.distances = r.distances
  distances' : machine'.distances = r.distances'
  output : machine.output = machine'.output
  clock : machine.clock = machine'.clock
  readings : machine.readings = machine'.readings

/-- Two computations have ended in the same way, in a world that may have grown. -/
inductive Variant.Ends {α α' : Type} (world : World) (nest : Nest)
    (results : World → α → α' → Prop) :
    EStateM.Result Halt Machine α → EStateM.Result Halt Machine α' → Prop where
  | ok {more : World} {result : α} {result' : α'} {after after' : Machine} (hle : world ≤ more)
    (hresult : results more result result') (hafter : after.Vary r more nest after') :
    Ends world nest results (.ok result after) (.ok result' after')
  | stopped {halt halt' : Halt} {after after' : Machine} (hhalt : halt.Varies r.naming halt')
    (houtput : after.output = after'.output) :
    Ends world nest results (.error halt after) (.error halt' after')
  | behind {after : Machine} {result' : EStateM.Result Halt Machine α'} (hpace : r.pace.Leads) :
    Ends world nest results (.error .outOfFuel after) result'
  | ahead {result : EStateM.Result Halt Machine α} {after' : Machine} (hpace : r.pace = .back) :
    Ends world nest results result (.error .outOfFuel after')

/-- On machines that vary from each other two computations end in the same way. -/
def Exec.Vary {α α' : Type} (world : World) (nest : Nest) (results : World → α → α' → Prop)
    (part : Exec α) (part' : Exec α') : Prop :=
  ∀ machine machine' : Machine, machine.Vary r world nest machine' →
    r.Ends world nest results (part machine) (part' machine')

variable {r} {world more : World} {nest : Nest}

namespace Exec.Vary

variable {α α' β β' : Type} {results : World → α → α' → Prop} {further : World → β → β' → Prop}
variable {part : Exec α} {part' : Exec α'} {rest : α → Exec β} {rest' : α' → Exec β'}

theorem pure {result : α} {result' : α'} (h : results world result result') :
    Vary r world nest results (pure result : Exec α) (pure result' : Exec α') :=
  fun _ _ hmachine => .ok (World.le_refl world) h hmachine

theorem throw {halt halt' : Halt} (h : halt.Varies r.naming halt') :
    Vary r world nest results (throw halt : Exec α) (throw halt' : Exec α') :=
  fun _ _ hmachine => .stopped h hmachine.output

theorem fail (line : Nat) (error : RuntimeError) :
    Vary r world nest results (Machine.fail line error : Exec α)
      (Machine.fail line error : Exec α') :=
  throw (.same _)

/-- What is shown of the rest of a sequence in all later worlds holds in the one
in which its first part ends. -/
theorem bind (hpart : Vary r world nest results part part')
    (hrest : ∀ more, world ≤ more → ∀ result result', results more result result' →
      Vary r more nest further (rest result) (rest' result')) :
    Vary r world nest further (part >>= rest) (part' >>= rest') := by
  intro machine machine' hmachine
  have hfirst := hpart machine machine' hmachine
  generalize hleft : part machine = first at hfirst
  generalize hright : part' machine' = first' at hfirst
  cases hfirst with
  | ok hle hresult hafter =>
      have hsecond := hrest _ hle _ _ hresult _ _ hafter
      rw [bind_of_ok hleft, bind_of_ok hright]
      generalize rest _ _ = second at hsecond
      generalize rest' _ _ = second' at hsecond
      cases hsecond with
      | ok hle' hresult' hafter' => exact .ok (World.le_trans hle hle') hresult' hafter'
      | stopped hhalt houtput => exact .stopped hhalt houtput
      | behind hpace => exact .behind hpace
      | ahead hpace => exact .ahead hpace
  | stopped hhalt houtput =>
      rw [bind_of_error hleft, bind_of_error hright]
      exact .stopped hhalt houtput
  | behind hpace =>
      rw [bind_of_error hleft]
      exact .behind hpace
  | ahead hpace =>
      rw [bind_of_error hright]
      exact .ahead hpace

/-- A part that is run in frames of its own, along a nest of its own. -/
theorem within {inner : Nest} {frame frame' : FrameId} (halong : world.along inner frame frame')
    (hpart : Vary r world inner results part part') :
    Vary r world nest results (Machine.within frame part) (Machine.within frame' part') := by
  intro machine machine' hmachine
  have hinner := hpart { machine with current := frame } { machine' with current := frame' }
    { hmachine with current := halong }
  unfold Machine.within
  dsimp only
  generalize part { machine with current := frame } = result at hinner ⊢
  generalize part' { machine' with current := frame' } = result' at hinner ⊢
  cases hinner with
  | ok hle hresult hafter =>
      exact .ok hle hresult { hafter with current := World.along_mono hle hmachine.current }
  | stopped hhalt houtput => exact .stopped hhalt houtput
  | behind hpace => exact .behind hpace
  | ahead hpace => exact .ahead hpace

end Exec.Vary

namespace Machine

open Exec

variable {machine machine' : Machine} {value value' : Value}

theorem Vary.withStore (h : machine.Vary r world nest machine') (hle : world ≤ more)
    {store store' : Store} (hframes : store.frames.Vary r.variation more store'.frames)
    (hstore : store.Like (more.likeness r.variation) store') :
    ({ machine with store } : Machine).Vary r more nest { machine' with store := store' } :=
  { h with
    frames := hframes
    store := hstore
    current := World.along_mono hle h.current }

theorem Vary.withFrames (h : machine.Vary r world nest machine') (hle : world ≤ more)
    {frames frames' : Frames} (hframes : frames.Vary r.variation more frames') :
    ({ machine with store.frames := frames } : Machine).Vary r more nest
      { machine' with store.frames := frames' } :=
  h.withStore hle hframes ((h.store.mono (World.likeness_mono hle)).withFrames _ _)

section Steps

variable {α α' : Type} {results : World → α → α' → Prop}

theorem get_vary : Exec.Vary r world nest (fun more => Machine.Vary r more nest) get get :=
  fun _ _ h => .ok (World.le_refl world) h h

theorem ofExcept_vary (line : Nat) {result result' : Except RuntimeError Value}
    (h : Value.ResultsLike (world.likeness r.variation) result result') :
    Exec.Vary r world nest r.Values (ofExcept line result) (ofExcept line result') := by
  cases h with
  | ok hvalue => exact .pure hvalue
  | error error => exact .fail line error

/-! ## Names -/

section Names

variable {id : Nat} {name name' : Token}

/-- A name that is undefined is reported as it is written. -/
theorem undefined_vary (hname : r.Occurs nest id name name') :
    (Halt.failed (.error name.line (.undefinedVariable name.lexeme))).Varies r.naming
      (.failed (.error name'.line (.undefinedVariable name'.lexeme))) := by
  have hused := hname.used
  rw [hname.renames.line, hname.renames.lexeme]
  cases hrenamed : nest.renamedAt? r.distances[id]? with
  | false => exact .same _
  | true => exact .undefined _ (hused hrenamed)

theorem Vary.value? (h : machine.Vary r world nest machine')
    (hname : r.Occurs nest id name name') :
    Option.Rel (r.Values world) (machine.value? id name.lexeme)
      (machine'.value? id name'.lexeme) := by
  have hlexeme := hname.renames.lexeme
  simp only [Machine.value?]
  rw [h.distances, h.distances', hname.distance, hlexeme, h.globals, h.globals']
  cases r.distances[id]? with
  | none => exact h.frames.get? h.frames.globals name.lexeme
  | some distance => exact h.frames.getAt? h.current distance name.lexeme

theorem lookup_vary (hname : r.Occurs nest id name name') :
    Exec.Vary r world nest r.Values (lookup id name) (lookup id name') := by
  intro machine machine' h
  simp only [lookup]
  rcases rel_cases (h.value? hname) with
    ⟨hleft, hright⟩ | ⟨value, value', hleft, hright, hvalue⟩
  · rw [hleft, hright]
    exact .stopped (undefined_vary hname) h.output
  · rw [hleft, hright]
    exact .ok (World.le_refl world) hvalue h

theorem Vary.assigned (h : machine.Vary r world nest machine')
    (hname : r.Occurs nest id name name') (hvalue : r.Values world value value') :
    (machine.assigned id name.lexeme value).1 = (machine'.assigned id name'.lexeme value').1 ∧
      (machine.assigned id name.lexeme value).2.Vary r.variation world
        (machine'.assigned id name'.lexeme value').2 := by
  have hlexeme := hname.renames.lexeme
  simp only [Machine.assigned]
  rw [h.distances, h.distances', hname.distance, hlexeme, h.globals, h.globals']
  cases r.distances[id]? with
  | none => exact h.frames.assign h.frames.globals name.lexeme hvalue
  | some distance => exact h.frames.assignAt h.current distance name.lexeme hvalue

theorem assign_vary (hname : r.Occurs nest id name name') (hvalue : r.Values world value value') :
    Exec.Vary r world nest (fun _ => Eq) (assign id name value) (assign id name' value') := by
  intro machine machine' h
  have hassigned := h.assigned hname hvalue
  have hafter := h.withFrames (World.le_refl world) hassigned.2
  rw [assign_eq, assign_eq]
  dsimp only
  rw [hassigned.1]
  split
  · exact .ok (World.le_refl world) rfl hafter
  · exact .stopped (undefined_vary hname) h.output

theorem define_vary (hflat : nest.distance 0 = 0) (name : String)
    (hvalue : r.Values world value value') :
    Exec.Vary r world nest (fun _ => Eq) (define name value)
      (define (r.naming.nameIn (nest.renamed 0) name) value') := by
  intro machine machine' h
  have hframes := h.frames.define (h.frames.twins h.current hflat) name hvalue
  exact .ok (World.le_refl world) rfl (h.withFrames (World.le_refl world) hframes)

/-- Names of functions and classes are not changed. -/
theorem define_unchanged_vary (hflat : nest.distance 0 = 0) {name : String}
    (hname : r.naming.nameIn (nest.renamed 0) name = name) (hvalue : r.Values world value value') :
    Exec.Vary r world nest (fun _ => Eq) (define name value) (define name value') := by
  have hdefine : Exec.Vary r world nest (fun _ => Eq) (define name value)
      (define (r.naming.nameIn (nest.renamed 0) name) value') := define_vary hflat name hvalue
  rwa [hname] at hdefine

end Names

/-! ## The store -/

/-- A change that has nothing to do with frames. -/
theorem withStore_vary {change : Store → α × Store} {change' : Store → α' × Store}
    (hchange : ∀ {store store' : Store}, store.Like (world.likeness r.variation) store' →
      Store.ChangesLike (world.likeness r.variation) (results world) (change store)
        (change' store'))
    (hframes : ∀ store, (change store).2.frames = store.frames)
    (hframes' : ∀ store, (change' store).2.frames = store.frames) :
    Exec.Vary r world nest results (withStore change) (withStore change') := by
  intro machine machine' h
  have hchanged := hchange h.store
  have hsame : (change machine.store).2.frames.Vary r.variation world
      (change' machine'.store).2.frames := by
    rw [hframes, hframes']
    exact h.frames
  have hafter := h.withStore (World.le_refl world) hsame hchanged.2
  rw [withStore_eq, withStore_eq]
  exact .ok (World.le_refl world) hchanged.1 hafter

theorem printLine_vary (hvalue : r.Values world value value') :
    Exec.Vary r world nest (fun _ => Eq) (printLine value) (printLine value') := by
  intro machine machine' h
  unfold printLine
  dsimp only
  rw [hvalue.display h.store.lists, h.output]
  split
  · exact .ok (World.le_refl world) rfl { h with output := rfl }
  · exact .stopped (.same _) rfl

/-! ## Calls -/

theorem now_vary : Exec.Vary r world nest (fun _ => Eq) now now := by
  intro machine machine' h
  rw [now]
  rw [h.clock, h.readings]
  exact .ok (World.le_refl world) rfl { h with clock := rfl, readings := rfl }

theorem nativeCall_vary (line : Nat) (native : Native) {arguments arguments' : List Value}
    (harguments : List.Forall₂ (r.Values world) arguments arguments') (time : Float) :
    Exec.Vary r world nest r.Values (nativeCall line native arguments time)
      (nativeCall line native arguments' time) := by
  intro machine machine' h
  have hreceiver : r.Values world ((native.receiver.map .list).getD .nil)
      ((native.receiver.map .list).getD .nil) := by
    cases native.receiver with
    | none => exact .nil
    | some list => exact .list list
  have hcall := Builtin.call_like time hreceiver native.builtin harguments _ _ h.store
  have hframes := Builtin.frames_call time ((native.receiver.map .list).getD .nil)
    native.builtin arguments machine.store
  have hframes' := Builtin.frames_call time ((native.receiver.map .list).getD .nil)
    native.builtin arguments' machine'.store
  simp only [nativeCall]
  generalize native.builtin.call time _ arguments machine.store = result at hcall hframes ⊢
  generalize native.builtin.call time _ arguments' machine'.store = result' at hcall hframes' ⊢
  cases hcall with
  | @ok _ _ after after' hvalue hstore =>
      have hkept : after.frames.Vary r.variation world after'.frames := by
        rw [show after.frames = _ from hframes, show after'.frames = _ from hframes']
        exact h.frames
      exact .ok (World.le_refl world) hvalue (h.withStore (World.le_refl world) hkept hstore)
  | error herror _ =>
      cases herror
      exact .stopped (.same _) h.output

theorem callNative_vary (line : Nat) (native : Native) {arguments arguments' : List Value}
    (harguments : List.Forall₂ (r.Values world) arguments arguments') :
    Exec.Vary r world nest r.Values (callNative line native arguments)
      (callNative line native arguments') := by
  rw [callNative_eq, callNative_eq]
  split
  · apply now_vary.bind
    rintro more hle time _ rfl
    have hmore := harguments.imp fun _ _ => Value.Like.mono (World.likeness_mono hle)
    exact nativeCall_vary line native hmore time
  · exact nativeCall_vary line native harguments 0.0

theorem checkArity_vary (line expected got : Nat) :
    Exec.Vary r world nest (fun _ => Eq) (checkArity line expected got)
      (checkArity line expected got) := by
  simp only [checkArity]
  split
  · exact .pure rfl
  · exact .fail line _

/-! ## Frames -/

theorem bindAll_vary {renamed : Bool} {frame frame' : FrameId}
    (htwins : world.twins renamed frame frame') {parameters parameters' : List Token}
    {arguments arguments' : List Value}
    (hparameters : List.Forall₂ (Token.Renames r.naming renamed) parameters parameters')
    (harguments : List.Forall₂ (r.Values world) arguments arguments') {frames frames' : Frames}
    (h : frames.Vary r.variation world frames') :
    (bindAll frame parameters arguments frames).Vary r.variation world
      (bindAll frame' parameters' arguments' frames') := by
  induction hparameters generalizing arguments arguments' frames frames' with
  | nil => exact h
  | cons hparameter _ ih =>
      cases harguments with
      | nil => exact h
      | cons hargument harguments =>
          simp only [bindAll, hparameter.lexeme]
          exact ih harguments (h.define htwins _ hargument)

/-- The frames of a call are inside those of the functions. -/
theorem enter_vary {inner : Nest} {renamed : Bool} {closure closure' : Closure}
    (halong : world.along inner closure.frame closure'.frame)
    (hparameters : List.Forall₂ (Token.Renames r.naming renamed) closure.declaration.parameters
      closure'.declaration.parameters)
    {arguments arguments' : List Value}
    (harguments : List.Forall₂ (r.Values world) arguments arguments') :
    Exec.Vary r world nest (fun more => more.along (inner.enter renamed))
      (enter closure arguments) (enter closure' arguments') := by
  intro machine machine' h
  have hframes := bindAll_vary World.twins_entered hparameters
    (harguments.imp fun _ _ => Value.Like.mono (World.likeness_mono World.le_entered))
    (h.frames.enter halong renamed)
  rw [enter_eq, enter_eq]
  exact .ok World.le_entered World.along_entered (h.withFrames World.le_entered hframes)

theorem enterBlock_vary (renamed : Bool) :
    Exec.Vary r world nest (fun more => more.along (nest.enter renamed)) enterBlock
      enterBlock := by
  intro machine machine' h
  rw [enterBlock_eq, enterBlock_eq]
  exact .ok World.le_entered World.along_entered
    (h.withFrames World.le_entered (h.frames.enter h.current renamed))

/-- A part that only the variant has in braces.  The part itself returns to the
frame it was in. -/
theorem braced_vary {part : Exec α} {part' : Exec α'} {declares : Bool}
    (hsteady : part.Steady declares)
    (hpart : ∀ more, world ≤ more → Exec.Vary r more nest.pad results part part') :
    Exec.Vary r world nest results part (enterBlock >>= fun frame => within frame part') := by
  intro machine machine' h
  have hle : world ≤ world.padded nest machine.current machine'.store.frames.size :=
    World.le_padded
  have hentered := h.withFrames hle (h.frames.pad h.current)
  have hinner := hpart _ hle machine
    { machine' with
      store.frames := (machine'.store.frames.child machine'.current).2
      current := machine'.store.frames.size }
    { hentered with current := World.along_padded }
  have hcurrent := (hsteady machine).current
  rw [bind_of_ok (enterBlock_eq machine')]
  unfold within
  dsimp only
  generalize part machine = result at hinner hcurrent ⊢
  generalize part' _ = result' at hinner ⊢
  cases hinner with
  | @ok later _ _ after _ hle' hresult hafter =>
      have houter := World.le_trans hle hle'
      refine .ok houter hresult { hafter with current := ?_ }
      rw [show after.current = machine.current from hcurrent]
      exact World.along_mono houter h.current
  | stopped hhalt houtput => exact .stopped hhalt houtput
  | behind hpace => exact .behind hpace
  | ahead hpace => exact .ahead hpace

/-! ## Functions and classes -/

theorem newClosure_vary {inner : Nest} {frame frame' : FrameId} (hflat : inner.distance 0 = 0)
    (halong : world.along inner frame frame') {declaration declaration' : FunctionDecl}
    (hdeclaration : declaration.Varies r.variation inner declaration') (isInitializer : Bool) :
    Exec.Vary r world nest (Closure.Varies r.variation)
      (withStore (·.newClosure declaration frame isInitializer))
      (withStore (·.newClosure declaration' frame' isInitializer)) := by
  intro machine machine' h
  have hidentity := h.store.identify
  rw [withStore_eq, withStore_eq]
  exact .ok (World.le_refl world) ⟨hidentity.1, rfl, inner, hflat, halong, hdeclaration⟩
    (h.withStore (World.le_refl world) h.frames hidentity.2)

theorem newClass_vary {inner : Nest} {frame frame' : FrameId}
    (halong : world.along inner frame frame') (name : String) {ds ds' : List FunctionDecl}
    (hds : FunctionDecl.VaryAll r.variation (inner.enter false) ds ds') :
    Exec.Vary r world nest (ClassValue.Varies r.variation)
      (withStore (·.newClass name ds frame)) (withStore (·.newClass name ds' frame')) := by
  intro machine machine' h
  have hmade : ∀ {d d' : FunctionDecl} (identity : Nat),
      d.Varies r.variation (inner.enter false) d' →
        Closure.MethodVaries r.variation world ⟨identity, d, frame, d.isInitializer⟩
          ⟨identity, d', frame', d'.isInitializer⟩ :=
    fun _ hd => ⟨rfl, hd.isInitializer, inner, halong, hd⟩
  have hmethods := h.store.newMethods (fun hd => congrArg Token.lexeme hd.name) hmade hds.forall₂
    (Store.methodsLike_empty _)
  have hidentity := hmethods.2.identify
  have hframes : (machine.store.newClass name ds frame).2.frames.Vary r.variation world
      (machine'.store.newClass name ds' frame').2.frames := by
    rw [Store.frames_newClass, Store.frames_newClass]
    exact h.frames
  rw [withStore_eq, withStore_eq]
  exact .ok (World.le_refl world) ⟨hidentity.1, rfl, hmethods.1⟩
    (h.withStore (World.le_refl world) hframes hidentity.2)

/-- Binding a method makes a frame for its receiver, which both machines have. -/
theorem Vary.bind (h : machine.Vary r world nest machine') {method method' : Closure}
    (hmethod : method.MethodVaries r.variation world method')
    (hvalue : r.Values world value value') :
    ∃ more, world ≤ more ∧
      (machine.store.bind method value).1.Varies r.variation more
        (machine'.store.bind method' value').1 ∧
      ({ machine with store := (machine.store.bind method value).2 } : Machine).Vary r more nest
        { machine' with store := (machine'.store.bind method' value').2 } := by
  obtain ⟨inner, halong, hdeclaration⟩ := hmethod.declaration
  let more := world.entered inner false machine.store.frames.size machine'.store.frames.size
  have hle : world ≤ more := World.le_entered
  have hframes := (h.frames.enter halong false).define World.twins_entered "this"
    (hvalue.mono (World.likeness_mono hle))
  have hstore := (h.store.mono (World.likeness_mono hle)).withFrames
    ((machine.store.frames.child method.frame).2.define machine.store.frames.size "this" value)
    ((machine'.store.frames.child method'.frame).2.define machine'.store.frames.size "this" value')
  have hidentity := hstore.identify
  rw [Store.bind_eq, Store.bind_eq]
  exact ⟨more, hle, ⟨hidentity.1, hmethod.isInitializer, _, rfl, World.along_entered, hdeclaration⟩,
    h.withStore hle hframes hidentity.2⟩

theorem bind_vary {method method' : Closure}
    (hmethod : method.MethodVaries r.variation world method')
    (hvalue : r.Values world value value') :
    Exec.Vary r world nest (Closure.Varies r.variation) (withStore (·.bind method value))
      (withStore (·.bind method' value')) := by
  intro machine machine' h
  obtain ⟨more, hle, hclosure, hafter⟩ := h.bind hmethod hvalue
  rw [withStore_eq, withStore_eq]
  exact .ok hle hclosure hafter

/-- A property is found on both machines or on neither. -/
theorem Vary.property (h : machine.Vary r world nest machine')
    (hvalue : r.Values world value value') (name : String) :
    ∃ more, world ≤ more ∧
      Option.Rel (r.Values more) (machine.store.property value name).1
        (machine'.store.property value' name).1 ∧
      ({ machine with store := (machine.store.property value name).2 } : Machine).Vary r more nest
        { machine' with store := (machine'.store.property value' name).2 } := by
  have hle := World.le_refl world
  cases hvalue with
  | @object cls cls' hcls id =>
      rcases rel_cases (h.store.field? id name) with
        ⟨hleft, hright⟩ | ⟨field, field', hleft, hright, hfield⟩
      · rcases rel_cases (ClassValue.Varies.methods hcls name) with
          ⟨hfound, hfound'⟩ | ⟨method, method', hfound, hfound', hmethod⟩
        · rw [Store.property_missing hleft hfound, Store.property_missing hright hfound']
          exact ⟨world, hle, .none, h⟩
        · obtain ⟨more, hle, hclosure, hafter⟩ := h.bind hmethod (.object hcls id)
          rw [Store.property_method hleft hfound, Store.property_method hright hfound']
          exact ⟨more, hle, .some (.function hclosure), hafter⟩
      · rw [Store.property_field hleft, Store.property_field hright]
        exact ⟨world, hle, .some hfield, h⟩
  | list id =>
      have hidentity := h.store.identify
      simp only [Store.property]
      cases Builtin.listMethod? name with
      | some builtin =>
          refine ⟨world, hle, .some ?_, h.withStore hle h.frames hidentity.2⟩
          rw [hidentity.1]
          exact .native _
      | none => exact ⟨world, hle, .none, h⟩
  | nil | truth _ | number _ | text _ | function _ | native _ | classValue _ =>
      exact ⟨world, hle, .none, h⟩

theorem property_vary (hvalue : r.Values world value value') (name : Token) :
    Exec.Vary r world nest r.Values (property value name) (property value' name) := by
  have hobject := hvalue
  cases hvalue with
  | object _ _ | list _ =>
      intro machine machine' h
      obtain ⟨more, hle, hfound, hafter⟩ := h.property hobject name.lexeme
      rw [property_eq name machine (by simp), property_eq name machine' (by simp)]
      dsimp only
      rcases rel_cases hfound with ⟨hleft, hright⟩ | ⟨found, found', hleft, hright, hfound⟩
      · rw [hleft, hright]
        exact .stopped (.same _) hafter.output
      · rw [hleft, hright]
        exact .ok hle hfound hafter
  | nil | truth _ | number _ | text _ | function _ | native _ | classValue _ =>
      exact .fail _ _

end Steps

end Machine

end Lox
