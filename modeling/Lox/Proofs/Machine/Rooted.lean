import Lox.Proofs.Evaluation.Moments
import Lox.Proofs.Machine.Steady

/-!
# Rooted machines

Every frame but that of the globals is inside an older one, so the frames around
any frame end with the globals.  The current frame and the frames of all functions
in the store are among those that have been made.  None of this depends on what
the scope analysis has found: it holds of any tree that is run.
-/

namespace Lox

/-- The first frame has none around it, every other an older one. -/
structure Frames.Rooted (frames : Frames) : Prop where
  outermost : frames.enclosing? 0 = none
  inside (frame : FrameId) (hpos : 0 < frame) (hlt : frame < frames.size) :
    ∃ outer < frame, frames.enclosing? frame = some outer

namespace Frames.Rooted

variable {frames : Frames}

theorem root : Frames.root.Rooted :=
  ⟨rfl, fun _ hpos hlt => absurd hpos (Nat.not_lt.2 (Nat.le_of_lt_succ hlt))⟩

theorem define (h : frames.Rooted) (frame : FrameId) (name : String) (value : Value) :
    (frames.define frame name value).Rooted where
  outermost := by simpa using h.outermost
  inside other hpos hlt := by simpa using h.inside other hpos (by simpa using hlt)

/-- A frame that is made inside an existing one is inside an older one. -/
theorem child (h : frames.Rooted) {frame : FrameId} (hframe : frame < frames.size) :
    (frames.child frame).2.Rooted where
  outermost := by
    rw [enclosing?_child, if_neg (Nat.ne_of_lt (Nat.zero_lt_of_lt hframe))]
    exact h.outermost
  inside other hpos hlt := by
    rw [size_child] at hlt
    rw [enclosing?_child]
    by_cases hnew : other = frames.size
    · exact ⟨frame, hnew ▸ hframe, if_pos hnew⟩
    · rw [if_neg hnew]
      exact h.inside other hpos (Nat.lt_of_le_of_ne (Nat.le_of_lt_succ hlt) hnew)

/-- A frame around an existing one exists. -/
theorem enclosing?_lt (h : frames.Rooted) {frame outer : FrameId} (hframe : frame < frames.size)
    (henclosing : frames.enclosing? frame = some outer) : outer < frames.size := by
  cases frame with
  | zero => cases h.outermost.symm.trans henclosing
  | succ previous =>
      obtain ⟨other, hother, hsome⟩ := h.inside _ (Nat.succ_pos previous) hframe
      cases hsome.symm.trans henclosing
      exact hother.trans hframe

theorem ancestor?_lt (h : frames.Rooted) (distance : Nat) {frame target : FrameId}
    (hframe : frame < frames.size) (htarget : frames.ancestor? distance frame = some target) :
    target < frames.size := by
  induction distance generalizing frame with
  | zero =>
      cases htarget
      exact hframe
  | succ distance ih =>
      obtain ⟨outer, houter, hfurther⟩ := Option.bind_eq_some_iff.1 htarget
      exact ih (h.enclosing?_lt hframe houter) hfurther

/-- A new frame is not around any older one. -/
theorem ancestor?_child (h : frames.Rooted) (enclosing : FrameId) (distance : Nat)
    {frame : FrameId} (hframe : frame < frames.size) :
    (frames.child enclosing).2.ancestor? distance frame = frames.ancestor? distance frame := by
  induction distance generalizing frame with
  | zero => rfl
  | succ distance ih =>
      rw [Frames.ancestor?, Frames.ancestor?, enclosing?_child, if_neg (Nat.ne_of_lt hframe)]
      cases henclosing : frames.enclosing? frame with
      | none => rfl
      | some target => exact ih (h.enclosing?_lt hframe henclosing)

/-- From a new frame one gets to those around it. -/
theorem ancestor?_new (h : frames.Rooted) {frame : FrameId} (hframe : frame < frames.size)
    (distance : Nat) :
    (frames.child frame).2.ancestor? (distance + 1) frames.size =
      frames.ancestor? distance frame := by
  rw [Frames.ancestor?, enclosing?_child, if_pos rfl]
  exact h.ancestor?_child frame distance hframe

theorem bindAll {frame : FrameId} {parameters : List Token} {arguments : List Value}
    (h : frames.Rooted) : (Machine.bindAll frame parameters arguments frames).Rooted := by
  induction parameters generalizing arguments frames with
  | nil => exact h
  | cons parameter parameters ih =>
      cases arguments with
      | nil => exact h
      | cons argument arguments => exact ih (h.define frame parameter.lexeme argument)

end Frames.Rooted

/-- The frames of the functions that a value holds are among the first `size`. -/
def Value.Rooted (size : Nat) : Value → Prop
  | .function closure => closure.frame < size
  | .classValue cls | .object cls _ =>
    ∀ (name : String) (method : Closure), cls.methods[name]? = some method → method.frame < size
  | _ => True

theorem Value.Rooted.mono {size more : Nat} {value : Value} (h : value.Rooted size)
    (hle : size ≤ more) : value.Rooted more := by
  cases value with
  | function closure => exact Nat.lt_of_lt_of_le (show closure.frame < size from h) hle
  | classValue _ | object _ _ =>
      exact fun name method hmethod => Nat.lt_of_lt_of_le (h name method hmethod) hle
  | nil | truth _ | number _ | text _ | native _ | list _ => trivial

/-- The values, all of them. -/
def Value.AllRooted (size : Nat) (values : List Value) : Prop :=
  ∀ value ∈ values, value.Rooted size

theorem Value.AllRooted.mono {size more : Nat} {values : List Value}
    (h : AllRooted size values) (hle : size ≤ more) : AllRooted more values :=
  fun value hvalue => (h value hvalue).mono hle

/-- The current frame and those of the functions in the store have been made, and
all frames have been made inside older ones. -/
structure Machine.Rooted (machine : Machine) : Prop where
  frames : machine.store.frames.Rooted
  globals : machine.globals = 0
  current : machine.current < machine.store.frames.size
  values : machine.store.All (Value.Rooted machine.store.frames.size)

/-- The values that a task is about belong to the machine. -/
def Task.Rooted (size : Nat) : Task → Prop
  | .call function _ arguments => function.Rooted size ∧ Value.AllRooted size arguments
  | .bind method this => method.frame < size ∧ this.Rooted size
  | .invoke closure arguments => closure.frame < size ∧ Value.AllRooted size arguments
  | _ => True

/-- A moment of a rooted machine. -/
structure Moment.Rooted (moment : Moment) : Prop where
  machine : moment.machine.Rooted
  task : moment.task.Rooted moment.machine.store.frames.size

/-- All moments are rooted and so is the machine in the end, which has at least
`size` frames; a result satisfies `post` together with the number of frames. -/
structure Machine.Roots {α : Type} (size : Nat) (post : Nat → α → Prop) (moments : List Moment)
    (result : EStateM.Result Halt Machine α) : Prop where
  moments : ∀ moment ∈ moments, moment.Rooted
  machine : (finalState result).Rooted
  grows : size ≤ (finalState result).store.frames.size
  value : ∀ value after, result = .ok value after → post after.store.frames.size value

namespace Machine.Roots

variable {α β : Type} {size : Nat} {post : Nat → α → Prop} {post' : Nat → β → Prop}
variable {moments : List Moment} {machine : Machine} {result : EStateM.Result Halt Machine α}
variable {part : Exec α} {rest : α → Exec β} {next : α → Machine → List Moment}

theorem ok {value : α} (hmachine : machine.Rooted) (hgrows : size ≤ machine.store.frames.size)
    (hvalue : post machine.store.frames.size value) :
    Roots size post [] (.ok value machine) where
  moments := by simp
  machine := hmachine
  grows := hgrows
  value := by
    rintro _ _ ⟨⟩
    exact hvalue

theorem error {halt : Halt} (hmachine : machine.Rooted)
    (hgrows : size ≤ machine.store.frames.size) :
    Roots size post [] (.error halt machine) where
  moments := by simp
  machine := hmachine
  grows := hgrows
  value := by rintro _ _ ⟨⟩

theorem cons {moment : Moment} (hmoment : moment.Rooted) (h : Roots size post moments result) :
    Roots size post (moment :: moments) result :=
  ⟨List.forall_mem_cons.2 ⟨hmoment, h.moments⟩, h.machine, h.grows, h.value⟩

theorem widen {fewer : Nat} (h : Roots size post moments result) (hle : fewer ≤ size) :
    Roots fewer post moments result :=
  ⟨h.moments, h.machine, hle.trans h.grows, h.value⟩

theorem bind (hpart : Roots size post moments (part machine))
    (hrest : ∀ value after, after.Rooted → size ≤ after.store.frames.size →
      post after.store.frames.size value →
      Roots after.store.frames.size post' (next value after) (rest value after)) :
    Roots size post' (moments ++ following (part machine) next) ((part >>= rest) machine) := by
  cases hresult : part machine with
  | error halt after =>
      rw [hresult] at hpart
      rw [bind_of_error hresult]
      refine ⟨?_, hpart.machine, hpart.grows, by rintro _ _ ⟨⟩⟩
      simpa [following] using hpart.moments
  | ok value after =>
      rw [hresult] at hpart
      have hsecond := hrest value after hpart.machine hpart.grows (hpart.value value after rfl)
      rw [bind_of_ok hresult]
      refine ⟨?_, hsecond.machine, hpart.grows.trans hsecond.grows, hsecond.value⟩
      simp only [following, List.forall_mem_append]
      exact ⟨hpart.moments, hsecond.moments⟩

/-- A sequence whose first part has no moments. -/
theorem step_bind (hpart : Roots size post [] (part machine))
    (hrest : ∀ value after, after.Rooted → size ≤ after.store.frames.size →
      post after.store.frames.size value →
      Roots after.store.frames.size post' (next value after) (rest value after)) :
    Roots size post' (following (part machine) next) ((part >>= rest) machine) :=
  hpart.bind hrest

/-- A sequence whose second part has no moments. -/
theorem bind_step (hpart : Roots size post moments (part machine))
    (hrest : ∀ value after, after.Rooted → size ≤ after.store.frames.size →
      post after.store.frames.size value →
      Roots after.store.frames.size post' [] (rest value after)) :
    Roots size post' moments ((part >>= rest) machine) := by
  have hnone : moments ++ following (part machine) (fun _ _ => []) = moments := by
    cases part machine <;> simp [following]
  have h := hpart.bind hrest
  rwa [hnone] at h

/-- Where a part ends, the frame from which it was entered still exists. -/
theorem within {frame : FrameId} (hcurrent : machine.current < size)
    (h : Roots size post moments (part { machine with current := frame })) :
    Roots size post moments (within frame part machine) := by
  have hafter {after : Machine} (hrooted : after.Rooted)
      (hgrows : size ≤ after.store.frames.size) :
      ({ after with current := machine.current } : Machine).Rooted :=
    ⟨hrooted.frames, hrooted.globals, Nat.lt_of_lt_of_le hcurrent hgrows, hrooted.values⟩
  unfold Machine.within
  dsimp only
  cases hresult : part { machine with current := frame } with
  | ok value after =>
      rw [hresult] at h
      refine ⟨h.moments, hafter h.machine h.grows, h.grows, ?_⟩
      rintro _ _ ⟨⟩
      exact h.value value after rfl
  | error halt after =>
      rw [hresult] at h
      exact ⟨h.moments, hafter h.machine h.grows, h.grows, by rintro _ _ ⟨⟩⟩

/-! ## Steps of the machine -/

theorem ofExcept {line : Nat} {value? : Except RuntimeError α} (h : machine.Rooted)
    (hvalue : ∀ value, value? = .ok value → post machine.store.frames.size value) :
    Roots machine.store.frames.size post [] (ofExcept line value? machine) := by
  cases value? with
  | ok value => exact .ok h le_rfl (hvalue value rfl)
  | error error => exact .error h le_rfl

theorem lookup (id : Nat) (name : Token) (h : machine.Rooted) :
    Roots machine.store.frames.size Value.Rooted [] (lookup id name machine) := by
  rw [Machine.lookup]
  split
  · rename_i value hvalue
    refine .ok h le_rfl ?_
    unfold Machine.value? at hvalue
    split at hvalue
    · obtain ⟨frame, -, hget⟩ := Option.bind_eq_some_iff.1 hvalue
      exact h.values.frames frame _ value hget
    · exact h.values.frames _ _ value hvalue
  · exact .error h le_rfl

theorem checkArity {line expected got : Nat} (h : machine.Rooted) :
    Roots machine.store.frames.size (fun _ _ => True) []
      (checkArity line expected got machine) := by
  rw [Machine.checkArity]
  split
  · exact .ok h le_rfl trivial
  · exact .error h le_rfl

theorem define {name : String} {value : Value} (h : machine.Rooted)
    (hvalue : value.Rooted machine.store.frames.size) :
    Roots machine.store.frames.size (fun _ _ => True) [] (define name value machine) := by
  have hsize := Frames.size_define machine.store.frames machine.current name value
  refine .ok ⟨h.frames.define .., h.globals, hsize ▸ h.current, ?_⟩ hsize.ge trivial
  have hvalues := h.values.define machine.current name hvalue
  dsimp only
  rwa [hsize]

theorem assign {id : Nat} {name : Token} {value : Value} (h : machine.Rooted)
    (hvalue : value.Rooted machine.store.frames.size) :
    Roots machine.store.frames.size (fun _ _ => True) [] (assign id name value machine) := by
  have hcases : (machine.assigned id name.lexeme value).2 = machine.store.frames ∨
      ∃ target, (machine.assigned id name.lexeme value).2 =
        machine.store.frames.define target name.lexeme value := by
    rw [Machine.assigned]
    split
    · exact Frames.assignAt_cases ..
    · exact (Frames.assign_cases ..).imp_right fun h => ⟨_, h⟩
  have hafter : ({ machine with
      store.frames := (machine.assigned id name.lexeme value).2 } : Machine).Rooted ∧
      (machine.assigned id name.lexeme value).2.size = machine.store.frames.size := by
    rcases hcases with heq | ⟨target, heq⟩
    · rw [heq]
      exact ⟨h, rfl⟩
    · have hsize := Frames.size_define machine.store.frames target name.lexeme value
      have hvalues := h.values.define target name.lexeme hvalue
      rw [heq]
      refine ⟨⟨h.frames.define .., h.globals, hsize ▸ h.current, ?_⟩, hsize⟩
      dsimp only
      rwa [hsize]
  rw [assign_eq]
  dsimp only
  split
  · exact .ok hafter.1 hafter.2.ge trivial
  · exact .error hafter.1 hafter.2.ge

/-- A change of the store that makes no frame and puts no values into it that the
machine does not have. -/
theorem withStore {change : Store → α × Store} (h : machine.Rooted)
    (hframes : (change machine.store).2.frames = machine.store.frames)
    (hvalues : (change machine.store).2.All (Value.Rooted machine.store.frames.size))
    (hpost : post machine.store.frames.size (change machine.store).1) :
    Roots machine.store.frames.size post [] (withStore change machine) := by
  rw [withStore_eq]
  have hsize : (change machine.store).2.frames.size = machine.store.frames.size :=
    congrArg Frames.size hframes
  refine .ok ⟨hframes ▸ h.frames, h.globals, hsize ▸ h.current, ?_⟩ hsize.ge ?_
  · dsimp only
    rwa [hsize]
  · dsimp only
    rwa [hsize]

theorem printLine {value : Value} (h : machine.Rooted) :
    Roots machine.store.frames.size (fun _ _ => True) [] (printLine value machine) := by
  rw [Machine.printLine]
  dsimp only
  split
  · exact .ok ⟨h.frames, h.globals, h.current, h.values⟩ le_rfl trivial
  · exact .error ⟨h.frames, h.globals, h.current, h.values⟩ le_rfl

theorem nativeCall {line : Nat} {native : Native} {arguments : List Value} {time : Float}
    (h : machine.Rooted) (harguments : Value.AllRooted machine.store.frames.size arguments) :
    Roots machine.store.frames.size Value.Rooted []
      (nativeCall line native arguments time machine) := by
  have hframes := Builtin.frames_call time ((native.receiver.map .list).getD .nil)
    native.builtin arguments machine.store
  have hvalues := Builtin.preserves_call time ((native.receiver.map .list).getD .nil)
    native.builtin trivial (fun _ => trivial) (fun _ => trivial) harguments h.values
  unfold Builtin.Preserves at hvalues
  have hafter {after : Store} (hframes : after.frames = machine.store.frames)
      (hvalues : after.All (Value.Rooted machine.store.frames.size)) :
      ({ machine with store := after } : Machine).Rooted :=
    ⟨hframes ▸ h.frames, h.globals, hframes ▸ h.current, hframes ▸ hvalues⟩
  rw [Machine.nativeCall]
  cases hresult : native.builtin.call time ((native.receiver.map .list).getD .nil) arguments
      machine.store with
  | ok value after =>
      rw [hresult] at hframes hvalues
      have hsize : after.frames.size = machine.store.frames.size := congrArg Frames.size hframes
      refine .ok (hafter hframes hvalues.1) hsize.ge ?_
      dsimp only
      rw [hsize]
      exact hvalues.2
  | error error after =>
      rw [hresult] at hframes hvalues
      exact .error (hafter hframes hvalues) (congrArg Frames.size hframes).ge

theorem callNative {line : Nat} {native : Native} {arguments : List Value}
    (h : machine.Rooted) (harguments : Value.AllRooted machine.store.frames.size arguments) :
    Roots machine.store.frames.size Value.Rooted []
      (callNative line native arguments machine) := by
  rw [callNative_eq]
  split
  · have hnow : Roots machine.store.frames.size (fun _ _ => True) [] (now machine) :=
      .ok ⟨h.frames, h.globals, h.current, h.values⟩ le_rfl trivial
    apply hnow.bind_step
    intro time after hafter hgrows _
    exact nativeCall hafter (harguments.mono hgrows)
  · exact nativeCall h harguments

end Machine.Roots

end Lox
