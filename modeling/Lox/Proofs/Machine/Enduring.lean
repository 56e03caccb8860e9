import Lox.Proofs.Machine.Rooted

/-!
# What endures in a machine

Instances are numbered in the order in which they are made, and no value is an
instance that is still to be made.  The methods of a class are found under their own
names.  A frame stays inside the same frame, and it keeps its receiver as long as
nothing that is called like the receiver is given a value.
-/

namespace Lox

/-- Frames may have been added and names given values, but those that were there are
inside the same frames and have the same receivers. -/
structure Frames.Retains (before after : Frames) : Prop where
  size : before.size ≤ after.size
  enclosing? (frame : FrameId) (h : frame < before.size) :
    after.enclosing? frame = before.enclosing? frame
  receiver (frame : FrameId) (h : frame < before.size) :
    after.get? frame "this" = before.get? frame "this"

namespace Frames.Retains

variable {before middle after : Frames}

theorem refl (frames : Frames) : Retains frames frames :=
  ⟨le_rfl, fun _ _ => rfl, fun _ _ => rfl⟩

theorem trans (hfirst : Retains before middle) (hsecond : Retains middle after) :
    Retains before after where
  size := hfirst.size.trans hsecond.size
  enclosing? frame h :=
    (hsecond.enclosing? frame (h.trans_le hfirst.size)).trans (hfirst.enclosing? frame h)
  receiver frame h :=
    (hsecond.receiver frame (h.trans_le hfirst.size)).trans (hfirst.receiver frame h)

theorem child (frames : Frames) (frame : FrameId) : Retains frames (frames.child frame).2 where
  size := by simp
  enclosing? other h := by rw [enclosing?_child, if_neg (Nat.ne_of_lt h)]
  receiver other _ := get?_child ..

/-- A name is given a value in a new frame, or it is not that of the receiver. -/
theorem define (h : Retains before after) {frame : FrameId} {name : String} {value : Value}
    (hnew : before.size ≤ frame ∨ name ≠ "this") :
    Retains before (after.define frame name value) where
  size := by simpa using h.size
  enclosing? other hlt := by simpa using h.enclosing? other hlt
  receiver other hlt := by
    rw [get?_define, if_neg]
    · exact h.receiver other hlt
    · rintro ⟨rfl, rfl, -⟩
      exact hnew.elim (Nat.not_le_of_lt hlt) fun hne => hne rfl

theorem bindAll {frame : FrameId} (hnew : before.size ≤ frame) {parameters : List Token}
    {arguments : List Value} (h : Retains before after) :
    Retains before (Machine.bindAll frame parameters arguments after) := by
  induction parameters generalizing arguments after with
  | nil => exact h
  | cons parameter parameters ih =>
      cases arguments with
      | nil => exact h
      | cons argument arguments => exact ih (h.define (.inl hnew))

end Frames.Retains

theorem Machine.enclosing?_bindAll (frame : FrameId) (parameters : List Token)
    (arguments : List Value) (frames : Frames) (other : FrameId) :
    (bindAll frame parameters arguments frames).enclosing? other = frames.enclosing? other := by
  induction parameters generalizing arguments frames with
  | nil => rfl
  | cons parameter parameters ih =>
      cases arguments with
      | nil => rfl
      | cons argument arguments =>
          rw [bindAll, ih]
          exact Frames.enclosing?_define ..

/-! ## Instances that have been made -/

/-- The methods of the class are found under their own names, and those with the name
of initializers are initializers. -/
def ClassValue.Named (cls : ClassValue) : Prop :=
  ∀ (name : String) (method : Closure), cls.methods[name]? = some method →
    method.name = name ∧ method.isInitializer = method.declaration.isInitializer

theorem Store.named_newMethods {frame : FrameId} {declarations : List FunctionDecl}
    {methods : Std.TreeMap String Closure} {store : Store}
    (h : ∀ (name : String) (method : Closure), methods[name]? = some method → method.name = name)
    {name : String} {method : Closure}
    (hmethod : (newMethods frame declarations methods store).1[name]? = some method) :
    method.name = name := by
  induction declarations generalizing methods store with
  | nil => exact h name method hmethod
  | cons declaration declarations ih =>
      refine ih (fun key found hfound => ?_) hmethod
      rw [Std.TreeMap.getElem?_insert] at hfound
      split at hfound
      · rename_i heq
        obtain rfl := Option.some.inj hfound
        exact Std.LawfulEqCmp.eq_of_compare heq
      · exact h key found hfound

theorem Store.named_newClass (store : Store) (name : String) (declarations : List FunctionDecl)
    (frame : FrameId) : (store.newClass name declarations frame).1.Named := by
  intro key method hmethod
  refine ⟨named_newMethods (by simp) hmethod, ?_⟩
  obtain ⟨declaration, -, hdeclaration, -, hinitializer⟩ := methods_newClass hmethod
  rw [hinitializer, hdeclaration]

/-- The value is not an instance that is made after the first `count` ones. -/
def Value.Made (count : Nat) : Value → Prop
  | .object cls id => id < count ∧ cls.Named
  | .classValue cls => cls.Named
  | _ => True

theorem Value.Made.mono {count more : Nat} {value : Value} (h : value.Made count)
    (hle : count ≤ more) : value.Made more := by
  cases value with
  | object cls id => exact ⟨h.1.trans_le hle, h.2⟩
  | classValue cls => exact h
  | nil | truth _ | number _ | text _ | function _ | native _ | list _ => trivial

/-- A new instance is equal to nothing that was there before. -/
theorem Value.Made.ne_object {count : Nat} {value : Value} (h : value.Made count)
    (cls : ClassValue) :
    (Value.object cls count).equals value = false ∧
      value.equals (Value.object cls count) = false := by
  cases value with
  | object other id =>
      have hne : id ≠ count := Nat.ne_of_lt h.1
      simp [equals, hne, hne.symm]
  | nil | truth _ | number _ | text _ | function _ | native _ | classValue _ | list _ =>
      exact ⟨rfl, rfl⟩

/-- The values, all of them. -/
def Value.AllMade (count : Nat) (values : List Value) : Prop :=
  ∀ value ∈ values, value.Made count

theorem Value.AllMade.mono {count more : Nat} {values : List Value} (h : AllMade count values)
    (hle : count ≤ more) : AllMade more values :=
  fun value hvalue => (h value hvalue).mono hle

/-- The instances in the store are among those that have been made. -/
def Machine.Made (machine : Machine) : Prop :=
  machine.store.All (Value.Made machine.store.fields.size)

/-- The values that a task is about have been made. -/
def Task.Made (count : Nat) : Task → Prop
  | .call function _ arguments => function.Made count ∧ Value.AllMade count arguments
  | .bind _ this => this.Made count
  | .invoke _ arguments => Value.AllMade count arguments
  | _ => True

/-- The name that a task gives a value, apart from what its parts do. -/
def Task.written? : Task → Option String
  | .expr (.assign _ name _) => some name.lexeme
  | .stmt s => s.declared?.map Token.lexeme
  | _ => none

namespace Moment

structure Made (moment : Moment) : Prop where
  machine : moment.machine.Made
  task : moment.task.Made moment.machine.store.fields.size

/-- The receiver is not given a value as a variable is. -/
def Plain (moment : Moment) : Prop :=
  moment.task.written? ≠ some "this"

theorem Plain.ne_this {moment : Moment} {name : String} (h : moment.Plain)
    (hwritten : moment.task.written? = some name) : name ≠ "this" :=
  fun hname => h (hname ▸ hwritten)

/-- The frame that is made at the moment is there: that of a block is inside the frame
in which the block begins, that of a call inside the frame of the function, and one in
which a method is bound has its receiver. -/
def Opens (moment : Moment) (frames : Frames) : Prop :=
  match moment.task with
  | .stmt (.block _) => frames.enclosing? moment.frame = some moment.machine.current
  | .invoke closure _ => frames.enclosing? moment.frame = some closure.frame
  | .bind _ this => frames.get? moment.frame "this" = some this
  | _ => True

theorem Opens.retain {moment : Moment} {before after : Frames} (h : moment.Opens before)
    (hretains : before.Retains after) : moment.Opens after := by
  unfold Opens at h ⊢
  split at h
  · exact (hretains.enclosing? _ (Frames.lt_size_of_enclosing? h)).trans h
  · exact (hretains.enclosing? _ (Frames.lt_size_of_enclosing? h)).trans h
  · exact (hretains.receiver _ (Frames.lt_size_of_binds (Option.isSome_of_eq_some h))).trans h
  · trivial

/-- What was there at the moment, and the frame that is made at it. -/
structure Lasts (moment : Moment) (frames : Frames) : Prop where
  retains : moment.machine.store.frames.Retains frames
  opens : moment.Opens frames

theorem Lasts.retain {moment : Moment} {before after : Frames} (h : moment.Lasts before)
    (hretains : before.Retains after) : moment.Lasts after :=
  ⟨h.retains.trans hretains, h.opens.retain hretains⟩

end Moment

/-- No instance is met before it is made, and instances stay.  The moments of a moment
are among the moments.  If none of them gives the receiver a value, what was there at
each of them is there in the end, and so is what was there `before`.  An assumption
that the moments before these provide may be `given`. -/
structure Machine.Endures {α : Type} (given : Prop) (before : Store) (post : Nat → α → Prop)
    (moments : List Moment) (result : EStateM.Result Halt Machine α) : Prop where
  machine : (finalState result).Made
  grows : before.fields.size ≤ (finalState result).store.fields.size
  value : ∀ value after, result = .ok value after → post after.store.fields.size value
  made : ∀ moment ∈ moments, moment.Made
  inside : ∀ moment ∈ moments, Lox.moments moment.fuel moment.task moment.machine ⊆ moments
  retains : given → (∀ moment ∈ moments, moment.Plain) →
    before.frames.Retains (finalState result).store.frames ∧
      ∀ moment ∈ moments, moment.Lasts (finalState result).store.frames

namespace Machine.Endures

variable {α β : Type} {given : Prop} {before : Store} {post : Nat → α → Prop}
variable {post' : Nat → β → Prop} {moments : List Moment} {machine : Machine}
variable {result : EStateM.Result Halt Machine α} {part : Exec α} {rest : α → Exec β}
variable {next : α → Machine → List Moment}

theorem ok {value : α} (hmachine : machine.Made)
    (hgrows : before.fields.size ≤ machine.store.fields.size)
    (hretains : given → before.frames.Retains machine.store.frames)
    (hvalue : post machine.store.fields.size value) :
    Endures given before post [] (.ok value machine) where
  machine := hmachine
  grows := hgrows
  value := by
    rintro _ _ ⟨⟩
    exact hvalue
  made := by simp
  inside := by simp
  retains hgiven _ := ⟨hretains hgiven, by simp⟩

theorem error {halt : Halt} (hmachine : machine.Made)
    (hgrows : before.fields.size ≤ machine.store.fields.size)
    (hretains : given → before.frames.Retains machine.store.frames) :
    Endures given before post [] (.error halt machine) where
  machine := hmachine
  grows := hgrows
  value := by rintro _ _ ⟨⟩
  made := by simp
  inside := by simp
  retains hgiven _ := ⟨hretains hgiven, by simp⟩

/-- The value is given at once and nothing is changed. -/
theorem value_now {value : α} (h : machine.Made) (hvalue : post machine.store.fields.size value) :
    Endures given machine.store post [] (.ok value machine) :=
  .ok h le_rfl (fun _ => .refl _) hvalue

theorem error_now {halt : Halt} (h : machine.Made) :
    Endures given machine.store post [] (.error halt machine) :=
  .error h le_rfl fun _ => .refl _

/-- A moment comes before others, which begin with the frame that is made at it, if
one is.  What it says itself is given to them. -/
theorem cons {moment : Moment} {opened : Store} (hmoment : moment.Made)
    (hinside : Lox.moments moment.fuel moment.task moment.machine ⊆ moment :: moments)
    (hgrows : moment.machine.store.fields.size ≤ opened.fields.size)
    (hretains : moment.machine.store.frames.Retains opened.frames)
    (hopens : moment.Opens opened.frames)
    (h : Endures (given ∧ moment.Plain) opened post moments result) :
    Endures given moment.machine.store post (moment :: moments) result where
  machine := h.machine
  grows := hgrows.trans h.grows
  value := h.value
  made := List.forall_mem_cons.2 ⟨hmoment, h.made⟩
  inside := by
    refine List.forall_mem_cons.2 ⟨hinside, fun other hother => ?_⟩
    exact List.Subset.trans (h.inside other hother) (List.subset_cons_self ..)
  retains hgiven hplain := by
    obtain ⟨hfirst, hplain⟩ := List.forall_mem_cons.1 hplain
    obtain ⟨hlater, hlasts⟩ := h.retains ⟨hgiven, hfirst⟩ hplain
    have hmoment := hretains.trans hlater
    exact ⟨hmoment, List.forall_mem_cons.2 ⟨⟨hmoment, hopens.retain hlater⟩, hlasts⟩⟩

/-- The moments of a task at which no frame is made. -/
theorem cons_task {fuel : Nat} {task : Task} (hmoment : Moment.Made ⟨fuel + 1, task, machine⟩)
    (hopens : Moment.Opens ⟨fuel + 1, task, machine⟩ machine.store.frames)
    (h : Endures (given ∧ Moment.Plain ⟨fuel + 1, task, machine⟩) machine.store post
      (task.inside fuel (Lox.moments fuel) machine) result) :
    Endures given machine.store post (Lox.moments (fuel + 1) task machine) result :=
  .cons hmoment (List.Subset.refl _) le_rfl (.refl _) hopens h

/-- A method is bound at a moment of its own. -/
theorem cons_bind {fuel : Nat} {method : Closure} {this : Value} (h : machine.Made)
    (hthis : this.Made machine.store.fields.size)
    (hrest : Endures (given ∧ Moment.Plain ⟨fuel, .bind method this, machine⟩)
      (machine.store.bind method this).2 post moments result) :
    Endures given machine.store post (⟨fuel, .bind method this, machine⟩ :: moments) result := by
  have hinside : Lox.moments fuel (.bind method this) machine ⊆
      ⟨fuel, .bind method this, machine⟩ :: moments := by
    cases fuel with
    | zero => exact List.nil_subset _
    | succ fuel => exact List.cons_subset_cons _ (List.nil_subset _)
  have hretains : machine.store.frames.Retains (machine.store.bind method this).2.frames := by
    rw [Store.frames_bind]
    exact (Frames.Retains.child ..).define (.inl le_rfl)
  have hopens : (machine.store.bind method this).2.frames.get? machine.store.frames.size "this" =
      some this := by
    simp [Store.frames_bind, Frames.get?_define]
  have hmoment : Moment.Made ⟨fuel, .bind method this, machine⟩ := ⟨h, hthis⟩
  have hgrows : machine.store.fields.size ≤ (machine.store.bind method this).2.fields.size :=
    le_rfl
  exact .cons hmoment hinside hgrows hretains hopens hrest

/-- What holds from a later store on. -/
theorem since {middle : Store} (h : Endures given middle post moments result)
    (hgrows : before.fields.size ≤ middle.fields.size)
    (hretains : given → before.frames.Retains middle.frames) :
    Endures given before post moments result where
  machine := h.machine
  grows := hgrows.trans h.grows
  value := h.value
  made := h.made
  inside := h.inside
  retains hgiven hplain :=
    ⟨(hretains hgiven).trans (h.retains hgiven hplain).1, (h.retains hgiven hplain).2⟩

/-- What endures in a first part and in what comes after it. -/
theorem append {middle : Machine} {value : α} {later : List Moment}
    {last : EStateM.Result Halt Machine β}
    (h : Endures given before post moments (.ok value middle))
    (hlater : Endures given middle.store post' later last) :
    Endures given before post' (moments ++ later) last where
  machine := hlater.machine
  grows := h.grows.trans hlater.grows
  value := hlater.value
  made := List.forall_mem_append.2 ⟨h.made, hlater.made⟩
  inside := by
    refine List.forall_mem_append.2 ⟨fun moment hmoment => ?_, fun moment hmoment => ?_⟩
    · exact List.subset_append_of_subset_left _ (h.inside moment hmoment)
    · exact List.subset_append_of_subset_right _ (hlater.inside moment hmoment)
  retains hgiven hplain := by
    obtain ⟨hfirst, hsecond⟩ := List.forall_mem_append.1 hplain
    obtain ⟨hretains, hlasts⟩ := h.retains hgiven hfirst
    obtain ⟨hretains', hlasts'⟩ := hlater.retains hgiven hsecond
    refine ⟨hretains.trans hretains', List.forall_mem_append.2 ⟨?_, hlasts'⟩⟩
    exact fun moment hmoment => (hlasts moment hmoment).retain hretains'

theorem bind (hpart : Endures given before post moments (part machine))
    (hrest : ∀ value after, after.Made → before.fields.size ≤ after.store.fields.size →
      post after.store.fields.size value →
      Endures given after.store post' (next value after) (rest value after)) :
    Endures given before post' (moments ++ following (part machine) next)
      ((part >>= rest) machine) := by
  cases hresult : part machine with
  | error halt after =>
      rw [hresult] at hpart
      rw [bind_of_error hresult, following, List.append_nil]
      exact ⟨hpart.machine, hpart.grows, by rintro _ _ ⟨⟩, hpart.made, hpart.inside,
        hpart.retains⟩
  | ok value after =>
      rw [hresult] at hpart
      rw [bind_of_ok hresult]
      exact hpart.append (hrest value after hpart.machine hpart.grows (hpart.value value after rfl))

/-- What endures however the computation has ended. -/
theorem ended (h : Endures given before post moments result) :
    Endures given before (fun _ _ => True) moments
      (.ok () (finalState result) : EStateM.Result Halt Machine Unit) :=
  ⟨h.machine, h.grows, fun _ _ _ => trivial, h.made, h.inside, h.retains⟩

/-- A sequence whose first part has no moments. -/
theorem step_bind (hpart : Endures given before post [] (part machine))
    (hrest : ∀ value after, after.Made → before.fields.size ≤ after.store.fields.size →
      post after.store.fields.size value →
      Endures given after.store post' (next value after) (rest value after)) :
    Endures given before post' (following (part machine) next) ((part >>= rest) machine) :=
  hpart.bind hrest

/-- A sequence whose second part has no moments. -/
theorem bind_step (hpart : Endures given before post moments (part machine))
    (hrest : ∀ value after, after.Made → before.fields.size ≤ after.store.fields.size →
      post after.store.fields.size value →
      Endures given after.store post' [] (rest value after)) :
    Endures given before post' moments ((part >>= rest) machine) := by
  have hnone : moments ++ following (part machine) (fun _ _ => []) = moments := by
    cases part machine <;> simp [following]
  have h := hpart.bind hrest
  rwa [hnone] at h

/-- What runs in another frame does to the store what it does. -/
theorem within {frame : FrameId}
    (h : Endures given before post moments (part { machine with current := frame })) :
    Endures given before post moments (within frame part machine) := by
  unfold Machine.within
  dsimp only
  cases hresult : part { machine with current := frame } with
  | ok value after =>
      rw [hresult] at h
      refine ⟨h.machine, h.grows, ?_, h.made, h.inside, h.retains⟩
      rintro _ _ ⟨⟩
      exact h.value value after rfl
  | error halt after =>
      rw [hresult] at h
      exact ⟨h.machine, h.grows, by rintro _ _ ⟨⟩, h.made, h.inside, h.retains⟩

/-! ## Steps of the machine -/

theorem ofExcept {line : Nat} {value? : Except RuntimeError α} (h : machine.Made)
    (hvalue : ∀ value, value? = .ok value → post machine.store.fields.size value) :
    Endures given machine.store post [] (ofExcept line value? machine) := by
  cases value? with
  | ok value => exact .value_now h (hvalue value rfl)
  | error error => exact .error_now h

theorem lookup (id : Nat) (name : Token) (h : machine.Made) :
    Endures given machine.store Value.Made [] (lookup id name machine) := by
  rw [Machine.lookup]
  split
  · rename_i value hvalue
    refine .value_now h ?_
    unfold Machine.value? at hvalue
    split at hvalue
    · obtain ⟨frame, -, hget⟩ := Option.bind_eq_some_iff.1 hvalue
      exact h.frames frame _ value hget
    · exact h.frames _ _ value hvalue
  · exact .error_now h

theorem checkArity {line expected got : Nat} (h : machine.Made) :
    Endures given machine.store (fun _ _ => True) [] (checkArity line expected got machine) := by
  rw [Machine.checkArity]
  split
  · exact .value_now h trivial
  · exact .error_now h

theorem define {name : String} {value : Value} (h : machine.Made)
    (hname : given → name ≠ "this") (hvalue : value.Made machine.store.fields.size) :
    Endures given machine.store (fun _ _ => True) [] (define name value machine) :=
  .ok (Store.All.define h machine.current name hvalue) le_rfl
    (fun hgiven => (Frames.Retains.refl _).define (.inr (hname hgiven))) trivial

theorem assign {id : Nat} {name : Token} {value : Value} (h : machine.Made)
    (hname : given → name.lexeme ≠ "this") (hvalue : value.Made machine.store.fields.size) :
    Endures given machine.store (fun count _ => value.Made count) []
      (assign id name value machine) := by
  have hcases : (machine.assigned id name.lexeme value).2 = machine.store.frames ∨
      ∃ target, (machine.assigned id name.lexeme value).2 =
        machine.store.frames.define target name.lexeme value := by
    rw [Machine.assigned]
    split
    · exact Frames.assignAt_cases ..
    · exact (Frames.assign_cases ..).imp_right fun h => ⟨_, h⟩
  have hafter : ({ machine with
      store.frames := (machine.assigned id name.lexeme value).2 } : Machine).Made ∧
      (given → machine.store.frames.Retains (machine.assigned id name.lexeme value).2) := by
    rcases hcases with heq | ⟨target, heq⟩
    · rw [heq]
      exact ⟨h, fun _ => .refl _⟩
    · rw [heq]
      exact ⟨Store.All.define h target name.lexeme hvalue,
        fun hgiven => (Frames.Retains.refl _).define (.inr (hname hgiven))⟩
  rw [assign_eq]
  dsimp only
  split
  · exact .ok hafter.1 le_rfl hafter.2 hvalue
  · exact .error hafter.1 le_rfl hafter.2

/-- A change of the store that makes no frame. -/
theorem withStore {change : Store → α × Store}
    (hframes : (change machine.store).2.frames = machine.store.frames)
    (hgrows : machine.store.fields.size ≤ (change machine.store).2.fields.size)
    (hvalues : (change machine.store).2.All (Value.Made (change machine.store).2.fields.size))
    (hpost : post (change machine.store).2.fields.size (change machine.store).1) :
    Endures given machine.store post [] (withStore change machine) := by
  rw [withStore_eq]
  exact .ok hvalues hgrows (fun _ => hframes ▸ .refl _) hpost

theorem printLine {value : Value} (h : machine.Made) :
    Endures given machine.store (fun _ _ => True) [] (printLine value machine) := by
  rw [Machine.printLine]
  dsimp only
  split
  · exact .ok h le_rfl (fun _ => .refl _) trivial
  · exact .error h le_rfl fun _ => .refl _

theorem nativeCall {line : Nat} {native : Native} {arguments : List Value} {time : Float}
    (h : machine.Made) (harguments : Value.AllMade machine.store.fields.size arguments) :
    Endures given machine.store Value.Made [] (nativeCall line native arguments time machine) := by
  have hframes := Builtin.frames_call time ((native.receiver.map .list).getD .nil)
    native.builtin arguments machine.store
  have hfields := Builtin.fields_call time ((native.receiver.map .list).getD .nil)
    native.builtin arguments machine.store
  have hvalues := Builtin.preserves_call time ((native.receiver.map .list).getD .nil)
    native.builtin trivial (fun _ => trivial) (fun _ => trivial) harguments h
  unfold Builtin.Preserves at hvalues
  have hretains {after : Store} (hframes : after.frames = machine.store.frames) :
      machine.store.frames.Retains after.frames := hframes ▸ .refl _
  rw [Machine.nativeCall]
  cases hresult : native.builtin.call time ((native.receiver.map .list).getD .nil) arguments
      machine.store with
  | ok value after =>
      rw [hresult] at hframes hfields hvalues
      have hsize : after.fields.size = machine.store.fields.size := congrArg Array.size hfields
      rw [← hsize] at hvalues
      exact .ok hvalues.1 hsize.ge (fun _ => hretains hframes) hvalues.2
  | error error after =>
      rw [hresult] at hframes hfields hvalues
      have hsize : after.fields.size = machine.store.fields.size := congrArg Array.size hfields
      rw [← hsize] at hvalues
      exact .error hvalues hsize.ge fun _ => hretains hframes

theorem callNative {line : Nat} {native : Native} {arguments : List Value} (h : machine.Made)
    (harguments : Value.AllMade machine.store.fields.size arguments) :
    Endures given machine.store Value.Made [] (callNative line native arguments machine) := by
  rw [callNative_eq]
  split
  · have hnow : Endures given machine.store (fun size _ => Value.AllMade size arguments) []
        (now machine) :=
      .ok h le_rfl (fun _ => .refl _) harguments
    apply hnow.bind_step
    intro time after hafter _ harguments'
    exact nativeCall hafter harguments'
  · exact nativeCall h harguments

end Machine.Endures

end Lox
