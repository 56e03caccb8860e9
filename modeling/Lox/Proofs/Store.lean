import Lox.Builtin
import Lox.Proofs.Frame
import Lox.Proofs.Sequencing

/-!
# How the store changes

Only binding a method makes a frame; all other operations on the store, those
of built-in functions among them, leave the frames as they are.  What all values
in the store have in common stays true as long as the values that are put into
it have it too.
-/

namespace Lox

namespace Store

variable {store : Store}

theorem frames_newMethods (frame : FrameId) (declarations : List FunctionDecl)
    (methods : Std.TreeMap String Closure) (store : Store) :
    (newMethods frame declarations methods store).2.frames = store.frames := by
  induction declarations generalizing methods store with
  | nil => rfl
  | cons declaration declarations ih => exact ih ..

theorem fields_newMethods (frame : FrameId) (declarations : List FunctionDecl)
    (methods : Std.TreeMap String Closure) (store : Store) :
    (newMethods frame declarations methods store).2.fields = store.fields := by
  induction declarations generalizing methods store with
  | nil => rfl
  | cons declaration declarations ih => exact ih ..

/-- The methods of a class come from its declarations. -/
theorem newMethods_cases {frame : FrameId} {declarations : List FunctionDecl}
    {methods : Std.TreeMap String Closure} {store : Store} {name : String} {method : Closure}
    (h : (newMethods frame declarations methods store).1[name]? = some method) :
    methods[name]? = some method ∨ ∃ declaration ∈ declarations,
      method.declaration = declaration ∧ method.frame = frame ∧
        method.isInitializer = declaration.isInitializer := by
  induction declarations generalizing methods store with
  | nil => exact .inl h
  | cons declaration declarations ih =>
      rcases ih h with h | ⟨other, hother, hmethod⟩
      · rw [Std.TreeMap.getElem?_insert] at h
        split at h
        · obtain rfl := Option.some.inj h
          exact .inr ⟨declaration, List.mem_cons_self, rfl, rfl, rfl⟩
        · exact .inl h
      · exact .inr ⟨other, List.mem_cons_of_mem _ hother, hmethod⟩

theorem methods_newClass {store : Store} {className : String}
    {declarations : List FunctionDecl} {frame : FrameId} {name : String} {method : Closure}
    (h : (store.newClass className declarations frame).1.methods[name]? = some method) :
    ∃ declaration ∈ declarations, method.declaration = declaration ∧ method.frame = frame ∧
      method.isInitializer = declaration.isInitializer := by
  have hnone : (∅ : Std.TreeMap String Closure)[name]? ≠ some method := by simp
  exact (newMethods_cases h).resolve_left hnone

theorem frames_newClass (store : Store) (name : String) (declarations : List FunctionDecl)
    (frame : FrameId) : (store.newClass name declarations frame).2.frames = store.frames :=
  frames_newMethods ..

/-- Declaring a class makes no instance. -/
theorem fields_newClass (store : Store) (name : String) (declarations : List FunctionDecl)
    (frame : FrameId) : (store.newClass name declarations frame).2.fields = store.fields :=
  fields_newMethods ..

theorem frames_bind (store : Store) (method : Closure) (this : Value) :
    (store.bind method this).2.frames =
      (store.frames.child method.frame).2.define store.frames.size "this" this := rfl

theorem keeps_bind (store : Store) (method : Closure) (this : Value) :
    store.frames.Keeps none (store.bind method this).2.frames := by
  rw [frames_bind]
  exact (Frames.keeps_child ..).of_new (Nat.le_refl _) (Frames.keeps_define ..)

section Property

variable {cls : ClassValue} {id : InstanceId} {name : String}

theorem property_field {value : Value} (h : store.field? id name = some value) :
    store.property (.object cls id) name = (some value, store) := by
  simp [property, h]

theorem property_method {method : Closure} (hfield : store.field? id name = none)
    (hmethod : cls.methods[name]? = some method) :
    store.property (.object cls id) name =
      (some (.function (store.bind method (.object cls id)).1),
        (store.bind method (.object cls id)).2) := by
  simp [property, hfield, hmethod]

theorem property_missing (hfield : store.field? id name = none)
    (hmethod : cls.methods[name]? = none) :
    store.property (.object cls id) name = (none, store) := by
  simp [property, hfield, hmethod]

end Property

theorem keeps_property (store : Store) (value : Value) (name : String) :
    store.frames.Keeps none (store.property value name).2.frames := by
  simp only [property]
  split
  · split
    · exact .refl _
    · split
      · exact keeps_bind ..
      · exact .refl _
  · split <;> exact .refl _
  · exact .refl _

theorem elements_modifyList (store : Store) (list other : ListId)
    (change : Array Value → Array Value) :
    (store.modifyList list change).elements other =
      if list = other ∧ list < store.lists.size then change (store.elements other)
      else store.elements other := by
  simp only [elements, Store.modifyList]
  simp only [Array.getD_eq_getD_getElem?, Array.getElem?_modify]
  by_cases hlist : list = other
  · subst hlist
    by_cases hlt : list < store.lists.size
    · simp [hlt]
    · simp [hlt]
  · simp [hlist]

end Store

namespace Store

/-- Every value in a frame, a list or a field is `good`. -/
structure All (good : Value → Prop) (store : Store) : Prop where
  frames (frame : FrameId) (name : String) (value : Value)
    (h : store.frames.get? frame name = some value) : good value
  lists (list : ListId) (elements : Array Value) (h : store.lists[list]? = some elements)
    (value : Value) (hmem : value ∈ elements) : good value
  fields (id : InstanceId) (name : String) (value : Value)
    (h : store.field? id name = some value) : good value

namespace All

variable {good : Value → Prop} {store : Store} {value : Value}

theorem mono {better : Value → Prop} (h : store.All good)
    (himp : ∀ value, good value → better value) : store.All better :=
  ⟨fun frame name value hvalue => himp value (h.frames frame name value hvalue),
    fun list elements helements value hmem =>
      himp value (h.lists list elements helements value hmem),
    fun id name value hvalue => himp value (h.fields id name value hvalue)⟩

theorem define (h : store.All good) (frame : FrameId) (name : String) (hvalue : good value) :
    (store.define frame name value).All good where
  frames other key v hv := by
    simp only [Store.define, Frames.get?_define] at hv
    split at hv
    · cases hv
      exact hvalue
    · exact h.frames other key v hv
  lists := h.lists
  fields := h.fields

theorem newFrame (h : store.All good) (enclosing : FrameId) :
    (store.newFrame enclosing).2.All good where
  frames frame name v hv := h.frames frame name v (by simpa [Store.newFrame] using hv)
  lists := h.lists
  fields := h.fields

theorem bind (h : store.All good) (method : Closure) (hvalue : good value) :
    (store.bind method value).2.All good := by
  have hdefined := (h.newFrame method.frame).define store.frames.size "this" hvalue
  exact ⟨hdefined.frames, hdefined.lists, hdefined.fields⟩

theorem newList (h : store.All good) {elements : Array Value}
    (helements : ∀ v ∈ elements, good v) : (store.newList elements).2.All good where
  frames := h.frames
  lists list found hfound v hv := by
    simp only [Store.newList, Array.getElem?_push] at hfound
    split at hfound
    · cases hfound
      exact helements v hv
    · exact h.lists list found hfound v hv
  fields := h.fields

theorem modifyList (h : store.All good) (list : ListId) {change : Array Value → Array Value}
    (hchange : ∀ elements : Array Value, (∀ v ∈ elements, good v) →
      ∀ v ∈ change elements, good v) :
    (store.modifyList list change).All good where
  frames := h.frames
  lists other found hfound v hv := by
    simp only [Store.modifyList, Array.getElem?_modify] at hfound
    split at hfound
    · obtain ⟨elements, helements, rfl⟩ := Option.map_eq_some_iff.1 hfound
      exact hchange elements (h.lists other elements helements) v hv
    · exact h.lists other found hfound v hv
  fields := h.fields

theorem newInstance (h : store.All good) (cls : ClassValue) :
    (store.newInstance cls).2.All good where
  frames := h.frames
  lists := h.lists
  fields id name v hv := by
    simp only [Store.newInstance, field?, Array.getElem?_push] at hv
    split at hv
    · simp at hv
    · exact h.fields id name v hv

theorem setField (h : store.All good) (id : InstanceId) (name : String) (hvalue : good value) :
    (store.setField id name value).All good where
  frames := h.frames
  lists := h.lists
  fields other key v hv := by
    simp only [Store.setField, field?, Array.getElem?_modify] at hv
    split at hv
    · cases hfields : store.fields[other]? with
      | none => simp [hfields] at hv
      | some fields =>
          simp only [hfields, Option.map_some, Option.bind_some,
            Std.TreeMap.getElem?_insert] at hv
          split at hv
          · cases hv
            exact hvalue
          · exact h.fields other key v (by simpa [field?, hfields] using hv)
    · exact h.fields other key v hv

theorem newMethods (frame : FrameId) (declarations : List FunctionDecl)
    (methods : Std.TreeMap String Closure) (h : store.All good) :
    (newMethods frame declarations methods store).2.All good := by
  induction declarations generalizing methods store with
  | nil => exact h
  | cons declaration declarations ih => exact ih _ ⟨h.frames, h.lists, h.fields⟩

theorem newClass (h : store.All good) (name : String) (declarations : List FunctionDecl)
    (frame : FrameId) : (store.newClass name declarations frame).2.All good :=
  have hmethods := h.newMethods frame declarations ∅
  ⟨hmethods.frames, hmethods.lists, hmethods.fields⟩

theorem elements (h : store.All good) (list : ListId) : ∀ v ∈ store.elements list, good v := by
  intro v hv
  unfold Store.elements at hv
  rw [Array.getD_eq_getD_getElem?] at hv
  cases hlist : store.lists[list]? with
  | none => simp [hlist] at hv
  | some found =>
      rw [hlist] at hv
      exact h.lists list found hlist v hv

end All

end Store

namespace Builtin

/-- The action changes the lists of the store at most. -/
def ChangesLists (action : Action Value) (store : Store) : Prop :=
  ∃ lists, finalState (action store) = { store with lists }

theorem changesLists_onList {receiver : Value} {action : ListId → Action Value} {store : Store}
    (h : ∀ list, ChangesLists (action list) store) :
    ChangesLists (onList receiver action) store := by
  rw [onList]
  cases receiver.listId with
  | ok list => exact h list
  | error error => exact ⟨_, rfl⟩

theorem changesLists_atIndex {position : Value} {list : ListId} {action : Nat → Action Value}
    {store : Store} (h : ∀ i, ChangesLists (action i) store) :
    ChangesLists (atIndex position list action) store := by
  rw [ChangesLists, atIndex]
  cases position.index (store.elements list).size with
  | ok i => exact h i
  | error error => exact ⟨_, rfl⟩

theorem changesLists_call (now : Float) (receiver : Value) (builtin : Builtin)
    (arguments : List Value) (store : Store) :
    ChangesLists (builtin.call now receiver arguments) store := by
  simp only [call]
  split
  · exact ⟨_, rfl⟩
  · exact ⟨_, rfl⟩
  · exact changesLists_onList fun _ => ⟨_, rfl⟩
  · exact changesLists_onList fun _ => changesLists_atIndex fun _ => ⟨_, rfl⟩
  · exact changesLists_onList fun _ => ⟨_, rfl⟩
  · refine changesLists_onList fun _ => changesLists_atIndex fun _ => ?_
    split <;> exact ⟨_, rfl⟩
  · exact changesLists_onList fun _ => changesLists_atIndex fun _ => ⟨_, rfl⟩
  · exact changesLists_onList fun _ => ⟨_, rfl⟩

/-- Built-in functions make no frames and define no names. -/
theorem frames_call (now : Float) (receiver : Value) (builtin : Builtin)
    (arguments : List Value) (store : Store) :
    (finalState (builtin.call now receiver arguments store)).frames = store.frames := by
  obtain ⟨lists, hlists⟩ := changesLists_call now receiver builtin arguments store
  rw [hlists]

/-- Built-in functions make no instances and set no fields. -/
theorem fields_call (now : Float) (receiver : Value) (builtin : Builtin)
    (arguments : List Value) (store : Store) :
    (finalState (builtin.call now receiver arguments store)).fields = store.fields := by
  obtain ⟨lists, hlists⟩ := changesLists_call now receiver builtin arguments store
  rw [hlists]

/-- An action keeps what the values in the store have in common, and its result
has it too. -/
def Preserves (good : Value → Prop) (action : Action Value) (store : Store) : Prop :=
  match action store with
  | .ok value after => after.All good ∧ good value
  | .error _ after => after.All good

section Preserves

variable {good : Value → Prop} {store : Store}

theorem preserves_onList {receiver : Value} {action : ListId → Action Value}
    (h : store.All good) (haction : ∀ list, Preserves good (action list) store) :
    Preserves good (onList receiver action) store := by
  rw [onList]
  cases receiver.listId with
  | ok list => exact haction list
  | error error => exact h

theorem preserves_atIndex {position : Value} {list : ListId} {action : Nat → Action Value}
    (h : store.All good) (haction : ∀ i, Preserves good (action i) store) :
    Preserves good (atIndex position list action) store := by
  rw [Preserves, atIndex]
  cases position.index (store.elements list).size with
  | ok i => exact haction i
  | error error => exact h

theorem good_element {list : ListId} (h : store.All good) (hnil : good .nil) (i : Nat) :
    good ((store.elements list).getD i .nil) := by
  rw [Array.getD_eq_getD_getElem?]
  cases helement : (store.elements list)[i]? with
  | none => exact hnil
  | some value => exact h.elements list value (Array.mem_of_getElem? helement)

/-- What the values in the store and the arguments have in common, all values
have after the call of a built-in function. -/
theorem preserves_call (now : Float) (receiver : Value) (builtin : Builtin)
    {arguments : List Value} (hnil : good .nil) (hnumber : ∀ x, good (.number x))
    (hlist : ∀ id, good (.list id)) (harguments : ∀ v ∈ arguments, good v)
    (h : store.All good) : Preserves good (builtin.call now receiver arguments) store := by
  simp only [call]
  split
  · exact ⟨h, hnumber now⟩
  · exact ⟨h.newList (by simp), hlist _⟩
  · exact preserves_onList h fun list => ⟨h, hnumber _⟩
  · exact preserves_onList h fun list => preserves_atIndex h fun i => ⟨h, good_element h hnil i⟩
  · refine preserves_onList h fun list =>
      ⟨h.modifyList list fun elements helements v hv => ?_, hnil⟩
    rcases Array.mem_push.1 hv with hv | rfl
    · exact helements v hv
    · exact harguments _ List.mem_cons_self
  · refine preserves_onList h fun list => preserves_atIndex h fun i => ?_
    split
    · rename_i value rest
      have hvalue : good value := harguments value (by simp)
      refine ⟨h.modifyList list fun elements helements v hv => ?_, hvalue⟩
      rcases Array.mem_or_eq_of_mem_setIfInBounds hv with hv | rfl
      · exact helements v hv
      · exact hvalue
    · exact h
  · refine preserves_onList h fun list => preserves_atIndex h fun i => ?_
    refine ⟨h.modifyList list fun elements helements v hv => ?_, good_element h hnil i⟩
    unfold Array.eraseIdxIfInBounds at hv
    split at hv
    · exact helements v (Array.mem_of_mem_eraseIdx hv)
    · exact helements v hv
  · exact preserves_onList h fun list => h

end Preserves

theorem error_index {position : Value} {length : Nat} {error : BuiltinError}
    (h : position.index length = .error error) :
    error = .indexNotInteger ∨ error = .indexOutOfBounds := by
  unfold Value.index at h
  repeat' split at h
  all_goals simp_all

theorem error_atIndex {position : Value} {list : ListId} {action : Nat → Action Value}
    {store after : Store} {error : BuiltinError}
    (h : atIndex position list action store = .error error after)
    (haction : ∀ i, action i store ≠ .error error after) :
    error = .indexNotInteger ∨ error = .indexOutOfBounds := by
  unfold atIndex at h
  cases hindex : position.index (store.elements list).size with
  | ok i =>
      rw [hindex] at h
      exact absurd h (haction i)
  | error other =>
      rw [hindex] at h
      cases h
      exact error_index hindex

/-- A built-in function that needs no list, or has one, and is called with as
many arguments as it has parameters objects to nothing but an index. -/
theorem error_call {now : Float} {receiver? : Option ListId} {builtin : Builtin}
    {arguments : List Value} {store after : Store} {error : BuiltinError}
    (hreceiver : builtin = .clock ∨ builtin = .newList ∨ receiver?.isSome)
    (harity : builtin.arity = arguments.length)
    (h : builtin.call now ((receiver?.map .list).getD .nil) arguments store =
      .error error after) : error = .indexNotInteger ∨ error = .indexOutOfBounds := by
  have hlist : builtin ≠ .clock → builtin ≠ .newList → ∃ list, receiver? = some list := by
    intro hclock hnewList
    exact Option.isSome_iff_exists.1 ((hreceiver.resolve_left hclock).resolve_left hnewList)
  cases builtin <;> simp only [arity] at harity
  case clock | newList => cases h
  all_goals
    obtain ⟨list, rfl⟩ := hlist (by simp) (by simp)
    rcases arguments with _ | ⟨first, _ | ⟨second, _ | ⟨third, rest⟩⟩⟩ <;> simp at harity
  case length | append => cases h
  case get | remove => exact error_atIndex h fun _ => by rintro ⟨⟩
  case set => exact error_atIndex h fun _ => by rintro ⟨⟩

end Builtin

end Lox
