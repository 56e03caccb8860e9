import Lox.Proofs.Likeness.Store
import Lox.Proofs.Matching.Value

/-!
# Matching stores

Two stores match if they have the same frames, lists and instances and hold
matching values in them.  No operation on the store, and no built-in function,
tells matching stores apart.
-/

namespace Lox

variable {c : Correspondence}

/-- The frames are attached in the same way and give the same names matching
values. -/
structure Frames.Match (c : Correspondence) (frames frames' : Frames) : Prop where
  size : frames.size = frames'.size
  enclosing? (frame : FrameId) : frames.enclosing? frame = frames'.enclosing? frame
  get? (frame : FrameId) (name : String) :
    Option.Rel (Value.Matches c) (frames.get? frame name) (frames'.get? frame name)

namespace Frames

variable {frames frames' : Frames} {value value' : Value}

theorem Match.define (h : frames.Match c frames') (frame : FrameId) (name : String)
    (hvalue : value.Matches c value') :
    (frames.define frame name value).Match c (frames'.define frame name value') where
  size := by simpa using h.size
  enclosing? other := by simpa using h.enclosing? other
  get? other key := by
    rw [get?_define, get?_define, h.size]
    split
    · exact .some hvalue
    · exact h.get? other key

theorem Match.child (h : frames.Match c frames') (enclosing : FrameId) :
    (frames.child enclosing).2.Match c (frames'.child enclosing).2 where
  size := by simpa using h.size
  enclosing? other := by rw [enclosing?_child, enclosing?_child, h.size, h.enclosing?]
  get? other name := by simpa using h.get? other name

theorem Match.assign (h : frames.Match c frames') (frame : FrameId) (name : String)
    (hvalue : value.Matches c value') :
    (frames.assign frame name value).1 = (frames'.assign frame name value').1 ∧
      (frames.assign frame name value).2.Match c (frames'.assign frame name value').2 := by
  simp only [Frames.assign]
  rw [isSome_of_rel (h.get? frame name)]
  split
  · exact ⟨rfl, h.define frame name hvalue⟩
  · exact ⟨rfl, h⟩

theorem Match.ancestor? (h : frames.Match c frames') (distance : Nat) (frame : FrameId) :
    frames.ancestor? distance frame = frames'.ancestor? distance frame := by
  induction distance generalizing frame with
  | zero => rfl
  | succ distance ih =>
      have hsame : frames.ancestor? distance = frames'.ancestor? distance := by
        funext frame
        exact ih frame
      rw [Frames.ancestor?, Frames.ancestor?, h.enclosing?, hsame]

theorem Match.getAt? (h : frames.Match c frames') (frame : FrameId) (distance : Nat)
    (name : String) :
    Option.Rel (Value.Matches c) (frames.getAt? frame distance name)
      (frames'.getAt? frame distance name) := by
  simp only [Frames.getAt?]
  rw [h.ancestor?]
  cases frames'.ancestor? distance frame with
  | none => exact .none
  | some target => exact h.get? target name

theorem Match.assignAt (h : frames.Match c frames') (frame : FrameId) (distance : Nat)
    (name : String) (hvalue : value.Matches c value') :
    (frames.assignAt frame distance name value).1 =
        (frames'.assignAt frame distance name value').1 ∧
      (frames.assignAt frame distance name value).2.Match c
        (frames'.assignAt frame distance name value').2 := by
  simp only [Frames.assignAt]
  rw [h.ancestor?]
  split
  · exact h.assign _ name hvalue
  · exact ⟨rfl, h⟩

end Frames

/-! ## The store -/

structure Store.Matches (c : Correspondence) (store store' : Store) : Prop where
  frames : store.frames.Match c store'.frames
  lists : Lists.Match c store.lists store'.lists
  instances : store.fields.size = store'.fields.size
  field? (id : InstanceId) (name : String) :
    Option.Rel (Value.Matches c) (store.field? id name) (store'.field? id name)
  nextIdentity : store.nextIdentity = store'.nextIdentity

/-- Two changes of the store give related results and leave matching stores. -/
def Store.ChangesMatch {α α' : Type} (c : Correspondence) (results : α → α' → Prop)
    (changed : α × Store) (changed' : α' × Store) : Prop :=
  results changed.1 changed'.1 ∧ changed.2.Matches c changed'.2

namespace Store

variable {store store' : Store} {value value' : Value}

theorem Matches.withFrames (h : store.Matches c store') {frames frames' : Frames}
    (hframes : frames.Match c frames') :
    ({ store with frames := frames } : Store).Matches c { store' with frames := frames' } :=
  ⟨hframes, h.lists, h.instances, h.field?, h.nextIdentity⟩

theorem Matches.like (h : store.Matches c store') : store.Like c.likeness store' where
  lists := h.lists.like
  instances := h.instances
  field? id name := rel_weaken (fun _ _ => Value.Matches.like) (h.field? id name)
  nextIdentity := h.nextIdentity

/-- Stores that are alike match as soon as their frames do. -/
theorem Like.matches (h : store.Like c.likeness store')
    (hframes : store.frames.Match c store'.frames) :
    store.Matches c store' where
  frames := hframes
  lists := ⟨h.lists.size, fun list => Value.AllLike.matches (h.lists.elements list)⟩
  instances := h.instances
  field? id name := rel_weaken (fun _ _ => Value.Like.matches) (h.field? id name)
  nextIdentity := h.nextIdentity

theorem Matches.identify (h : store.Matches c store') :
    ChangesMatch c Eq store.identify store'.identify :=
  ⟨h.nextIdentity, h.like.identify.2.matches h.frames⟩

theorem Matches.newList (h : store.Matches c store') {elements elements' : Array Value}
    (helements : Value.MatchAll c elements elements') :
    ChangesMatch c (Value.Matches c) (store.newList elements) (store'.newList elements') := by
  have hnew := h.like.newList (Value.MatchAll.like helements)
  exact ⟨hnew.1.matches, hnew.2.matches h.frames⟩

theorem Matches.newInstance (h : store.Matches c store') {cls cls' : ClassValue}
    (hcls : cls.Matches c cls') :
    ChangesMatch c (Value.Matches c) (store.newInstance cls) (store'.newInstance cls') := by
  have hnew := h.like.newInstance hcls
  exact ⟨hnew.1.matches, hnew.2.matches h.frames⟩

theorem Matches.setField (h : store.Matches c store') (id : InstanceId) (name : String)
    (hvalue : value.Matches c value') :
    (store.setField id name value).Matches c (store'.setField id name value') :=
  (h.like.setField id name hvalue.like).matches h.frames

/-! ## Functions and classes -/

theorem Matches.newClosure (h : store.Matches c store')
    {declaration declaration' : FunctionDecl} (hdeclaration : declaration.Matches c declaration')
    (frame : FrameId) (isInitializer : Bool) :
    ChangesMatch c (Closure.Matches c) (store.newClosure declaration frame isInitializer)
      (store'.newClosure declaration' frame isInitializer) :=
  ⟨⟨h.nextIdentity, hdeclaration, rfl, rfl⟩, h.identify.2⟩

/-- The tables have matching functions under the same names. -/
abbrev MethodsMatch (c : Correspondence) (methods methods' : Std.TreeMap String Closure) : Prop :=
  MethodsLike (Closure.Matches c) methods methods'

theorem Matches.newMethods (frame : FrameId) {declarations declarations' : List FunctionDecl}
    (hdeclarations : List.Forall₂ (FunctionDecl.Matches c) declarations declarations')
    {methods methods' : Std.TreeMap String Closure} (hmethods : MethodsMatch c methods methods')
    (h : store.Matches c store') :
    ChangesMatch c (MethodsMatch c) (newMethods frame declarations methods store)
      (newMethods frame declarations' methods' store') := by
  have hmade : ∀ {d d' : FunctionDecl} (identity : Nat), d.Matches c d' →
      Closure.Matches c ⟨identity, d, frame, d.isInitializer⟩
        ⟨identity, d', frame, d'.isInitializer⟩ :=
    fun _ hd => ⟨rfl, hd, rfl, hd.isInitializer⟩
  have hnew := h.like.newMethods (fun hd => hd.name.lexeme) hmade hdeclarations hmethods
  refine ⟨hnew.1, hnew.2.matches ?_⟩
  rw [frames_newMethods, frames_newMethods]
  exact h.frames

theorem Matches.newClass (h : store.Matches c store') (name : String)
    {declarations declarations' : List FunctionDecl}
    (hdeclarations : List.Forall₂ (FunctionDecl.Matches c) declarations declarations')
    (frame : FrameId) :
    ChangesMatch c (ClassValue.Matches c) (store.newClass name declarations frame)
      (store'.newClass name declarations' frame) := by
  have hmethods := h.newMethods frame hdeclarations (methodsLike_empty _)
  exact ⟨⟨hmethods.2.nextIdentity, rfl, hmethods.1⟩, hmethods.2.identify.2⟩

theorem Matches.bind (h : store.Matches c store') {method method' : Closure}
    (hmethod : method.Matches c method') {this this' : Value} (hthis : this.Matches c this') :
    ChangesMatch c (Closure.Matches c) (store.bind method this) (store'.bind method' this') := by
  have hframes := (h.frames.child method.frame).define store.frames.size "this" hthis
  rw [bind_eq, bind_eq, ← hmethod.frame, ← hmethod.isInitializer, ← h.frames.size]
  exact (h.withFrames hframes).newClosure hmethod.declaration _ _

theorem Matches.property (h : store.Matches c store') (hvalue : value.Matches c value')
    (name : String) :
    ChangesMatch c (Option.Rel (Value.Matches c)) (store.property value name)
      (store'.property value' name) := by
  cases hvalue with
  | @object cls cls' hcls id =>
      rcases rel_cases (h.field? id name) with
        ⟨hleft, hright⟩ | ⟨field, field', hleft, hright, hfield⟩
      · rcases rel_cases (hcls.methods name) with
          ⟨hfound, hfound'⟩ | ⟨method, method', hfound, hfound', hmethod⟩
        · rw [property_missing hleft hfound, property_missing hright hfound']
          exact ⟨.none, h⟩
        · have hbound := h.bind hmethod (.object hcls id)
          rw [property_method hleft hfound, property_method hright hfound']
          exact ⟨.some (.function hbound.1), hbound.2⟩
      · rw [property_field hleft, property_field hright]
        exact ⟨.some hfield, h⟩
  | list id =>
      simp only [Store.property]
      cases Builtin.listMethod? name with
      | some builtin =>
          have hnative : Value.native ⟨store.nextIdentity, builtin, some id⟩ =
              .native ⟨store'.nextIdentity, builtin, some id⟩ := by rw [h.nextIdentity]
          refine ⟨.some ?_, h.identify.2⟩
          change (Value.native ⟨store.nextIdentity, builtin, some id⟩).Matches c _
          rw [hnative]
          exact .native _
      | none => exact ⟨.none, h⟩
  | nil | truth _ | number _ | text _ | function _ | native _ | classValue _ => exact ⟨.none, h⟩

end Store

/-! ## Built-in functions -/

namespace Builtin

/-- From matching stores two actions end in the same way. -/
abbrev ActionsMatch {α α' : Type} (c : Correspondence) (results : α → α' → Prop)
    (action : Action α) (action' : Action α') : Prop :=
  Parallel (Store.Matches c) Eq results action action'

theorem call_matches (now : Float) {receiver receiver' : Value}
    (hreceiver : receiver.Matches c receiver') (builtin : Builtin)
    {arguments arguments' : List Value}
    (harguments : List.Forall₂ (Value.Matches c) arguments arguments') :
    ActionsMatch c (Value.Matches c) (builtin.call now receiver arguments)
      (builtin.call now receiver' arguments') := by
  intro store store' h
  have hlike := call_like now hreceiver.like builtin
    (harguments.imp fun _ _ => Value.Matches.like) store store' h.like
  have hframes := frames_call now receiver builtin arguments store
  have hframes' := frames_call now receiver' builtin arguments' store'
  generalize builtin.call now receiver arguments store = result at hlike hframes
  generalize builtin.call now receiver' arguments' store' = result' at hlike hframes'
  cases hlike with
  | @ok _ _ after after' hvalue hafter =>
      have hkept : after.frames.Match c after'.frames := by
        rw [show after.frames = _ from hframes, show after'.frames = _ from hframes']
        exact h.frames
      exact .ok hvalue.matches (hafter.matches hkept)
  | @error _ _ after after' herror hafter =>
      have hkept : after.frames.Match c after'.frames := by
        rw [show after.frames = _ from hframes, show after'.frames = _ from hframes']
        exact h.frames
      exact .error herror (hafter.matches hkept)

end Builtin

end Lox
