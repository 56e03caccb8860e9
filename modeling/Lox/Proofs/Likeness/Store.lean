import Lox.Proofs.Likeness.Value
import Lox.Proofs.Parallel
import Lox.Proofs.Store

/-!
# Stores that are alike

Two stores are alike if they have the same lists and instances, with elements and
fields that are alike, and give out the same identities.  Nothing is said of their
frames, which built-in functions do not touch.  No operation on the rest of the
store tells the two apart.
-/

namespace Lox

section Option

variable {α β : Type} {r : α → β → Prop} {o : Option α} {o' : Option β}

theorem isSome_of_rel (h : Option.Rel r o o') : o.isSome = o'.isSome := by
  cases h <;> rfl

theorem rel_cases (h : Option.Rel r o o') :
    (o = none ∧ o' = none) ∨ ∃ a b, o = some a ∧ o' = some b ∧ r a b := by
  cases h with
  | none => exact .inl ⟨rfl, rfl⟩
  | some h => exact .inr ⟨_, _, rfl, rfl, h⟩

theorem rel_self {r : α → α → Prop} (h : ∀ a, o = some a → r a a) :
    Option.Rel r o o := by
  cases o with
  | none => exact .none
  | some a => exact .some (h a rfl)

theorem rel_weaken {s : α → β → Prop} (himp : ∀ a b, r a b → s a b) (h : Option.Rel r o o') :
    Option.Rel s o o' := by
  cases h with
  | none => exact .none
  | some hrel => exact .some (himp _ _ hrel)

end Option

section Lists

variable {α β : Type} {r : α → β → Prop} {l : List α} {l' : List β}

theorem forall₂_getElem? (h : List.Forall₂ r l l') (i : Nat) : Option.Rel r l[i]? l'[i]? := by
  induction h generalizing i with
  | nil => exact .none
  | cons hfirst _ ih =>
      cases i with
      | zero => exact .some hfirst
      | succ i => simpa using ih i

theorem forall₂_set (h : List.Forall₂ r l l') (i : Nat) {a : α} {b : β} (hnew : r a b) :
    List.Forall₂ r (l.set i a) (l'.set i b) := by
  induction h generalizing i with
  | nil => exact .nil
  | cons hfirst hrest ih =>
      cases i with
      | zero => exact .cons hnew hrest
      | succ i => exact .cons hfirst (ih i)

theorem forall₂_eraseIdx (h : List.Forall₂ r l l') (i : Nat) :
    List.Forall₂ r (l.eraseIdx i) (l'.eraseIdx i) := by
  induction h generalizing i with
  | nil => exact .nil
  | cons hfirst hrest ih =>
      cases i with
      | zero => exact hrest
      | succ i => exact .cons hfirst (ih i)

end Lists

variable {l more : Likeness}

namespace Value

variable {values values' : Array Value} {value value' : Value}

theorem AllLike.size (h : AllLike l values values') : values.size = values'.size :=
  List.Forall₂.length_eq h

theorem AllLike.push (h : AllLike l values values') (hvalue : value.Like l value') :
    AllLike l (values.push value) (values'.push value') := by
  rw [AllLike]
  rw [Array.toList_push, Array.toList_push]
  exact List.rel_append h (.cons hvalue .nil)

theorem AllLike.getD (h : AllLike l values values') (i : Nat) :
    (values.getD i .nil).Like l (values'.getD i .nil) := by
  have hentry := forall₂_getElem? h i
  rw [Array.getElem?_toList, Array.getElem?_toList] at hentry
  rw [Array.getD_eq_getD_getElem?, Array.getD_eq_getD_getElem?]
  rcases rel_cases hentry with ⟨hleft, hright⟩ | ⟨value, value', hleft, hright, hvalue⟩
  · rw [hleft, hright]
    exact .nil
  · rw [hleft, hright]
    exact hvalue

theorem AllLike.setIfInBounds (h : AllLike l values values') (i : Nat)
    (hvalue : value.Like l value') :
    AllLike l (values.setIfInBounds i value) (values'.setIfInBounds i value') := by
  rw [AllLike]
  rw [Array.toList_setIfInBounds, Array.toList_setIfInBounds]
  exact forall₂_set h i hvalue

theorem AllLike.eraseIdxIfInBounds (h : AllLike l values values') (i : Nat) :
    AllLike l (values.eraseIdxIfInBounds i) (values'.eraseIdxIfInBounds i) := by
  rw [AllLike]
  rw [Array.toList_eraseIdxIfInBounds, Array.toList_eraseIdxIfInBounds]
  exact forall₂_eraseIdx h i

end Value

/-! ## The store -/

structure Store.Like (l : Likeness) (store store' : Store) : Prop where
  lists : Lists.Like l store.lists store'.lists
  instances : store.fields.size = store'.fields.size
  field? (id : InstanceId) (name : String) :
    Option.Rel (Value.Like l) (store.field? id name) (store'.field? id name)
  nextIdentity : store.nextIdentity = store'.nextIdentity

/-- Two changes of the store give related results and leave stores that are alike. -/
def Store.ChangesLike {α α' : Type} (l : Likeness) (results : α → α' → Prop)
    (changed : α × Store) (changed' : α' × Store) : Prop :=
  results changed.1 changed'.1 ∧ changed.2.Like l changed'.2

namespace Store

variable {store store' : Store} {value value' : Value}

theorem Like.mono (hwithin : l.Within more) (h : store.Like l store') :
    store.Like more store' where
  lists := ⟨h.lists.size, fun list => (h.lists.elements list).imp fun _ _ => .mono hwithin⟩
  instances := h.instances
  field? id name := rel_weaken (fun _ _ => .mono hwithin) (h.field? id name)
  nextIdentity := h.nextIdentity

/-- A store with values that are like themselves is like itself. -/
theorem All.like_self (h : store.All fun value => value.Like l value) : store.Like l store where
  lists := ⟨rfl, fun list => List.forall₂_same.2 fun value hvalue =>
    h.elements list value (Array.mem_toList_iff.1 hvalue)⟩
  instances := rfl
  field? id name := rel_self (h.fields id name)
  nextIdentity := rfl

/-- Frames play no part in this. -/
theorem Like.withFrames (h : store.Like l store') (frames frames' : Frames) :
    ({ store with frames := frames } : Store).Like l { store' with frames := frames' } :=
  ⟨h.lists, h.instances, h.field?, h.nextIdentity⟩

theorem Like.identify (h : store.Like l store') :
    ChangesLike l Eq store.identify store'.identify :=
  ⟨h.nextIdentity, h.lists, h.instances, h.field?, congrArg (· + 1) h.nextIdentity⟩

theorem Like.newList (h : store.Like l store') {elements elements' : Array Value}
    (helements : Value.AllLike l elements elements') :
    ChangesLike l (Value.Like l) (store.newList elements) (store'.newList elements') := by
  refine ⟨?_, ⟨?_, fun list => ?_⟩, h.instances, h.field?, h.nextIdentity⟩
  · rw [Store.newList]
    rw [h.lists.size]
    exact .list _
  · simpa [Store.newList] using h.lists.size
  · have hold := h.lists.elements list
    simp only [Store.newList, Array.getD_eq_getD_getElem?, Array.getElem?_push,
      h.lists.size] at hold ⊢
    split
    · exact helements
    · exact hold

theorem Like.newInstance (h : store.Like l store') {cls cls' : ClassValue}
    (hcls : l.classes cls cls') :
    ChangesLike l (Value.Like l) (store.newInstance cls) (store'.newInstance cls') := by
  refine ⟨?_, h.lists, ?_, fun id name => ?_, h.nextIdentity⟩
  · rw [Store.newInstance]
    rw [h.instances]
    exact .object hcls _
  · simpa [Store.newInstance] using h.instances
  · have hold := h.field? id name
    simp only [Store.newInstance, Store.field?, Array.getElem?_push, h.instances] at hold ⊢
    split
    · simp
    · exact hold

theorem Like.elements (h : store.Like l store') (list : ListId) :
    Value.AllLike l (store.elements list) (store'.elements list) :=
  h.lists.elements list

theorem field?_setField (store : Store) (id other : InstanceId) (name key : String)
    (value : Value) :
    (store.setField id name value).field? other key =
      if id = other ∧ name = key ∧ id < store.fields.size then some value
      else store.field? other key := by
  simp only [Store.field?, Store.setField]
  simp only [Array.getElem?_modify]
  by_cases hid : id = other
  · subst hid
    by_cases hlt : id < store.fields.size
    · by_cases hname : name = key <;> simp [hlt, hname, Std.TreeMap.getElem?_insert]
    · simp [hlt]
  · simp [hid]

theorem Like.modifyList (h : store.Like l store') (list : ListId)
    {change change' : Array Value → Array Value}
    (hchange : ∀ {values values' : Array Value}, Value.AllLike l values values' →
      Value.AllLike l (change values) (change' values')) :
    (store.modifyList list change).Like l (store'.modifyList list change') := by
  refine ⟨⟨?_, fun other => ?_⟩, h.instances, h.field?, h.nextIdentity⟩
  · simpa [Store.modifyList] using h.lists.size
  · have hold := h.elements other
    change Value.AllLike l ((store.modifyList list change).elements other)
      ((store'.modifyList list change').elements other)
    rw [elements_modifyList, elements_modifyList, h.lists.size]
    split
    · exact hchange hold
    · exact hold

theorem Like.setField (h : store.Like l store') (id : InstanceId) (name : String)
    (hvalue : value.Like l value') :
    (store.setField id name value).Like l (store'.setField id name value') := by
  refine ⟨h.lists, ?_, fun other key => ?_, h.nextIdentity⟩
  · simpa [Store.setField] using h.instances
  · rw [field?_setField, field?_setField, h.instances]
    split
    · exact .some hvalue
    · exact h.field? other key

/-! ## Functions and classes -/

/-- What `functions` relates has the same names in both tables. -/
abbrev MethodsLike (functions : Closure → Closure → Prop)
    (methods methods' : Std.TreeMap String Closure) : Prop :=
  ∀ name : String, Option.Rel functions methods[name]? methods'[name]?

theorem methodsLike_empty (functions : Closure → Closure → Prop) : MethodsLike functions ∅ ∅ := by
  intro name
  simp

section Methods

variable {functions : Closure → Closure → Prop}
variable {declarations : FunctionDecl → FunctionDecl → Prop} {frame frame' : FrameId}

/-- Methods made of declarations that correspond to each other are alike, if the
functions are that are made of such declarations in the two frames. -/
theorem Like.newMethods
    (hname : ∀ {d d' : FunctionDecl}, declarations d d' → d.name.lexeme = d'.name.lexeme)
    (hmade : ∀ {d d' : FunctionDecl} (identity : Nat), declarations d d' →
      functions ⟨identity, d, frame, d.isInitializer⟩ ⟨identity, d', frame', d'.isInitializer⟩)
    {ds ds' : List FunctionDecl} (hds : List.Forall₂ declarations ds ds')
    {methods methods' : Std.TreeMap String Closure}
    (hmethods : MethodsLike functions methods methods')
    (h : store.Like l store') :
    ChangesLike l (MethodsLike functions) (newMethods frame ds methods store)
      (newMethods frame' ds' methods' store') := by
  induction hds generalizing methods methods' store store' with
  | nil => exact ⟨hmethods, h⟩
  | @cons d d' _ _ hd _ ih =>
      have hidentity := h.identify
      simp only [Store.newMethods]
      refine ih (fun name => ?_) hidentity.2
      simp only [newClosure, Closure.name]
      rw [Std.TreeMap.getElem?_insert, Std.TreeMap.getElem?_insert, hname hd]
      split
      · refine .some ?_
        rw [hidentity.1]
        exact hmade _ hd
      · exact hmethods name

end Methods

theorem bind_eq (store : Store) (method : Closure) (this : Value) :
    store.bind method this =
      let frames := (store.frames.child method.frame).2.define store.frames.size "this" this
      newClosure { store with frames } method.declaration store.frames.size
        method.isInitializer := rfl

end Store

/-! ## Built-in functions -/

namespace Builtin

/-- From stores that are alike two actions end in the same way. -/
abbrev ActionsLike {α α' : Type} (l : Likeness) (results : α → α' → Prop)
    (action : Action α) (action' : Action α') : Prop :=
  Parallel (Store.Like l) Eq results action action'

theorem index_like {position position' : Value} (h : position.Like l position')
    (length : Nat) : position.index length = position'.index length := by
  cases h <;> rfl

theorem listId_like {receiver receiver' : Value} (h : receiver.Like l receiver') :
    receiver.listId = receiver'.listId := by
  cases h <;> rfl

theorem onList_like {receiver receiver' : Value} {action action' : ListId → Action Value}
    (hreceiver : receiver.Like l receiver')
    (haction : ∀ list, ActionsLike l (Value.Like l) (action list) (action' list)) :
    ActionsLike l (Value.Like l) (onList receiver action) (onList receiver' action') := by
  simp only [onList]
  rw [listId_like hreceiver]
  cases receiver'.listId with
  | ok list => exact haction list
  | error error => exact .throw rfl

theorem atIndex_like {position position' : Value} {action action' : Nat → Action Value}
    (hposition : position.Like l position') (list : ListId)
    (haction : ∀ i, ActionsLike l (Value.Like l) (action i) (action' i)) :
    ActionsLike l (Value.Like l) (atIndex position list action)
      (atIndex position' list action') := by
  intro store store' h
  simp only [atIndex]
  rw [index_like hposition, (h.elements list).size]
  cases position'.index (store'.elements list).size with
  | ok i => exact haction i store store' h
  | error error => exact .error rfl h

theorem element_like (list : ListId) (i : Nat) :
    ActionsLike l (Value.Like l) (element list i) (element list i) :=
  fun _ _ h => .ok ((h.elements list).getD i) h

theorem change_like (list : ListId) {edit edit' : Array Value → Array Value}
    (hedit : ∀ {values values' : Array Value}, Value.AllLike l values values' →
      Value.AllLike l (edit values) (edit' values')) :
    ActionsLike l Eq (change list edit) (change list edit') :=
  fun _ _ h => .ok rfl (h.modifyList list hedit)

theorem call_like (now : Float) {receiver receiver' : Value}
    (hreceiver : receiver.Like l receiver') (builtin : Builtin)
    {arguments arguments' : List Value}
    (harguments : List.Forall₂ (Value.Like l) arguments arguments') :
    ActionsLike l (Value.Like l) (builtin.call now receiver arguments)
      (builtin.call now receiver' arguments') := by
  have hmissing : ActionsLike l (Value.Like l)
      (onList receiver fun _ => throw .missingArgument)
      (onList receiver' fun _ => throw .missingArgument) := by
    apply onList_like hreceiver
    intro list
    exact .throw rfl
  cases builtin with
  | clock => exact .pure (.number now)
  | newList =>
      intro store store' h
      have hnew := @Store.Like.newList l store store' h #[] #[] .nil
      exact .ok hnew.1 hnew.2
  | length =>
      apply onList_like hreceiver
      intro list store store' h
      dsimp only
      rw [(h.elements list).size]
      exact .ok (.number _) h
  | get =>
      cases harguments with
      | nil => exact hmissing
      | cons hposition _ =>
          apply onList_like hreceiver
          intro list
          exact atIndex_like hposition list (element_like list)
  | append =>
      cases harguments with
      | nil => exact hmissing
      | cons hvalue _ =>
          apply onList_like hreceiver
          intro list
          apply (change_like list fun hvalues => hvalues.push hvalue).bind
          intro _ _ _
          exact .pure .nil
  | set =>
      cases harguments with
      | nil => exact hmissing
      | cons hposition hvalues =>
          apply onList_like hreceiver
          intro list
          apply atIndex_like hposition list
          intro i
          cases hvalues with
          | nil => exact .throw rfl
          | cons hvalue _ =>
              apply (change_like list fun hvalues => hvalues.setIfInBounds i hvalue).bind
              intro _ _ _
              exact .pure hvalue
  | remove =>
      cases harguments with
      | nil => exact hmissing
      | cons hposition _ =>
          apply onList_like hreceiver
          intro list
          apply atIndex_like hposition list
          intro i
          apply (element_like list i).bind
          intro removed removed' hremoved
          apply (change_like list fun hvalues => hvalues.eraseIdxIfInBounds i).bind
          intro _ _ _
          exact .pure hremoved

end Builtin

end Lox
