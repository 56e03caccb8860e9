import Lox.Evaluation
import Lox.Proofs.Decimal.Exact
import Lox.Proofs.Machine.Steady
import Mathlib.Algebra.Order.Floor.Semiring
import Mathlib.Data.Rat.Floor

/-!
# The methods of lists

Calls of the methods of lists, however many and whatever their arguments are, do to
every list what the plain operations on sequences do to its elements, each list by
itself.  A value is an index exactly if it is a number without a fractional part that
is not negative and below the length.  A call that fails changes nothing.
-/

namespace Lox

/-- The number that a value stands for, if it is a finite number. -/
def Value.rational? : Value → Option ℚ
  | number x => Decimal.rational? x
  | _ => none

theorem Value.rational?_number (x : Float) (n : Int) :
    (number x).rational? = some ↑n ↔ Decimal.integer? x = some n :=
  (Decimal.integer?_eq_some_iff x n).symm

namespace Sequence

/-- Where a value points to in a sequence, or the objection to it. -/
def index (length : Nat) (position : Value) : Except String (Fin length) :=
  match position.rational? with
  | some r =>
    if Int.fract r = 0 then
      if h : 0 ≤ r ∧ r < length then .ok ⟨⌊r⌋₊, (Nat.floor_lt h.1).2 h.2⟩
      else .error "Index out of bounds."
    else .error "Index must be an integer."
  | none => .error "Index must be an integer."

/-- What a method of lists gives for a sequence and what the sequence is then, or the
objection to its arguments. -/
def call (elements : List Value) : Builtin → List Value → Except String (Value × List Value)
  | .length, _ => .ok (.number (Float.ofNat elements.length), elements)
  | .append, value :: _ => .ok (.nil, elements ++ [value])
  | .get, position :: _ => do
    let i ← index elements.length position
    return (elements[i], elements)
  | .set, position :: value :: _ => do
    let i ← index elements.length position
    return (value, elements.set i value)
  | .remove, position :: _ => do
    let i ← index elements.length position
    return (elements[i], elements.eraseIdx i)
  | _, _ => .error "Missing argument."

end Sequence

/-- A call of a method that has been taken from a list. -/
structure MethodCall where
  list : ListId
  method : Native
  line : Nat
  arguments : List Value

/-- The list is there, the method is a property of it at some time, and there are as
many arguments as the method has parameters. -/
structure MethodCall.Proper (machine : Machine) (call : MethodCall) : Prop where
  list : call.list < machine.store.lists.size
  method : ∃ (store : Store) (name : String),
    (store.property (.list call.list) name).1 = some (.native call.method)
  arguments : call.arguments.length = call.method.builtin.arity

namespace Sequence

/-- The sequence after calls, of which those that fail do nothing. -/
def after (elements : List Value) (calls : List MethodCall) : List Value :=
  calls.foldl (fun elements next =>
    match call elements next.method.builtin next.arguments with
    | .ok (_, elements) => elements
    | .error _ => elements) elements

theorem index_of_integer {length : Nat} {position : Value} {n : Int}
    (h : position.rational? = some ↑n) :
    index length position =
      if hbounds : 0 ≤ n ∧ n < length then .ok ⟨n.toNat, by omega⟩
      else .error "Index out of bounds." := by
  have hbounds : 0 ≤ (n : ℚ) ∧ (n : ℚ) < length ↔ 0 ≤ n ∧ n < length := by norm_cast
  have hfloor : ⌊(n : ℚ)⌋₊ = n.toNat := by rw [← Int.floor_toNat, Int.floor_intCast]
  simp only [index, h, Int.fract_intCast, if_true, hbounds, hfloor]

theorem index_of_no_integer {length : Nat} {position : Value}
    (h : ∀ n : Int, position.rational? ≠ some ↑n) :
    index length position = .error "Index must be an integer." := by
  rw [index]
  cases hexact : position.rational? with
  | none => rfl
  | some r =>
      have hfract : Int.fract r ≠ 0 := by
        intro hzero
        obtain ⟨n, rfl⟩ := Int.fract_eq_zero_iff.1 hzero
        exact h n hexact
      exact if_neg hfract

theorem after_append (elements : List Value) (calls more : List MethodCall) :
    after (after elements calls) more = after elements (calls ++ more) :=
  (List.foldl_append ..).symm

/-- A value is an index of the same element, or the same objection is made to it. -/
theorem index_eq (length : Nat) (position : Value) :
    (position.index length).mapError BuiltinError.message =
      (index length position).map Fin.val := by
  cases position with
  | number x =>
      rw [Value.index]
      cases hfound : Decimal.integer? x with
      | some n =>
          rw [index_of_integer ((Value.rational?_number x n).2 hfound)]
          have htest : (0 ≤ n && n < length) = true ↔ 0 ≤ n ∧ n < length := by
            rw [Bool.and_eq_true, decide_eq_true_iff, decide_eq_true_iff]
          by_cases hbounds : 0 ≤ n ∧ n < length
          · rw [dif_pos hbounds]
            dsimp only
            rw [if_pos (htest.2 hbounds)]
            rfl
          · rw [dif_neg hbounds]
            dsimp only
            rw [if_neg (mt htest.1 hbounds)]
            rfl
      | none =>
          have hnone (n : Int) : (Value.number x).rational? ≠ some ↑n := by
            rw [Ne, Value.rational?_number, hfound]
            exact nofun
          rw [index_of_no_integer hnone]
          rfl
  | nil | truth _ | text _ | function _ | native _ | classValue _ | object _ _ | list _ => rfl

/-- A position in a list is an index of one of the elements, or the objection is made. -/
theorem atIndex_cases (position : Value) (list : ListId) (store : Store) :
    (∃ i, index (store.elements list).toList.length position = .ok i ∧
      ∀ action, Builtin.atIndex position list action store = action i store) ∨
    ∃ error : BuiltinError,
      index (store.elements list).toList.length position = .error error.message ∧
        ∀ action, Builtin.atIndex position list action store = .error error store := by
  rw [Array.length_toList]
  have hindex := index_eq (store.elements list).size position
  cases hfound : position.index (store.elements list).size with
  | ok i =>
      rw [hfound] at hindex
      cases hspec : index (store.elements list).size position with
      | ok j =>
          rw [hspec] at hindex
          obtain rfl : i = j := Except.ok.inj hindex
          exact .inl ⟨j, rfl, fun action => by rw [Builtin.atIndex, hfound]⟩
      | error message =>
          rw [hspec] at hindex
          cases hindex
  | error error =>
      rw [hfound] at hindex
      cases hspec : index (store.elements list).size position with
      | ok j =>
          rw [hspec] at hindex
          cases hindex
      | error message =>
          rw [hspec] at hindex
          obtain rfl : error.message = message := Except.error.inj hindex
          exact .inr ⟨error, rfl, fun action => by rw [Builtin.atIndex, hfound]⟩

end Sequence

namespace Store

/-- What a list becomes depends on its elements only. -/
theorem modifyList_congr {store : Store} {list : ListId} {change other : Array Value → Array Value}
    (h : change (store.elements list) = other (store.elements list)) :
    store.modifyList list change = store.modifyList list other := by
  have hlists : store.lists.modify list change = store.lists.modify list other := by
    apply Array.ext_getElem?
    intro i
    rw [Array.getElem?_modify, Array.getElem?_modify]
    split
    · rename_i hi
      subst hi
      cases hfound : store.lists[list]? with
      | none => rfl
      | some elements =>
          have helements : store.elements list = elements := by
            simp [Store.elements, Array.getD_eq_getD_getElem?, hfound]
          rw [Option.map_some, Option.map_some, ← helements, h]
    · rfl
  simp only [modifyList, hlists]

/-- Putting the elements of a list back changes nothing. -/
theorem modifyList_elements (store : Store) (list : ListId) :
    (store.modifyList list fun _ => store.elements list) = store := by
  have hid : store.lists.modify list id = store.lists := by
    apply Array.ext_getElem?
    intro i
    simp [Array.getElem?_modify]
  calc
    (store.modifyList list fun _ => store.elements list) = store.modifyList list id :=
      modifyList_congr rfl
    _ = store := by rw [modifyList, hid]

end Store

namespace Builtin

variable {store : Store} {list : ListId} {builtin : Builtin} {arguments : List Value}

/-- An action on a list ends as an operation does on the sequence of its elements. -/
inductive Follows (store : Store) (list : ListId) :
    Except String (Value × List Value) → EStateM.Result BuiltinError Store Value → Prop where
  | ok {value : Value} {elements : List Value} {after : Store}
    (h : after = store.modifyList list fun _ => elements.toArray) :
    Follows store list (.ok (value, elements)) (.ok value after)
  | error (error : BuiltinError) :
    Follows store list (.error error.message) (.error error store)

/-- An action at a position of a list follows an operation if it does at every index. -/
theorem Follows.atIndex {position : Value} {action : Nat → Action Value}
    {operation : Fin (store.elements list).toList.length → Value × List Value}
    (h : ∀ i, Follows store list (.ok (operation i)) (action i store)) :
    Follows store list
      (do
        let i ← Sequence.index (store.elements list).toList.length position
        return operation i)
      (Builtin.atIndex position list action store) := by
  obtain ⟨i, hindex, haction⟩ | ⟨error, hindex, haction⟩ :=
    Sequence.atIndex_cases position list store
  · rw [hindex, haction]
    exact h i
  · rw [hindex, haction]
    exact .error error

/-- A method of a list does to it what it does to the sequence of its elements. -/
theorem follows_call (now : Float) (hmethod : ∃ name, listMethod? name = some builtin)
    (harity : arguments.length = builtin.arity) :
    Follows store list (Sequence.call (store.elements list).toList builtin arguments)
      (builtin.call now (.list list) arguments store) := by
  have hsame : store = store.modifyList list fun _ => (store.elements list).toList.toArray := by
    rw [Array.toArray_toList, Store.modifyList_elements]
  have helement (i : Fin (store.elements list).toList.length) :
      (store.elements list).getD i .nil = (store.elements list).toList[i] := by
    have hlt : i < (store.elements list).size := i.isLt
    simp [Array.getD, hlt]
  cases builtin with
  | clock | newList =>
      obtain ⟨name, hname⟩ := hmethod
      exact absurd (List.mem_of_find?_eq_some hname) (by decide)
  | length => exact .ok hsame
  | get =>
      obtain ⟨position, rfl⟩ := List.length_eq_one_iff.1 harity
      refine Follows.atIndex fun i => ?_
      rw [element, helement]
      exact .ok hsame
  | append =>
      obtain ⟨value, rfl⟩ := List.length_eq_one_iff.1 harity
      have hpush : (store.elements list).push value =
          ((store.elements list).toList ++ [value]).toArray := by
        rw [← Array.toList_push, Array.toArray_toList]
      exact .ok (Store.modifyList_congr hpush)
  | set =>
      obtain ⟨position, value, rfl⟩ := List.length_eq_two.1 harity
      refine Follows.atIndex fun i => ?_
      have hset : (store.elements list).setIfInBounds i value =
          ((store.elements list).toList.set i value).toArray := by
        rw [← Array.toList_setIfInBounds, Array.toArray_toList]
      exact .ok (Store.modifyList_congr hset)
  | remove =>
      obtain ⟨position, rfl⟩ := List.length_eq_one_iff.1 harity
      refine Follows.atIndex fun i => ?_
      have herase : (store.elements list).eraseIdxIfInBounds i =
          ((store.elements list).toList.eraseIdx i).toArray := by
        have hlt : i < (store.elements list).size := i.isLt
        rw [Array.eraseIdxIfInBounds, dif_pos hlt, ← Array.toList_eraseIdx, Array.toArray_toList]
      rw [← helement i]
      exact .ok (Store.modifyList_congr herase)

end Builtin

/-- A method that has been taken from a list is one of the methods of lists. -/
theorem MethodCall.Proper.native {machine : Machine} {call : MethodCall}
    (h : call.Proper machine) :
    call.method.receiver = some call.list ∧
      ∃ name, Builtin.listMethod? name = some call.method.builtin := by
  obtain ⟨store, name, hproperty⟩ := h.method
  rw [Store.property] at hproperty
  cases hmethod : Builtin.listMethod? name with
  | none =>
      rw [hmethod] at hproperty
      cases hproperty
  | some builtin =>
      rw [hmethod] at hproperty
      rw [← Value.native.inj (Option.some.inj hproperty)]
      exact ⟨rfl, name, hmethod⟩

namespace Machine

variable {machine : Machine} {next : MethodCall}

/-- The elements of a list. -/
def contents (machine : Machine) (list : ListId) : List Value :=
  (machine.store.elements list).toList

/-- The machine after calls, of which those that fail do not keep the next one from
being made. -/
def afterCalls (fuel : Nat) (machine : Machine) (calls : List MethodCall) : Machine :=
  calls.foldl (fun machine next =>
    finalState (call fuel (.native next.method) next.line next.arguments machine)) machine

/-- Nothing but the elements of the lists that there are differs. -/
structure SameButElements (before after : Machine) : Prop where
  rest : after = { before with store.lists := after.store.lists }
  size : after.store.lists.size = before.store.lists.size

theorem SameButElements.trans {before middle last : Machine} (h : before.SameButElements middle)
    (h' : middle.SameButElements last) : before.SameButElements last where
  rest := by
    rw [h'.rest, h.rest]
  size := h'.size.trans h.size

/-- A call that can be made can be made later as well. -/
theorem SameButElements.proper {before after : Machine} (h : before.SameButElements after)
    (hnext : next.Proper before) : next.Proper after :=
  ⟨h.size ▸ hnext.list, hnext.method, hnext.arguments⟩

/-- A call ends as an operation on the elements of its list: with the same result, and
nothing but these elements has changed, or with the same objection, and nothing at all
has changed. -/
inductive Follows (before : Machine) (next : MethodCall) :
    Except String (Value × List Value) → EStateM.Result Halt Machine Value → Prop where
  | ok {value : Value} {elements : List Value} {after : Machine}
    (hcontents : ∀ list, after.contents list =
      if list = next.list then elements else before.contents list)
    (hrest : before.SameButElements after) :
    Follows before next (.ok (value, elements)) (.ok value after)
  | error (error : BuiltinError) :
    Follows before next (.error error.message)
      (.error (.failed (.error next.line (.builtin error))) before)

theorem Follows.of_ok {operation : Except String (Value × List Value)}
    {result : EStateM.Result Halt Machine Value} {value : Value} {elements : List Value}
    (h : Follows machine next operation result) (hoperation : operation = .ok (value, elements)) :
    ∃ after, result = .ok value after ∧ ∀ list, after.contents list =
      if list = next.list then elements else machine.contents list := by
  subst hoperation
  cases h with
  | ok hcontents _ => exact ⟨_, rfl, hcontents⟩

/-- A call of a method of a list follows the operation on the elements. -/
theorem follows_call (fuel : Nat) (h : next.Proper machine) :
    Follows machine next
      (Sequence.call (machine.contents next.list) next.method.builtin next.arguments)
      (call (fuel + 1) (.native next.method) next.line next.arguments machine) := by
  obtain ⟨hreceiver, hmethod⟩ := h.native
  have hclock : next.method.builtin ≠ .clock := by
    obtain ⟨name, hname⟩ := hmethod
    intro hclock
    exact absurd (hclock ▸ List.mem_of_find?_eq_some hname) (by decide)
  have hcall : call (fuel + 1) (.native next.method) next.line next.arguments machine =
      nativeCall next.line next.method next.arguments 0.0 machine := by
    rw [call, checkArity, h.arguments, beq_self_eq_true, callNative_eq, if_neg hclock]
    rfl
  have hfollows : Builtin.Follows machine.store next.list
      (Sequence.call (machine.contents next.list) next.method.builtin next.arguments)
      (next.method.builtin.call 0.0 (.list next.list) next.arguments machine.store) :=
    Builtin.follows_call 0.0 hmethod h.arguments
  rw [hcall, nativeCall, hreceiver, Option.map_some, Option.getD_some]
  generalize Sequence.call _ _ _ = operation at hfollows ⊢
  generalize next.method.builtin.call _ _ _ _ = result at hfollows ⊢
  cases hfollows with
  | ok hafter =>
      subst hafter
      refine .ok (fun list => ?_) ⟨rfl, ?_⟩
      · rw [contents, Store.elements_modifyList]
        by_cases hlist : list = next.list
        · rw [if_pos ⟨hlist.symm, h.list⟩, if_pos hlist]
        · rw [if_neg fun hsame => hlist hsame.1.symm, if_neg hlist]
          rfl
      · exact Array.size_modify
  | error error => exact .error error

/-- One call does to every list what the operation does to its elements. -/
theorem Follows.final {result : EStateM.Result Halt Machine Value}
    (h : Follows machine next
      (Sequence.call (machine.contents next.list) next.method.builtin next.arguments) result) :
    machine.SameButElements (finalState result) ∧
      ∀ list, (finalState result).contents list =
        Sequence.after (machine.contents list) ([next].filter (·.list = list)) := by
  generalize hoperation : Sequence.call _ _ _ = operation at h
  cases h with
  | ok hcontents hrest =>
      refine ⟨hrest, fun list => (hcontents list).trans ?_⟩
      by_cases hlist : list = next.list
      · subst hlist
        simp [Sequence.after, hoperation]
      · simp [Sequence.after, hlist, Ne.symm hlist]
  | error error =>
      refine ⟨⟨rfl, rfl⟩, fun list => ?_⟩
      by_cases hlist : list = next.list
      · subst hlist
        simp [Sequence.after, hoperation, finalState]
      · simp [Sequence.after, Ne.symm hlist, finalState]

/-- One call after the other does to every list what the operations on it do. -/
theorem contents_afterCalls (fuel : Nat) {calls : List MethodCall}
    (h : ∀ next ∈ calls, next.Proper machine) :
    machine.SameButElements (machine.afterCalls (fuel + 1) calls) ∧
      ∀ list, (machine.afterCalls (fuel + 1) calls).contents list =
        Sequence.after (machine.contents list) (calls.filter (·.list = list)) := by
  induction calls generalizing machine with
  | nil => exact ⟨⟨rfl, rfl⟩, fun _ => rfl⟩
  | cons next calls ih =>
      obtain ⟨hnext, hcalls⟩ := List.forall_mem_cons.1 h
      obtain ⟨hsame, hcontents⟩ := (follows_call fuel hnext).final
      have hproper (other : MethodCall) (hmem : other ∈ calls) := hsame.proper (hcalls other hmem)
      obtain ⟨hsame', hcontents'⟩ := ih hproper
      refine ⟨hsame.trans hsame', fun list => (hcontents' list).trans ?_⟩
      rw [hcontents, Sequence.after_append, ← List.filter_append]
      rfl

/-- Calls of methods of lists, in any number, with any arguments and also for lists that
contain each other or are known by several names, do to every list what the operations
on sequences do to its elements, each list by itself.  A further call gives what the
operation gives for the elements of its list then, or the objection of the operation,
and then nothing at all has changed.  The length of a list is an exact number up to
`2 ^ 53`. -/
theorem methods_follow_sequences (fuel : Nat) {earlier : List MethodCall}
    (hearlier : ∀ next ∈ earlier, next.Proper machine) (hnext : next.Proper machine) :
    (∀ list, (machine.afterCalls (fuel + 1) earlier).contents list =
        Sequence.after (machine.contents list) (earlier.filter (·.list = list))) ∧
      machine.SameButElements (machine.afterCalls (fuel + 1) earlier) ∧
      Follows (machine.afterCalls (fuel + 1) earlier) next
        (Sequence.call
          (Sequence.after (machine.contents next.list) (earlier.filter (·.list = next.list)))
          next.method.builtin next.arguments)
        (call (fuel + 1) (.native next.method) next.line next.arguments
          (machine.afterCalls (fuel + 1) earlier)) ∧
      ∀ length ≤ 2 ^ 53, (Value.number (Float.ofNat length)).rational? = some ↑length := by
  obtain ⟨hsame, hcontents⟩ := contents_afterCalls fuel hearlier
  refine ⟨hcontents, hsame, ?_, fun length => Decimal.rational?_ofNat⟩
  rw [← hcontents]
  exact follows_call fuel (hsame.proper hnext)

/-- A list with itself as an element gets a second one, is not changed by the index `-1`,
and loses its first element at the index `-0`. -/
theorem methods_follow_sequences_of_cyclic_list :
    let machine : Machine :=
      { Machine.initial (fun _ => 0) {} with store.lists := #[#[.list 0], #[]] }
    let earlier : List MethodCall :=
      [⟨0, ⟨2, .append, some 0⟩, 1, [.list 1]⟩, ⟨0, ⟨3, .get, some 0⟩, 1, [.number (-1)]⟩]
    let next : MethodCall := ⟨0, ⟨4, .remove, some 0⟩, 1, [.number (-0)]⟩
    (∀ next ∈ earlier, next.Proper machine) ∧ next.Proper machine ∧
      (machine.afterCalls 1 earlier).contents 0 = [.list 0, .list 1] ∧
        ∃ after, call 1 (.native next.method) 1 next.arguments (machine.afterCalls 1 earlier) =
            .ok (.list 0) after ∧ after.contents 0 = [.list 1] := by
  intro machine earlier next
  have hmethod (identity : Nat) (name : String) (builtin : Builtin)
      (h : Builtin.listMethod? name = some builtin) :
      ∃ (store : Store) (name : String), (store.property (.list 0) name).1 =
        some (.native ⟨identity, builtin, some 0⟩) :=
    ⟨{ Store.initial with nextIdentity := identity }, name,
      by simp [Store.property, h, Store.identify]⟩
  have hearlier : ∀ next ∈ earlier, next.Proper machine := by
    intro next hmem
    rcases List.mem_pair.1 hmem with rfl | rfl
    · exact ⟨by decide, hmethod 2 "append" .append rfl, rfl⟩
    · exact ⟨by decide, hmethod 3 "get" .get rfl, rfl⟩
  have hnext : next.Proper machine := ⟨by decide, hmethod 4 "remove" .remove rfl, rfl⟩
  have hnegative : Sequence.index [Value.list 0, .list 1].length (.number (-1)) =
      .error "Index out of bounds." :=
    (Sequence.index_of_integer ((Value.rational?_number _ (-1)).2 (by decide +kernel))).trans
      (dif_neg (by decide))
  have hzero : Sequence.index [Value.list 0, .list 1].length (.number (-0)) = .ok 0 :=
    (Sequence.index_of_integer ((Value.rational?_number _ 0).2 (by decide +kernel))).trans
      (dif_pos (by decide))
  have helements : Sequence.after (machine.contents 0) (earlier.filter (·.list = 0)) =
      [.list 0, .list 1] := by
    change (match Sequence.call [.list 0, .list 1] .get [.number (-1)] with
      | .ok (_, elements) => elements
      | .error _ => [.list 0, .list 1]) = _
    rw [Sequence.call, hnegative]
    rfl
  have hremoved : Sequence.call [.list 0, .list 1] .remove [.number (-0)] =
      .ok (.list 0, [.list 1]) := by
    rw [Sequence.call, hzero]
    rfl
  obtain ⟨hcontents, -, hfollows, -⟩ := methods_follow_sequences 0 hearlier hnext
  rw [helements] at hfollows
  refine ⟨hearlier, hnext, (hcontents 0).trans helements, ?_⟩
  generalize machine.afterCalls 1 earlier = before at hfollows ⊢
  obtain ⟨after, hafter, helements⟩ := Follows.of_ok hfollows hremoved
  exact ⟨after, hafter, helements 0⟩

end Machine

end Lox
