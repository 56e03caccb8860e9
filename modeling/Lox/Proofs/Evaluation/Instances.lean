import Lox.Proofs.Evaluation.Enduring

/-!
# Instances and the methods taken from them

A class that is called gives the instance with the next number, whatever its
initializer does, and nothing that was there before is equal to it.  A method that is
taken from an instance has a frame of its own, in which it is bound to the instance.
-/

namespace Lox

open Machine

/-! ## New instances -/

theorem Machine.checkArity_ok {line expected got : Nat} {machine after : Machine} {result : Unit}
    (h : checkArity line expected got machine = .ok result after) : after = machine := by
  rw [checkArity] at h
  split at h
  · cases h
    rfl
  · cases h

/-- A call of a class that succeeds gives the instance with the next number. -/
theorem Machine.call_class {fuel line : Nat} {cls : ClassValue} {arguments : List Value}
    {machine after : Machine} {value : Value}
    (h : call fuel (.classValue cls) line arguments machine = .ok value after) :
    value = .object cls machine.store.fields.size := by
  cases fuel with
  | zero => cases h
  | succ fuel =>
      rw [call] at h
      obtain ⟨_, checked, hchecked, hcreate⟩ := exists_of_bind_ok h
      obtain rfl := checkArity_ok hchecked
      obtain ⟨object, created, hcreated, hinitialize⟩ := exists_of_bind_ok hcreate
      cases hcreated
      cases hinitializer : cls.initializer? with
      | none =>
          rw [hinitializer] at hinitialize
          cases hinitialize
          rfl
      | some method =>
          rw [hinitializer] at hinitialize
          obtain ⟨initializer, bound, -, hinvoke⟩ := exists_of_bind_ok hinitialize
          obtain ⟨_, last, -, hlast⟩ := exists_of_bind_ok hinvoke
          cases hlast
          rfl

/-- The value is in a frame, in a list or in a field. -/
inductive Store.Holds (store : Store) (value : Value) : Prop where
  | frame {frame : FrameId} {name : String} (h : store.frames.get? frame name = some value)
  | list {list : ListId} {elements : Array Value} (h : store.lists[list]? = some elements)
    (hmem : value ∈ elements)
  | field {id : InstanceId} {name : String} (h : store.field? id name = some value)

theorem Store.All.of_holds {good : Value → Prop} {store : Store} {value : Value}
    (h : store.All good) (hholds : store.Holds value) : good value := by
  cases hholds with
  | frame hvalue => exact h.frames _ _ value hvalue
  | list helements hmem => exact h.lists _ _ helements value hmem
  | field hvalue => exact h.fields _ _ value hvalue

/-- The value is there at a time at which there are at most `count` instances: at one of
the moments, or when an expression that begins then has been evaluated. -/
inductive Moment.Occurs (moments : List Moment) (count : Nat) (value : Value) : Prop where
  | held {moment : Moment} (hmoment : moment ∈ moments)
    (hcount : moment.machine.store.fields.size ≤ count) (h : moment.machine.store.Holds value)
  | called {moment : Moment} {line : Nat} {arguments : List Value} (hmoment : moment ∈ moments)
    (hcount : moment.machine.store.fields.size ≤ count)
    (htask : moment.task = .call value line arguments)
  | argument {moment : Moment} {function : Value} {line : Nat} {arguments : List Value}
    (hmoment : moment ∈ moments) (hcount : moment.machine.store.fields.size ≤ count)
    (htask : moment.task = .call function line arguments) (hmem : value ∈ arguments)
  | result {moment : Moment} {e : Expr} {after : Machine} (hmoment : moment ∈ moments)
    (htask : moment.task = .expr e)
    (h : evaluate moment.fuel e moment.machine = .ok value after)
    (hcount : after.store.fields.size ≤ count)

theorem Moment.Occurs.made {moments : List Moment} {count : Nat} {value : Value}
    (h : Occurs moments count value) (hmade : ∀ moment ∈ moments, moment.Made) :
    value.Made count := by
  cases h with
  | held hmoment hcount hholds =>
      exact ((hmade _ hmoment).machine.of_holds hholds).mono hcount
  | called hmoment hcount htask =>
      have hcall := (hmade _ hmoment).task
      rw [htask] at hcall
      exact hcall.1.mono hcount
  | argument hmoment hcount htask hmem =>
      have hcall := (hmade _ hmoment).task
      rw [htask] at hcall
      exact (hcall.2 value hmem).mono hcount
  | @result moment e after hmoment htask hresult hcount =>
      have hruns : Endures True _ Value.Made _ _ :=
        (enduringRuns moment.fuel).evaluate e (hmade moment hmoment).machine
      exact (hruns.value value after hresult).mono hcount

/-! ## Methods that are taken -/

/-- At the moment a method is taken from an instance that has no field of its name:
`closure` is what the expression gives. -/
inductive Moment.Takes :
    Moment → (name : String) → ClassValue → InstanceId → (closure : Closure) → Prop where
  | get {fuel : Nat} {object : Expr} {name : Token} {cls : ClassValue} {id : InstanceId}
    {closure : Closure} {machine found after : Machine}
    (hobject : evaluate fuel object machine = .ok (.object cls id) found)
    (hfield : found.store.field? id name.lexeme = none)
    (hproperty : property (.object cls id) name found = .ok (.function closure) after) :
    Takes ⟨fuel + 1, .expr (.get object name), machine⟩ name.lexeme cls id closure

/-- The method is bound then, in a frame that is made for it. -/
theorem Moment.Takes.bound {moment : Moment} {name : String} {cls : ClassValue}
    {id : InstanceId} {closure : Closure} (h : moment.Takes name cls id closure) :
    ∃ bound ∈ moments moment.fuel moment.task moment.machine, ∃ method,
      bound.task = .bind method (.object cls id) ∧ bound.frame = closure.frame ∧
        cls.methods[name]? = some method ∧ closure.isInitializer = method.isInitializer := by
  cases h with
  | @get fuel object name cls id closure machine found after hobject hfield hproperty =>
      rw [property_eq name found (.inl ⟨cls, id, rfl⟩)] at hproperty
      cases hmethod : cls.methods[name.lexeme]? with
      | none =>
          rw [Store.property_missing hfield hmethod] at hproperty
          cases hproperty
      | some method =>
          rw [Store.property_method hfield hmethod] at hproperty
          cases hproperty
          refine ⟨⟨fuel, .bind method (.object cls id), found⟩, ?_, method, rfl, rfl, rfl, rfl⟩
          refine List.mem_cons_of_mem _ (List.mem_append_right _ ?_)
          simp [hobject, following, binding, hfield, hmethod]

/-- A method that is taken under the name of initializers is one. -/
theorem Moment.Takes.initializer {moment : Moment} {name : String} {cls : ClassValue}
    {id : InstanceId} {closure : Closure} (h : moment.Takes name cls id closure)
    (hmade : moment.Made) (hinit : name = FunctionDecl.initializerName) :
    closure.isInitializer := by
  have hnamed : cls.Named := by
    cases h with
    | @get fuel object name cls id closure machine found after hobject =>
      have hruns : Endures True _ Value.Made _ _ :=
        (enduringRuns fuel).evaluate object hmade.machine
      exact (hruns.value _ found hobject).2
  subst hinit
  obtain ⟨bound, -, method, -, -, hmethod, hinitializer⟩ := h.bound
  obtain ⟨hname, hmark⟩ := hnamed _ method hmethod
  rw [hinitializer, hmark, FunctionDecl.isInitializer]
  exact beq_iff_eq.2 hname

end Lox
