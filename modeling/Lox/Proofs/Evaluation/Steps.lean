import Lox.Proofs.Evaluation.Ensures
import Lox.Proofs.Evaluation.Steady

/-!
# The steps of a healthy machine

What the single steps of the machine ensure: they keep it healthy, and what
they read from a healthy store is sound.
-/

namespace Lox

variable {programs : List Program} {labels labels' : List Region} {machine after : Machine}
variable {part inner : Part} {site site' : Site} {α : Type}

/-! ## Places -/

theorem Exec.Steady.ok {declares : Bool} {computation : Exec α} {value : α}
    (h : Exec.Steady declares computation) (hresult : computation machine = .ok value after) :
    machine.Keeps (machine.gaining? declares) after := by
  have hkeeps := h machine
  rwa [hresult] at hkeeps

namespace Machine

/-- A machine stays healthy when values that were sound are put in their
places, and frames that are added get their labels. -/
theorem Healthy.update {gaining? : Option FrameId} (h : machine.Healthy programs labels)
    (hkeeps : machine.Keeps gaining? after)
    (hlabelled : after.store.frames.size = labels'.length + 1)
    (hvalues : after.store.All (Value.Sound programs after.store.frames labels')) :
    after.Healthy programs labels' where
  values := hvalues
  globals := hkeeps.globals.trans h.globals
  labelled := hlabelled
  accepted := by
    rw [hkeeps.distances]
    exact h.accepted

/-- The values stay sound while frames are added and gain names. -/
theorem Healthy.values_keep {gaining? : Option FrameId} {frames : Frames}
    (h : machine.Healthy programs labels) (hkeeps : machine.store.frames.Keeps gaining? frames)
    (hlabels : labels <+: labels') : machine.store.All (Value.Sound programs frames labels') :=
  h.values.mono fun _ hvalue => hvalue.mono hkeeps hlabels

theorem Within.keep {regions : List Region} {scopes : List Scope}
    (h : machine.Within labels regions scopes) (hkeeps : machine.Keeps none after)
    (hlabels : labels <+: labels') : after.Within labels' regions scopes where
  stands := by
    rw [hkeeps.current]
    exact h.stands.mono hkeeps.frames hlabels
  exact := by
    rw [hkeeps.current]
    exact h.stands.exact_mono h.exact hkeeps.frames

theorem Placed.keep (h : machine.Placed programs labels part site)
    (hkeeps : machine.Keeps none after) (hlabels : labels <+: labels') :
    after.Placed programs labels' part site :=
  ⟨h.reached, h.within.keep hkeeps hlabels⟩

theorem Placed.child (h : machine.Placed programs labels part site)
    (hchild : (inner, site') ∈ part.children site)
    (hwithin : after.Within labels' site'.regions site'.scopes) :
    after.Placed programs labels' inner site' := by
  obtain ⟨program, hprogram, hreached⟩ := h.reached
  exact ⟨⟨program, hprogram, hreached.child hchild⟩, hwithin⟩

/-- A part of an expression is placed where the expression is. -/
theorem Placed.operand (h : machine.Placed programs labels part site)
    (hpart : part.isExpression) (hchild : (inner, site') ∈ part.children site) :
    machine.Placed programs labels inner site' := by
  obtain ⟨-, hregions, hscopes⟩ := Part.scopes_child_expression hpart hchild
  apply h.child hchild
  rw [hregions, hscopes]
  exact h.within

theorem Placed.fits (h : machine.Placed programs labels part site)
    (hhealthy : machine.Healthy programs labels) : site.Fits machine.distances part := by
  obtain ⟨program, hprogram, hreached⟩ := h.reached
  exact hreached.fits (hhealthy.accepted program hprogram)

end Machine

/-! ## Steps -/

/-- The value is sound. -/
abbrev Gives (programs : List Program) (labels : List Region) (value : Value)
    (machine : Machine) : Prop :=
  value.Sound programs machine.store.frames labels

/-- The values are sound. -/
abbrev GivesAll (programs : List Program) (labels : List Region) (values : List Value)
    (machine : Machine) : Prop :=
  ∀ value ∈ values, value.Sound programs machine.store.frames labels

namespace Ensures

open Machine

variable {post : List Region → α → Machine → Prop}

theorem fail {line : Nat} {error : RuntimeError} (hhealthy : machine.Healthy programs labels)
    (h : error.isInternal = false) :
    Ensures programs labels post [] (fail line error machine) :=
  .error hhealthy h

theorem ofExcept {line : Nat} {result : Except RuntimeError α}
    (hhealthy : machine.Healthy programs labels)
    (hok : ∀ value, result = .ok value → post labels value machine)
    (herror : ∀ error, result = .error error → error.isInternal = false) :
    Ensures programs labels post [] (ofExcept line result machine) := by
  cases result with
  | ok value => exact .ok hhealthy (hok value rfl)
  | error error => exact fail hhealthy (herror error rfl)

theorem lookup (id : Nat) (name : Token) (hhealthy : machine.Healthy programs labels) :
    Ensures programs labels (Gives programs) [] (lookup id name machine) := by
  rw [Machine.lookup]
  split
  · rename_i value hvalue
    refine .ok hhealthy ?_
    unfold Machine.value? at hvalue
    split at hvalue
    · obtain ⟨frame, -, hget⟩ := Option.bind_eq_some_iff.1 hvalue
      exact hhealthy.values.frames frame _ value hget
    · exact hhealthy.values.frames _ _ value hvalue
  · exact fail hhealthy rfl

theorem checkArity {line expected got : Nat} (hhealthy : machine.Healthy programs labels) :
    Ensures programs labels (fun _ _ after => after = machine ∧ expected = got) []
      (checkArity line expected got machine) := by
  rw [Machine.checkArity]
  by_cases h : expected = got
  · simp only [h, beq_self_eq_true, if_true]
    exact .ok hhealthy ⟨rfl, trivial⟩
  · have hne : (expected == got) = false := by simpa using h
    simp only [hne]
    exact fail hhealthy rfl

theorem assign {id : Nat} {name : Token} {value : Value}
    (hhealthy : machine.Healthy programs labels)
    (hvalue : value.Sound programs machine.store.frames labels) :
    Ensures programs labels (fun _ _ _ => True) [] (assign id name value machine) := by
  have hkeeps : machine.Keeps none _ := @steady_assign false id name value machine
  have hstore : ({ machine.store with
      frames := (machine.assigned id name.lexeme value).2 } : Store).All
        (Value.Sound programs machine.store.frames labels) ∧
      (machine.assigned id name.lexeme value).2.size = machine.store.frames.size := by
    have hcases : (machine.assigned id name.lexeme value).2 = machine.store.frames ∨
        ∃ target, (machine.assigned id name.lexeme value).2 =
          machine.store.frames.define target name.lexeme value := by
      rw [Machine.assigned]
      split
      · exact Frames.assignAt_cases ..
      · exact (Frames.assign_cases ..).imp_right fun h => ⟨_, h⟩
    rcases hcases with h | ⟨target, h⟩
    · rw [h]
      exact ⟨hhealthy.values, rfl⟩
    · rw [h]
      exact ⟨hhealthy.values.define target name.lexeme hvalue, Frames.size_define ..⟩
  obtain ⟨hvalues, hsize⟩ := hstore
  have hlabelled := hsize.trans hhealthy.labelled
  rw [assign_eq] at hkeeps ⊢
  dsimp only at hkeeps ⊢
  split at hkeeps <;> rename_i hfound <;> simp only [hfound, if_true] <;>
    have hafter := hhealthy.update hkeeps hlabelled
      (hvalues.mono fun _ h => h.mono hkeeps.frames (List.prefix_refl labels))
  · exact .ok hafter trivial
  · exact .error hafter rfl

/-- A change of the store that makes no frame and puts sound values into it. -/
theorem withStore {change : Store → α × Store} (hhealthy : machine.Healthy programs labels)
    (hframes : (change machine.store).2.frames = machine.store.frames)
    (hvalues : (change machine.store).2.All (Value.Sound programs machine.store.frames labels))
    (hpost : post labels (change machine.store).1
      { machine with store := (change machine.store).2 }) :
    Ensures programs labels post [] (withStore change machine) := by
  rw [withStore_eq]
  refine .ok ⟨?_, hhealthy.globals, ?_, hhealthy.accepted⟩ hpost
  · dsimp only
    rw [hframes]
    exact hvalues
  · dsimp only
    rw [hframes]
    exact hhealthy.labelled

theorem printLine {value : Value} (hhealthy : machine.Healthy programs labels) :
    Ensures programs labels (fun _ _ _ => True) [] (printLine value machine) := by
  have hafter : ∀ output : Output, ({ machine with output } : Machine).Healthy programs labels :=
    fun _ => ⟨hhealthy.values, hhealthy.globals, hhealthy.labelled, hhealthy.accepted⟩
  rw [Machine.printLine]
  dsimp only
  split
  · exact .ok (hafter _) trivial
  · exact .error (hafter _) trivial

theorem now (hhealthy : machine.Healthy programs labels) :
    Ensures programs labels (fun _ _ after => after.store = machine.store) [] (now machine) :=
  .ok ⟨hhealthy.values, hhealthy.globals, hhealthy.labelled, hhealthy.accepted⟩ rfl

/-- A built-in function that is called with as many arguments as it has
parameters objects to an index at most. -/
theorem nativeCall {line : Nat} {native : Native} {arguments : List Value} {time : Float}
    (hhealthy : machine.Healthy programs labels) (hnative : native.Sound)
    (harity : native.builtin.arity = arguments.length)
    (harguments : ∀ v ∈ arguments, v.Sound programs machine.store.frames labels) :
    Ensures programs labels (Gives programs) []
      (nativeCall line native arguments time machine) := by
  have hframes := Builtin.frames_call time ((native.receiver.map .list).getD .nil)
    native.builtin arguments machine.store
  have hvalues := Builtin.preserves_call time ((native.receiver.map .list).getD .nil)
    native.builtin trivial (fun _ => trivial) (fun _ => trivial) harguments hhealthy.values
  unfold Builtin.Preserves at hvalues
  rw [Machine.nativeCall]
  cases hresult : native.builtin.call time ((native.receiver.map .list).getD .nil) arguments
      machine.store with
  | ok value after =>
      rw [hresult] at hframes hvalues
      simp only [finalState] at hframes
      rw [← hframes] at hvalues
      refine .ok ⟨hvalues.1, hhealthy.globals, ?_, hhealthy.accepted⟩ hvalues.2
      exact (congrArg Frames.size hframes).trans hhealthy.labelled
  | error error after =>
      rw [hresult] at hframes hvalues
      simp only [finalState] at hframes
      rw [← hframes] at hvalues
      refine .error ⟨hvalues, hhealthy.globals, ?_, hhealthy.accepted⟩ ?_
      · exact (congrArg Frames.size hframes).trans hhealthy.labelled
      · obtain rfl | rfl := Builtin.error_call hnative harity hresult <;> rfl

theorem callNative {line : Nat} {native : Native} {arguments : List Value}
    (hhealthy : machine.Healthy programs labels) (hnative : native.Sound)
    (harity : native.builtin.arity = arguments.length)
    (harguments : ∀ v ∈ arguments, v.Sound programs machine.store.frames labels) :
    Ensures programs labels (Gives programs) [] (callNative line native arguments machine) := by
  rw [callNative_eq]
  split
  · apply (now hhealthy).bind_step
    intro labels' time after hlabels _ hhealthy' hstore
    apply nativeCall hhealthy' hnative harity
    intro v hv
    rw [hstore]
    exact (harguments v hv).relabel hlabels
  · exact nativeCall hhealthy hnative harity harguments

end Ensures

/-! ## New frames -/

namespace Machine

/-- Binding a method makes a frame with the receiver, for the class body around
the method. -/
theorem Healthy.bind {method : Closure} {this : Value} (h : machine.Healthy programs labels)
    (hmethod : method.MethodSound programs machine.store.frames labels)
    (hthis : this.Sound programs machine.store.frames labels) :
    ({ machine with store := (machine.store.bind method this).2 } : Machine).Healthy programs
        (labels ++ [.classBody method.declaration]) ∧
      (machine.store.bind method this).1.Sound programs
        (machine.store.bind method this).2.frames
        (labels ++ [.classBody method.declaration]) := by
  have hkeeps := machine.store.keeps_bind method this
  have hlabels : labels <+: labels ++ [.classBody method.declaration] := List.prefix_append _ _
  have hbinds : (machine.store.bind method this).2.frames.Binds machine.store.frames.size
      "this" := by
    simp [Frames.Binds, Store.frames_bind, Frames.get?_define]
  constructor
  · refine ⟨?_, h.globals, ?_, h.accepted⟩
    · have hvalues := h.values_keep hkeeps hlabels
      exact hvalues.bind method (hthis.mono hkeeps hlabels)
    · simp [Store.frames_bind, h.labelled]
  · obtain ⟨program, hprogram, site, regions, scopes, hreached, hregions, hscopes, hstands⟩ :=
      hmethod
    refine ⟨program, hprogram, site, hreached, ?_, fun _ => hbinds⟩
    rw [hregions, hscopes]
    refine .inside ?_ ?_ ?_ (hstands.mono hkeeps hlabels)
    · simp [Store.bind, Store.newClosure, Store.newFrame, Store.define,
        Store.identify, Frames.enclosing?_child]
    · have hlabel := labelOf_new labels (.classBody method.declaration)
      rwa [← h.labelled] at hlabel
    · intro name hname
      rw [Std.TreeMap.getElem?_insert] at hname
      split at hname
      · rename_i heq
        rw [Std.LawfulEqCmp.compare_eq_iff_eq] at heq
        rw [← heq]
        exact hbinds
      · simp at hname

/-- A new block has a frame without names. -/
theorem Healthy.enterBlock (h : machine.Healthy programs labels) (body : List Stmt)
    {regions : List Region} {scopes : List Scope}
    (hwithin : machine.Within labels regions scopes) :
    let frames := (machine.store.frames.child machine.current).2
    let entered : Machine :=
      { machine with store.frames := frames, current := machine.store.frames.size }
    entered.Healthy programs (labels ++ [.block body]) ∧
      entered.Within (labels ++ [.block body]) (.block body :: regions) (∅ :: scopes) := by
  have hkeeps := machine.store.frames.keeps_child machine.current
  have hlabels : labels <+: labels ++ [.block body] := List.prefix_append _ _
  have hvalues := h.values_keep hkeeps hlabels
  refine ⟨⟨?_, h.globals, by simp [h.labelled], h.accepted⟩, ?_, ?_⟩
  · exact hvalues.newFrame machine.current
  · refine .inside ?_ ?_ (by simp) (hwithin.stands.mono hkeeps hlabels)
    · simp [Frames.enclosing?_child]
    · have hlabel := labelOf_new labels (.block body)
      rwa [← h.labelled] at hlabel
  · rintro _ ⟨⟩ name hname
    exact absurd hname Frames.not_binds_new

/-- Where the machine gives names to the current frame. -/
def defined (machine : Machine) (name : String) (value : Value) : Machine :=
  { machine with store.frames := machine.store.frames.define machine.current name value }

theorem define_eq (name : String) (value : Value) (machine : Machine) :
    define name value machine = .ok () (machine.defined name value) := rfl

theorem Healthy.defined {name : String} {value : Value} (h : machine.Healthy programs labels)
    (hvalue : value.Sound programs (machine.defined name value).store.frames labels) :
    (machine.defined name value).Healthy programs labels := by
  have hkeeps := machine.store.frames.keeps_define machine.current name value
  have hvalues := h.values_keep hkeeps (List.prefix_refl labels)
  refine ⟨hvalues.define machine.current name hvalue, h.globals, ?_, h.accepted⟩
  simp [Machine.defined, h.labelled]

/-- A name that is declared in the innermost scope is given to the current
frame. -/
theorem Within.defined {name : Token} {value : Value} {regions : List Region}
    {analysis : Analysis} (h : machine.Within labels regions analysis.scopes) :
    (machine.defined name.lexeme value).Within labels regions
      ((analysis.declare name).define name).scopes := by
  have hkeeps := machine.store.frames.keeps_define machine.current name.lexeme value
  have hstands := h.stands.mono hkeeps (List.prefix_refl labels)
  have hold := h.stands
  have hexact := h.exact
  cases hscopes : analysis.scopes with
  | nil =>
      rw [hscopes] at hstands
      have hsame : ((analysis.declare name).define name).scopes = [] := by
        simp [Analysis.declare, Analysis.define, hscopes]
      rw [hsame]
      exact ⟨hstands, by simp [Exact]⟩
  | cons scope outer =>
      obtain ⟨scope', hscopes', hmarks⟩ := Analysis.scopes_declare_define name hscopes
      rw [hscopes] at hstands hexact hold
      rw [hscopes']
      have hlt := hold.lt_size
      have hbinds : ∀ other : String,
          (machine.defined name.lexeme value).store.frames.Binds machine.current other ↔
            name.lexeme = other ∨ machine.store.frames.Binds machine.current other := by
        intro other
        by_cases hname : name.lexeme = other <;>
          simp [Machine.defined, Frames.Binds, Frames.get?_define, hname, hlt]
      constructor
      · refine hstands.rescope fun other hother => (hbinds other).2 ?_
        rw [hmarks] at hother
        split at hother
        · exact .inl ‹_›
        · exact .inr (hold.binds hother)
      · rintro _ ⟨⟩ other hother
        rw [hmarks]
        split
        · rfl
        · rename_i hne
          exact hexact scope rfl other (((hbinds other).1 hother).resolve_left hne)

/-- While the initializer of a variable is evaluated, the current frame does not
have its name yet. -/
theorem Within.declaring {regions : List Region} {analysis : Analysis}
    (h : machine.Within labels regions analysis.scopes) (name : Token) :
    machine.Within labels regions (analysis.declare name).scopes := by
  obtain ⟨hstands, hexact⟩ := h
  cases hscopes : analysis.scopes with
  | nil =>
      have hsame : (analysis.declare name).scopes = analysis.scopes := by
        simp [Analysis.declare, hscopes]
      rw [hsame]
      exact ⟨hstands, hexact⟩
  | cons scope outer =>
      rw [hscopes] at hstands hexact
      by_cases hcontains : scope.contains name.lexeme
      · have hsame : (analysis.declare name).scopes = scope :: outer := by
          simp [Analysis.declare, hscopes, hcontains, Analysis.report]
        rw [hsame]
        exact ⟨hstands, hexact⟩
      · have hscopes' : (analysis.declare name).scopes =
            scope.insert name.lexeme false :: outer := by
          simp [Analysis.declare, hscopes, hcontains]
        rw [hscopes']
        constructor
        · refine hstands.rescope fun other hother => hstands.binds ?_
          by_cases hname : name.lexeme = other
          · simp [hname] at hother
          · simpa [Std.TreeMap.getElem?_insert, hname] using hother
        · rintro _ ⟨⟩ other hother
          have hold := hexact scope rfl other hother
          by_cases hname : name.lexeme = other
          · subst hname
            rw [Std.TreeMap.contains_eq_isSome_getElem?, hold] at hcontains
            exact absurd rfl hcontains
          · simpa [Std.TreeMap.getElem?_insert, hname] using hold

/-- A call has a frame with the parameters, for the function. -/
theorem Healthy.enter {closure : Closure} {arguments : List Value}
    (h : machine.Healthy programs labels)
    (hclosure : closure.Sound programs machine.store.frames labels)
    (harity : closure.arity = arguments.length)
    (harguments : ∀ v ∈ arguments, v.Sound programs machine.store.frames labels) :
    let frames := bindAll machine.store.frames.size closure.declaration.parameters arguments
      (machine.store.frames.child closure.frame).2
    let entered : Machine :=
      { machine with store.frames := frames, current := machine.store.frames.size }
    entered.Healthy programs (labels ++ [.function closure.declaration]) ∧
      ∃ site, site.around.inLoop = false ∧
        entered.Placed programs (labels ++ [.function closure.declaration])
          (.stmts closure.declaration.body) site := by
  intro frames entered
  have hlabels : labels <+: labels ++ [.function closure.declaration] := List.prefix_append _ _
  have hkeeps : machine.store.frames.Keeps none frames :=
    (Frames.keeps_child ..).of_new (Nat.le_refl _) (keeps_bindAll ..)
  have hvalues := h.values_keep hkeeps hlabels
  have harguments' : ∀ v ∈ arguments, v.Sound programs frames _ := fun v hv =>
    (harguments v hv).mono hkeeps hlabels
  refine ⟨⟨?_, h.globals, ?_, h.accepted⟩, ?_⟩
  · exact all_bindAll harguments' (hvalues.newFrame closure.frame)
  · simp [entered, frames, h.labelled]
  · obtain ⟨program, hprogram, site, hreached, hstands, -⟩ := hclosure
    refine ⟨site.body closure.isInitializer closure.declaration, rfl,
      ⟨program, hprogram, hreached.child (by simp [Part.children])⟩, ?_⟩
    have hstart : ({ site.analysis with scopes := ∅ :: site.analysis.scopes } :
        Analysis).scopes = ∅ :: site.scopes := rfl
    obtain ⟨scope, hscopes, hmarks⟩ :=
      Analysis.scopes_parameters closure.declaration.parameters hstart
    have hscopes' : (site.body closure.isInitializer closure.declaration).scopes =
        scope :: site.scopes := hscopes
    have hbinds : ∀ name, frames.Binds machine.store.frames.size name ↔
        name ∈ closure.declaration.parameters.map Token.lexeme := by
      intro name
      have hparameters := @binds_bindAll machine.store.frames.size
        closure.declaration.parameters arguments
        (machine.store.frames.child closure.frame).2 name harity (by simp)
      simpa [Frames.not_binds_new] using hparameters
    rw [hscopes']
    constructor
    · refine .inside ?_ ?_ (fun name hname => (hbinds name).2 ?_) (hstands.mono hkeeps hlabels)
      · have hnew := (keeps_bindAll machine.store.frames.size closure.declaration.parameters
          arguments (machine.store.frames.child closure.frame).2).enclosing?
            machine.store.frames.size (by simp)
        rw [hnew]
        simp [Frames.enclosing?_child]
      · have hlabel := labelOf_new labels (.function closure.declaration)
        rwa [← h.labelled] at hlabel
      · rw [hmarks] at hname
        by_contra hmem
        simp [hmem] at hname
    · rintro _ ⟨⟩ name hname
      rw [hmarks, if_pos ((hbinds name).1 hname)]

end Machine

namespace Ensures

open Machine

/-- A property that is a method is bound to its object at a moment of its own. -/
theorem property {fuel : Nat} {object : Value} {name : Token}
    (hhealthy : machine.Healthy programs labels)
    (hobject : object.Sound programs machine.store.frames labels) :
    Ensures programs labels (Gives programs) (binding fuel object name.lexeme machine)
      (property object name machine) := by
  cases object with
  | object cls id =>
      rw [property_eq name machine (.inl ⟨cls, id, rfl⟩)]
      cases hfield : machine.store.field? id name.lexeme with
      | some value =>
          rw [Store.property_field hfield]
          simp only [binding, hfield]
          exact .ok hhealthy (hhealthy.values.fields id name.lexeme value hfield)
      | none =>
          cases hmethod : cls.methods[name.lexeme]? with
          | none =>
              rw [Store.property_missing hfield hmethod]
              simp only [binding, hfield, hmethod]
              exact .error hhealthy rfl
          | some method =>
              rw [Store.property_method hfield hmethod]
              simp only [binding, hfield, hmethod]
              have hsound := hobject name.lexeme method hmethod
              obtain ⟨hhealthy', hclosure⟩ := hhealthy.bind hsound hobject
              refine .cons_frame rfl ?_ hhealthy (.ok hhealthy' hclosure)
              exact ⟨hsound, hobject⟩
  | list id =>
      rw [property_eq name machine (.inr ⟨id, rfl⟩)]
      cases hmethod : Builtin.listMethod? name.lexeme with
      | none =>
          have hproperty : machine.store.property (.list id) name.lexeme =
              (none, machine.store) := by
            simp [Store.property, hmethod]
          rw [hproperty]
          exact .error hhealthy rfl
      | some builtin =>
          have hproperty : machine.store.property (.list id) name.lexeme =
              (some (.native ⟨machine.store.identify.1, builtin, some id⟩),
                machine.store.identify.2) := by
            simp [Store.property, hmethod]
          rw [hproperty]
          have hnative : Native.Sound ⟨machine.store.identify.1, builtin, some id⟩ :=
            .inr (.inr rfl)
          refine .ok ⟨?_, hhealthy.globals, hhealthy.labelled, hhealthy.accepted⟩ hnative
          exact ⟨hhealthy.values.frames, hhealthy.values.lists, hhealthy.values.fields⟩
  | nil | truth _ | number _ | text _ | function _ | native _ | classValue _ =>
      exact .error hhealthy rfl

end Ensures

end Lox
