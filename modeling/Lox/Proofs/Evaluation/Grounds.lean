import Lox.Proofs.Evaluation.Moments
import Lox.Proofs.Machine.Steady
import Lox.Proofs.Scope.Settled

/-!
# Frames that stand for scopes

At run time a frame stands for each open scope of the analysis.  It is labelled
with the region that the scope belongs to, it binds every name whose
declaration is complete, and the frame around it stands for the scope around
it, up to the globals.  Every function in the store has been reached by the
analysis at a site for whose scopes its frame stands.
-/

namespace Lox

/-- From the frame outwards, the frames stand for the scopes of the regions. -/
inductive Stands (frames : Frames) (labels : List Region) :
    FrameId → List Region → List Scope → Prop where
  | globals : Stands frames labels 0 [] []
  | inside {frame outer : FrameId} {region : Region} {regions : List Region} {scope : Scope}
    {scopes : List Scope} (henclosing : frames.enclosing? frame = some outer)
    (hlabel : labelOf labels frame = some region)
    (hbinds : ∀ name : String, scope[name]? = some true → frames.Binds frame name)
    (houter : Stands frames labels outer regions scopes) :
    Stands frames labels frame (region :: regions) (scope :: scopes)

/-- The frame has no other names than those declared in the innermost scope. -/
def Exact (frames : Frames) (frame : FrameId) (scopes : List Scope) : Prop :=
  ∀ scope ∈ scopes.head?, ∀ name : String, frames.Binds frame name → scope[name]? = some true

theorem labelOf_mono {labels labels' : List Region} {frame : FrameId} {region : Region}
    (hlabels : labels <+: labels') (h : labelOf labels frame = some region) :
    labelOf labels' frame = some region := by
  cases frame with
  | zero => cases h
  | succ frame =>
      obtain ⟨more, rfl⟩ := hlabels
      obtain ⟨hlt, -⟩ := List.getElem?_eq_some_iff.1 h
      simp only [labelOf]
      rw [List.getElem?_append_left hlt]
      exact h

/-- The label of the frame that is made next. -/
theorem labelOf_new (labels : List Region) (region : Region) :
    labelOf (labels ++ [region]) (labels.length + 1) = some region := by
  simp [labelOf]

namespace Stands

variable {frames after : Frames} {labels labels' : List Region} {frame : FrameId}
variable {regions : List Region} {scopes : List Scope}

theorem mono {gaining? : Option FrameId} (h : Stands frames labels frame regions scopes)
    (hkeeps : frames.Keeps gaining? after) (hlabels : labels <+: labels') :
    Stands after labels' frame regions scopes := by
  induction h with
  | globals => exact .globals
  | inside henclosing hlabel hbinds _ ih =>
      refine .inside ?_ (labelOf_mono hlabels hlabel) (fun name hname => ?_) ih
      · rw [hkeeps.enclosing? _ (Frames.lt_size_of_enclosing? henclosing), henclosing]
      · exact hkeeps.binds _ name (hbinds name hname)

theorem binds {scope : Scope} (h : Stands frames labels frame regions (scope :: scopes))
    {name : String} (hname : scope[name]? = some true) : frames.Binds frame name := by
  cases h with
  | inside _ _ hbinds _ => exact hbinds name hname

/-- The frames also stand for scopes with other marks in the innermost one, as
long as the names marked as complete are bound. -/
theorem rescope {scope scope' : Scope} {outer : List Scope}
    (h : Stands frames labels frame regions (scope :: outer))
    (hbinds : ∀ name : String, scope'[name]? = some true → frames.Binds frame name) :
    Stands frames labels frame regions (scope' :: outer) := by
  cases h with
  | inside henclosing hlabel _ houter => exact .inside henclosing hlabel hbinds houter

/-- A frame other than that of the globals has been made. -/
theorem lt_size {scope : Scope} (h : Stands frames labels frame regions (scope :: scopes)) :
    frame < frames.size := by
  cases h with
  | inside henclosing => exact Frames.lt_size_of_enclosing? henclosing

theorem exact_mono (h : Stands frames labels frame regions scopes)
    (hexact : Exact frames frame scopes) (hkeeps : frames.Keeps none after) :
    Exact after frame scopes := by
  cases scopes with
  | nil => simp [Exact]
  | cons scope outer =>
      rintro _ ⟨⟩ name hname
      exact hexact scope rfl name (hkeeps.binds_old frame name h.lt_size (by simp) hname)

end Stands

/-! ## Sound values -/

section Sound

variable (programs : List Program) (frames : Frames) (labels : List Region)

/-- The analysis of a program has come to the declaration of the function, and
the frame of the function stands for the scopes there; that of an initializer
binds its receiver. -/
def Closure.Sound (closure : Closure) : Prop :=
  ∃ program ∈ programs, ∃ site,
    Reached program (.function closure.isInitializer closure.declaration) site ∧
      Stands frames labels closure.frame site.regions site.scopes ∧
      (closure.isInitializer → frames.Binds closure.frame "this")

/-- The same of a method that is not bound yet: the frame for its receiver is
still to be made. -/
def Closure.MethodSound (method : Closure) : Prop :=
  ∃ program ∈ programs, ∃ site regions scopes,
    Reached program (.function method.isInitializer method.declaration) site ∧
      site.regions = .classBody method.declaration :: regions ∧
      site.scopes = (∅ : Scope).insert "this" true :: scopes ∧
      Stands frames labels method.frame regions scopes

def ClassValue.Sound (cls : ClassValue) : Prop :=
  ∀ (name : String) (method : Closure), cls.methods[name]? = some method →
    method.MethodSound programs frames labels

/-- A built-in function that works on a list has one. -/
def Native.Sound (native : Native) : Prop :=
  native.builtin = .clock ∨ native.builtin = .newList ∨ native.receiver.isSome

def Value.Sound : Value → Prop
  | .function closure => closure.Sound programs frames labels
  | .classValue cls => cls.Sound programs frames labels
  | .object cls _ => cls.Sound programs frames labels
  | .native callee => callee.Sound
  | _ => True

end Sound

section Mono

variable {programs : List Program} {frames after : Frames} {labels labels' : List Region}
variable {gaining? : Option FrameId}

theorem Closure.Sound.mono {closure : Closure} (h : closure.Sound programs frames labels)
    (hkeeps : frames.Keeps gaining? after) (hlabels : labels <+: labels') :
    closure.Sound programs after labels' := by
  obtain ⟨program, hprogram, site, hreached, hstands, hthis⟩ := h
  exact ⟨program, hprogram, site, hreached, hstands.mono hkeeps hlabels,
    fun hinitializer => hkeeps.binds _ _ (hthis hinitializer)⟩

theorem Closure.MethodSound.mono {method : Closure}
    (h : method.MethodSound programs frames labels) (hkeeps : frames.Keeps gaining? after)
    (hlabels : labels <+: labels') : method.MethodSound programs after labels' := by
  obtain ⟨program, hprogram, site, regions, scopes, hreached, hregions, hscopes, hstands⟩ := h
  exact ⟨program, hprogram, site, regions, scopes, hreached, hregions, hscopes,
    hstands.mono hkeeps hlabels⟩

theorem ClassValue.Sound.mono {cls : ClassValue} (h : cls.Sound programs frames labels)
    (hkeeps : frames.Keeps gaining? after) (hlabels : labels <+: labels') :
    cls.Sound programs after labels' :=
  fun name method hmethod => (h name method hmethod).mono hkeeps hlabels

theorem Value.Sound.mono {value : Value} (h : value.Sound programs frames labels)
    (hkeeps : frames.Keeps gaining? after) (hlabels : labels <+: labels') :
    value.Sound programs after labels' := by
  cases value with
  | function closure => exact Closure.Sound.mono h hkeeps hlabels
  | classValue cls => exact ClassValue.Sound.mono h hkeeps hlabels
  | object cls id => exact ClassValue.Sound.mono h hkeeps hlabels
  | native native => exact h
  | nil | truth _ | number _ | text _ | list _ => trivial

/-- Labels of further frames change nothing. -/
theorem Value.Sound.relabel {value : Value} (h : value.Sound programs frames labels)
    (hlabels : labels <+: labels') : value.Sound programs frames labels' :=
  h.mono (Frames.Keeps.refl frames : frames.Keeps none frames) hlabels

end Mono

/-! ## Healthy machines -/

/-- Every value in the store is sound, every frame but the globals has a label,
and the programs have been accepted with the distances that are in use. -/
structure Machine.Healthy (programs : List Program) (labels : List Region)
    (machine : Machine) : Prop where
  values : machine.store.All (Value.Sound programs machine.store.frames labels)
  globals : machine.globals = 0
  labelled : machine.store.frames.size = labels.length + 1
  accepted : ∀ program ∈ programs, program.Accepted machine.distances

/-- The current frame stands for the scopes of the regions, and its names are
those of the innermost scope. -/
structure Machine.Within (labels : List Region) (machine : Machine) (regions : List Region)
    (scopes : List Scope) : Prop where
  stands : Stands machine.store.frames labels machine.current regions scopes
  exact : Exact machine.store.frames machine.current scopes

/-- The machine is about to run a part of one of the programs, and is within the
scopes of its site. -/
structure Machine.Placed (programs : List Program) (labels : List Region) (machine : Machine)
    (part : Part) (site : Site) : Prop where
  reached : ∃ program ∈ programs, Reached program part site
  within : machine.Within labels site.regions site.scopes

/-- What holds of every task when it is begun. -/
def Task.Sound (programs : List Program) (labels : List Region) (machine : Machine) :
    Task → Prop
  | .expr e => ∃ site, machine.Placed programs labels (.expr e) site
  | .exprs es => ∃ site, machine.Placed programs labels (.exprs es) site
  | .stmt s => ∃ site, machine.Placed programs labels (.stmt s) site
  | .stmts ss => ∃ site, machine.Placed programs labels (.stmts ss) site
  | .loop condition body =>
    ∃ site, machine.Placed programs labels (.stmt (.loop condition body)) site
  | .call function _ arguments =>
    function.Sound programs machine.store.frames labels ∧
      ∀ v ∈ arguments, v.Sound programs machine.store.frames labels
  | .bind method this =>
    method.MethodSound programs machine.store.frames labels ∧
      this.Sound programs machine.store.frames labels
  | .invoke closure arguments =>
    closure.Sound programs machine.store.frames labels ∧ closure.arity = arguments.length ∧
      ∀ v ∈ arguments, v.Sound programs machine.store.frames labels

/-- At a moment its task is sound, for programs that have been accepted by then. -/
def Moment.Sound (programs : List Program) (labels : List Region) (moment : Moment) : Prop :=
  ∃ known ⊆ programs, (∀ program ∈ known, program.Accepted moment.machine.distances) ∧
    moment.task.Sound known labels moment.machine

end Lox
