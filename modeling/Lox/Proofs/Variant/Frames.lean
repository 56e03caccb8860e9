import Lox.Proofs.Likeness.Store
import Lox.Proofs.Machine.Rooted
import Lox.Proofs.Variant.Tree

/-!
# Frames of variants

While a program and its variant run, some frames of the one are twins of frames
of the other: they hold values that vary from each other, under names that differ
by the naming if the scope has been renamed.  The variant has further frames, for
its further scopes; these stay empty.  A world is a state of knowledge of which
frames are twins and from which frames one gets to twins along a nest; it only
ever grows.
-/

namespace Lox

/-- Frames of the program and of its variant that belong together. -/
structure World where
  /-- The frames are of the same scope, whose names are, or are not, changed. -/
  twins : Bool → FrameId → FrameId → Prop
  /-- Outwards from the frames one gets to twins, as the nest says. -/
  along : Nest → FrameId → FrameId → Prop

namespace World

instance : LE World where
  le world more :=
    (∀ renamed frame frame', world.twins renamed frame frame' →
      more.twins renamed frame frame') ∧
    ∀ nest frame frame', world.along nest frame frame' → more.along nest frame frame'

variable {world more most : World} {nest : Nest} {renamed : Bool} {frame frame' : FrameId}

theorem twins_mono (h : world ≤ more) (htwins : world.twins renamed frame frame') :
    more.twins renamed frame frame' :=
  h.1 _ _ _ htwins

theorem along_mono (h : world ≤ more) (halong : world.along nest frame frame') :
    more.along nest frame frame' :=
  h.2 _ _ _ halong

theorem le_refl (world : World) : world ≤ world :=
  ⟨fun _ _ _ h => h, fun _ _ _ h => h⟩

theorem le_trans (h : world ≤ more) (h' : more ≤ most) : world ≤ most :=
  ⟨fun _ _ _ htwins => twins_mono h' (twins_mono h htwins),
    fun _ _ _ halong => along_mono h' (along_mono h halong)⟩

/-- The frames have been made inside frames that are reached along `nest`, for a
scope that both trees have. -/
def entered (world : World) (nest : Nest) (renamed : Bool) (frame frame' : FrameId) : World where
  twins r f f' := world.twins r f f' ∨ r = renamed ∧ f = frame ∧ f' = frame'
  along n f f' := world.along n f f' ∨ n = nest.enter renamed ∧ f = frame ∧ f' = frame'

/-- The second frame has been made for a scope that only the variant has. -/
def padded (world : World) (nest : Nest) (frame frame' : FrameId) : World where
  twins := world.twins
  along n f f' := world.along n f f' ∨ n = nest.pad ∧ f = frame ∧ f' = frame'

theorem le_entered : world ≤ world.entered nest renamed frame frame' :=
  ⟨fun _ _ _ h => .inl h, fun _ _ _ h => .inl h⟩

theorem le_padded : world ≤ world.padded nest frame frame' :=
  ⟨fun _ _ _ h => h, fun _ _ _ h => .inl h⟩

theorem along_entered : (world.entered nest renamed frame frame').along (nest.enter renamed)
    frame frame' :=
  .inr ⟨rfl, rfl, rfl⟩

theorem twins_entered : (world.entered nest renamed frame frame').twins renamed frame frame' :=
  .inr ⟨rfl, rfl, rfl⟩

theorem along_padded : (world.padded nest frame frame').along nest.pad frame frame' :=
  .inr ⟨rfl, rfl, rfl⟩

end World

/-! ## Functions and classes -/

variable (v : Variation) (world : World)

/-- The declarations vary in the nest in which the functions have been made, in
frames that are twins. -/
structure Closure.Varies (closure closure' : Closure) : Prop where
  identity : closure.identity = closure'.identity
  isInitializer : closure.isInitializer = closure'.isInitializer
  declaration : ∃ nest, nest.distance 0 = 0 ∧ world.along nest closure.frame closure'.frame ∧
    closure.declaration.Varies v nest closure'.declaration

/-- A method that is not bound yet: its receiver will have a frame around its
own. -/
structure Closure.MethodVaries (closure closure' : Closure) : Prop where
  identity : closure.identity = closure'.identity
  isInitializer : closure.isInitializer = closure'.isInitializer
  declaration : ∃ nest, world.along nest closure.frame closure'.frame ∧
    closure.declaration.Varies v (nest.enter false) closure'.declaration

structure ClassValue.Varies (cls cls' : ClassValue) : Prop where
  identity : cls.identity = cls'.identity
  name : cls.name = cls'.name
  methods : Store.MethodsLike (Closure.MethodVaries v world) cls.methods cls'.methods

variable {v world} {more : World}

namespace Closure

variable {closure closure' : Closure}

theorem Varies.name (h : closure.Varies v world closure') : closure.name = closure'.name := by
  obtain ⟨nest, -, -, hdeclaration⟩ := h.declaration
  rw [Closure.name, hdeclaration.name, Closure.name]

theorem Varies.arity (h : closure.Varies v world closure') : closure.arity = closure'.arity := by
  obtain ⟨nest, -, -, hdeclaration⟩ := h.declaration
  exact hdeclaration.arity

theorem MethodVaries.arity (h : closure.MethodVaries v world closure') :
    closure.arity = closure'.arity := by
  obtain ⟨nest, -, hdeclaration⟩ := h.declaration
  exact hdeclaration.arity

theorem Varies.mono (hle : world ≤ more) (h : closure.Varies v world closure') :
    closure.Varies v more closure' := by
  obtain ⟨nest, hflat, halong, hdeclaration⟩ := h.declaration
  exact ⟨h.identity, h.isInitializer, nest, hflat, World.along_mono hle halong, hdeclaration⟩

theorem MethodVaries.mono (hle : world ≤ more) (h : closure.MethodVaries v world closure') :
    closure.MethodVaries v more closure' := by
  obtain ⟨nest, halong, hdeclaration⟩ := h.declaration
  exact ⟨h.identity, h.isInitializer, nest, World.along_mono hle halong, hdeclaration⟩

end Closure

namespace ClassValue

variable {cls cls' : ClassValue}

theorem Varies.initializer? (h : cls.Varies v world cls') :
    Option.Rel (Closure.MethodVaries v world) cls.initializer? cls'.initializer? :=
  h.methods FunctionDecl.initializerName

theorem Varies.arity (h : cls.Varies v world cls') : cls.arity = cls'.arity := by
  simp only [ClassValue.arity]
  rcases rel_cases h.initializer? with ⟨hleft, hright⟩ | ⟨method, method', hleft, hright, hmethod⟩
  · rw [hleft, hright]
  · rw [hleft, hright]
    exact hmethod.arity

theorem Varies.mono (hle : world ≤ more) (h : cls.Varies v world cls') :
    cls.Varies v more cls' :=
  ⟨h.identity, h.name, fun name => rel_weaken (fun _ _ => .mono hle) (h.methods name)⟩

end ClassValue

variable (v) in
/-- What the values of a world differ in. -/
def World.likeness (world : World) : Likeness where
  functions := Closure.Varies v world
  classes := ClassValue.Varies v world
  identity_function h := h.identity
  name_function h := h.name
  identity_class h := h.identity
  name_class h := h.name

theorem World.likeness_mono (hle : world ≤ more) :
    (world.likeness v).Within (more.likeness v) :=
  ⟨.mono hle, .mono hle⟩

/-! ## Frames -/

namespace Frames

variable (v world) in
/-- The frames are as the world says. -/
structure Vary (frames frames' : Frames) : Prop where
  rooted : frames.Rooted
  rooted' : frames'.Rooted
  /-- The global names are the same. -/
  globals : world.twins false 0 0
  lt_size {renamed : Bool} {frame frame' : FrameId} (h : world.twins renamed frame frame') :
    frame < frames.size ∧ frame' < frames'.size
  unique {renamed other : Bool} {frame frame' target target' : FrameId}
    (h : world.twins renamed frame frame') (h' : world.twins other target target') :
    (frame = target ↔ frame' = target') ∧ (frame = target → renamed = other)
  get? {renamed : Bool} {frame frame' : FrameId} (h : world.twins renamed frame frame')
    (name : String) :
    Option.Rel (Value.Like (world.likeness v)) (frames.get? frame name)
      (frames'.get? frame' (v.naming.nameIn renamed name))
  along_lt {nest : Nest} {frame frame' : FrameId} (h : world.along nest frame frame') :
    frame < frames.size ∧ frame' < frames'.size
  ancestor? {nest : Nest} {frame frame' : FrameId} (h : world.along nest frame frame')
    (distance : Nat) :
    Option.Rel (world.twins (nest.renamed distance)) (frames.ancestor? distance frame)
      (frames'.ancestor? (nest.distance distance) frame')

namespace Vary

variable {frames frames' : Frames} {nest : Nest} {renamed : Bool} {frame frame' : FrameId}
variable {name : String} {value value' : Value}

/-- In a flat nest the frames are twins themselves. -/
theorem twins (h : frames.Vary v world frames') (halong : world.along nest frame frame')
    (hflat : nest.distance 0 = 0) : world.twins (nest.renamed 0) frame frame' := by
  have hancestor := h.ancestor? halong 0
  rw [hflat] at hancestor
  cases hancestor with
  | some htwins => exact htwins

theorem define (h : frames.Vary v world frames') (htwins : world.twins renamed frame frame')
    (name : String) (hvalue : value.Like (world.likeness v) value') :
    (frames.define frame name value).Vary v world
      (frames'.define frame' (v.naming.nameIn renamed name) value') where
  rooted := h.rooted.define ..
  rooted' := h.rooted'.define ..
  globals := h.globals
  lt_size htwins' := by simpa using h.lt_size htwins'
  unique := h.unique
  get? {other target target'} htwins' key := by
    obtain ⟨hsame, hrenamed⟩ := h.unique htwins htwins'
    obtain ⟨hlt, hlt'⟩ := h.lt_size htwins
    rw [get?_define, get?_define]
    by_cases htarget : frame = target
    · obtain rfl := hrenamed htarget
      by_cases hkey : name = key
      · rw [if_pos ⟨htarget, hkey, hlt⟩, if_pos ⟨hsame.1 htarget, congrArg _ hkey, hlt'⟩]
        exact .some hvalue
      · rw [if_neg fun hall => hkey hall.2.1,
          if_neg fun hall => hkey ((v.naming.nameIn_inj _).1 hall.2.1)]
        exact h.get? htwins' key
    · rw [if_neg fun hall => htarget hall.1, if_neg fun hall => htarget (hsame.2 hall.1)]
      exact h.get? htwins' key
  along_lt halong := by simpa using h.along_lt halong
  ancestor? halong distance := by
    rw [ancestor?_define, ancestor?_define]
    exact h.ancestor? halong distance

/-- Assigning succeeds in both frames or in neither. -/
theorem assign (h : frames.Vary v world frames') (htwins : world.twins renamed frame frame')
    (name : String) (hvalue : value.Like (world.likeness v) value') :
    (frames.assign frame name value).1 =
        (frames'.assign frame' (v.naming.nameIn renamed name) value').1 ∧
      (frames.assign frame name value).2.Vary v world
        (frames'.assign frame' (v.naming.nameIn renamed name) value').2 := by
  simp only [Frames.assign]
  rw [isSome_of_rel (h.get? htwins name)]
  split
  · exact ⟨rfl, h.define htwins name hvalue⟩
  · exact ⟨rfl, h⟩

theorem getAt? (h : frames.Vary v world frames') (halong : world.along nest frame frame')
    (distance : Nat) (name : String) :
    Option.Rel (Value.Like (world.likeness v)) (frames.getAt? frame distance name)
      (frames'.getAt? frame' (nest.distance distance)
        (v.naming.nameIn (nest.renamed distance) name)) := by
  simp only [Frames.getAt?]
  rcases rel_cases (h.ancestor? halong distance) with
    ⟨hleft, hright⟩ | ⟨target, target', hleft, hright, htwins⟩
  · rw [hleft, hright]
    exact .none
  · rw [hleft, hright]
    exact h.get? htwins name

theorem assignAt (h : frames.Vary v world frames') (halong : world.along nest frame frame')
    (distance : Nat) (name : String) (hvalue : value.Like (world.likeness v) value') :
    (frames.assignAt frame distance name value).1 =
        (frames'.assignAt frame' (nest.distance distance)
          (v.naming.nameIn (nest.renamed distance) name) value').1 ∧
      (frames.assignAt frame distance name value).2.Vary v world
        (frames'.assignAt frame' (nest.distance distance)
          (v.naming.nameIn (nest.renamed distance) name) value').2 := by
  simp only [Frames.assignAt]
  rcases rel_cases (h.ancestor? halong distance) with
    ⟨hleft, hright⟩ | ⟨target, target', hleft, hright, htwins⟩
  · rw [hleft, hright]
    exact ⟨rfl, h⟩
  · rw [hleft, hright]
    exact h.assign htwins name hvalue

/-- New frames inside frames that are reached along a nest are twins. -/
theorem enter (h : frames.Vary v world frames') (halong : world.along nest frame frame')
    (renamed : Bool) :
    (frames.child frame).2.Vary v (world.entered nest renamed frames.size frames'.size)
      (frames'.child frame').2 := by
  obtain ⟨hlt, hlt'⟩ := h.along_lt halong
  have hle : world ≤ world.entered nest renamed frames.size frames'.size := World.le_entered
  have hlikeness := World.likeness_mono (v := v) hle
  refine ⟨h.rooted.child hlt, h.rooted'.child hlt', .inl h.globals, ?_, ?_, ?_, ?_, ?_⟩
  · rintro r f f' (htwins | ⟨-, rfl, rfl⟩)
    · rw [size_child, size_child]
      exact (h.lt_size htwins).imp Nat.lt_succ_of_lt Nat.lt_succ_of_lt
    · simp
  · rintro r q f f' g g' (htwins | ⟨rfl, rfl, rfl⟩) (htwins' | ⟨rfl, rfl, rfl⟩)
    · exact h.unique htwins htwins'
    · have hold := h.lt_size htwins
      exact ⟨iff_of_false (Nat.ne_of_lt hold.1) (Nat.ne_of_lt hold.2),
        fun heq => absurd heq (Nat.ne_of_lt hold.1)⟩
    · have hold := h.lt_size htwins'
      exact ⟨iff_of_false (Nat.ne_of_gt hold.1) (Nat.ne_of_gt hold.2),
        fun heq => absurd heq (Nat.ne_of_gt hold.1)⟩
    · simp
  · rintro r f f' (htwins | ⟨-, rfl, rfl⟩) name
    · rw [get?_child, get?_child]
      exact rel_weaken (fun _ _ => .mono hlikeness) (h.get? htwins name)
    · have hnone : ∀ (inside : Frames) (outer : FrameId) (key : String),
          (inside.child outer).2.get? inside.size key = none :=
        fun inside outer key => Option.not_isSome_iff_eq_none.1 not_binds_new
      rw [hnone, hnone]
      exact .none
  · rintro n f f' (halong' | ⟨-, rfl, rfl⟩)
    · rw [size_child, size_child]
      exact (h.along_lt halong').imp Nat.lt_succ_of_lt Nat.lt_succ_of_lt
    · simp
  · rintro n f f' (halong' | ⟨rfl, rfl, rfl⟩) distance
    · obtain ⟨hold, hold'⟩ := h.along_lt halong'
      rw [h.rooted.ancestor?_child _ _ hold, h.rooted'.ancestor?_child _ _ hold']
      exact rel_weaken (fun _ _ => .inl) (h.ancestor? halong' distance)
    · cases distance with
      | zero => exact .some World.twins_entered
      | succ distance =>
          simp only [Nest.enter]
          rw [h.rooted.ancestor?_new hlt, h.rooted'.ancestor?_new hlt']
          exact rel_weaken (fun _ _ => .inl) (h.ancestor? halong distance)

/-- A new frame of the variant alone is one step further inside. -/
theorem pad (h : frames.Vary v world frames') (halong : world.along nest frame frame') :
    frames.Vary v (world.padded nest frame frames'.size) (frames'.child frame').2 := by
  obtain ⟨hlt, hlt'⟩ := h.along_lt halong
  have hle : world ≤ world.padded nest frame frames'.size := World.le_padded
  have hlikeness := World.likeness_mono (v := v) hle
  refine ⟨h.rooted, h.rooted'.child hlt', h.globals, fun htwins => ?_, h.unique,
    fun htwins name => ?_, ?_, ?_⟩
  · rw [size_child]
    exact (h.lt_size htwins).imp id Nat.lt_succ_of_lt
  · rw [get?_child]
    exact rel_weaken (fun _ _ => .mono hlikeness) (h.get? htwins name)
  · rintro n f f' (halong' | ⟨-, rfl, rfl⟩)
    · rw [size_child]
      exact (h.along_lt halong').imp id Nat.lt_succ_of_lt
    · simp [hlt]
  · rintro n f f' (halong' | ⟨rfl, rfl, rfl⟩) distance
    · rw [h.rooted'.ancestor?_child _ _ (h.along_lt halong').2]
      exact h.ancestor? halong' distance
    · rw [show nest.pad.distance distance = nest.distance distance + 1 from rfl,
        h.rooted'.ancestor?_new hlt']
      exact h.ancestor? halong distance

end Vary

end Frames

end Lox
