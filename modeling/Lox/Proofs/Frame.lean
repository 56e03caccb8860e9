import Lox.Frame
import Mathlib.Data.Nat.Basic
import Mathlib.Tactic.Common

/-!
# How frames change

Frames are added and gain names, but they never lose a name and are never
attached anew.  `Frames.Keeps` says so of two states of the frames, with the
one frame that may have gained names in between.
-/

namespace Lox.Frames

variable {frames before middle after : Frames} {frame other : FrameId}

def size (frames : Frames) : Nat :=
  frames.toArray.size

/-- Whether a frame has a value for a name. -/
def Binds (frames : Frames) (frame : FrameId) (name : String) : Prop :=
  (frames.get? frame name).isSome

/-! ## Single changes -/

@[simp]
theorem size_define (frames : Frames) (frame : FrameId) (name : String) (value : Value) :
    (frames.define frame name value).size = frames.size := by
  simp [define, size]

theorem toArray_define (frames : Frames) (frame other : FrameId) (name : String)
    (value : Value) :
    (frames.define frame name value).toArray[other]? =
      if frame = other then
        frames.toArray[other]?.map fun f => { f with values := f.values.insert name value }
      else frames.toArray[other]? := by
  simp only [define, Array.getElem?_modify]

@[simp]
theorem enclosing?_define (frames : Frames) (frame other : FrameId) (name : String)
    (value : Value) :
    (frames.define frame name value).enclosing? other = frames.enclosing? other := by
  simp only [enclosing?]
  rw [toArray_define]
  split
  · cases frames.toArray[other]? <;> rfl
  · rfl

/-- Defining a name changes the value of that name in that frame alone. -/
theorem get?_define (frames : Frames) (frame other : FrameId) (name key : String)
    (value : Value) :
    (frames.define frame name value).get? other key =
      if frame = other ∧ name = key ∧ frame < frames.size then some value
      else frames.get? other key := by
  simp only [get?]
  rw [toArray_define]
  by_cases hframe : frame = other
  · subst hframe
    by_cases hlt : frame < frames.size
    · have hsome : frames.toArray[frame]? = some frames.toArray[frame] :=
        Array.getElem?_eq_getElem hlt
      by_cases hname : name = key <;>
        simp [hsome, hlt, hname, Std.TreeMap.getElem?_insert]
    · have hnone : frames.toArray[frame]? = none :=
        Array.getElem?_eq_none (Nat.le_of_not_lt hlt)
      simp [hnone, hlt]
  · simp [hframe]

theorem lt_size_of_binds {name : String} (h : frames.Binds frame name) : frame < frames.size := by
  by_contra hlt
  have hnone : frames.toArray[frame]? = none :=
    Array.getElem?_eq_none (Nat.le_of_not_lt hlt)
  simp [Binds, get?, hnone] at h

theorem lt_size_of_enclosing? (h : frames.enclosing? frame = some other) :
    frame < frames.size := by
  by_contra hlt
  have hnone : frames.toArray[frame]? = none :=
    Array.getElem?_eq_none (Nat.le_of_not_lt hlt)
  simp [enclosing?, hnone] at h

@[simp]
theorem size_child (frames : Frames) (frame : FrameId) :
    (frames.child frame).2.size = frames.size + 1 := by
  simp [child, size]

@[simp]
theorem fst_child (frames : Frames) (frame : FrameId) :
    (frames.child frame).1 = frames.size := rfl

/-- A new frame has no names. -/
@[simp]
theorem get?_child (frames : Frames) (frame other : FrameId) (name : String) :
    (frames.child frame).2.get? other name = frames.get? other name := by
  unfold get? child
  dsimp only
  rw [Array.getElem?_push]
  split
  · rename_i h
    subst h
    simp
  · rfl

theorem not_binds_new {name : String} : ¬ (frames.child frame).2.Binds frames.size name := by
  intro h
  have hold : frames.Binds frames.size name := by simpa [Binds] using h
  exact Nat.lt_irrefl _ (lt_size_of_binds hold)

theorem enclosing?_child (frames : Frames) (frame other : FrameId) :
    (frames.child frame).2.enclosing? other =
      if other = frames.size then some frame else frames.enclosing? other := by
  rw [enclosing?, child, size]
  dsimp only
  rw [Array.getElem?_push]
  split <;> rfl

/-- Assigning defines the name in some frame or changes nothing. -/
theorem assign_cases (frames : Frames) (frame : FrameId) (name : String) (value : Value) :
    (frames.assign frame name value).2 = frames ∨
      (frames.assign frame name value).2 = frames.define frame name value := by
  rw [assign]
  split
  · exact .inr rfl
  · exact .inl rfl

theorem assignAt_cases (frames : Frames) (frame : FrameId) (distance : Nat) (name : String)
    (value : Value) :
    (frames.assignAt frame distance name value).2 = frames ∨
      ∃ target, (frames.assignAt frame distance name value).2 =
        frames.define target name value := by
  rw [assignAt]
  split
  · rename_i target _
    exact (frames.assign_cases target name value).imp id fun h => ⟨target, h⟩
  · exact .inl rfl

/-! ## Frames further out -/

theorem ancestor?_define (frames : Frames) (frame : FrameId) (name : String) (value : Value)
    (distance : Nat) (other : FrameId) :
    (frames.define frame name value).ancestor? distance other =
      frames.ancestor? distance other := by
  induction distance generalizing other with
  | zero => rfl
  | succ distance ih =>
      rw [ancestor?, ancestor?, enclosing?_define]
      exact congrArg _ (funext ih)

/-- Going out by one distance and then by another is going out by their sum. -/
theorem ancestor?_add (frames : Frames) (first second : Nat) (frame : FrameId) :
    frames.ancestor? (first + second) frame =
      (frames.ancestor? first frame).bind (frames.ancestor? second) := by
  induction first generalizing frame with
  | zero =>
      rw [Nat.zero_add]
      rfl
  | succ first ih =>
      rw [Nat.add_right_comm, ancestor?, ancestor?, Option.bind_assoc]
      exact congrArg _ (funext ih)

/-! ## Sequences of changes -/

/-- The frames `after` come from `before` by adding frames, giving names new
values, and giving new names to no older frame but `gaining?`. -/
structure Keeps (gaining? : Option FrameId) (before after : Frames) : Prop where
  size : before.size ≤ after.size
  enclosing? (frame : FrameId) (h : frame < before.size) :
    after.enclosing? frame = before.enclosing? frame
  binds (frame : FrameId) (name : String) (h : before.Binds frame name) :
    after.Binds frame name
  binds_old (frame : FrameId) (name : String) (hlt : frame < before.size)
    (hother : gaining? ≠ some frame) (h : after.Binds frame name) : before.Binds frame name

namespace Keeps

variable {gaining? : Option FrameId}

theorem refl (frames : Frames) : Keeps gaining? frames frames :=
  ⟨le_rfl, fun _ _ => rfl, fun _ _ h => h, fun _ _ _ _ h => h⟩

theorem trans (hfirst : Keeps gaining? before middle) (hsecond : Keeps gaining? middle after) :
    Keeps gaining? before after where
  size := Nat.le_trans hfirst.size hsecond.size
  enclosing? frame h :=
    (hsecond.enclosing? frame (Nat.lt_of_lt_of_le h hfirst.size)).trans (hfirst.enclosing? frame h)
  binds frame name h := hsecond.binds frame name (hfirst.binds frame name h)
  binds_old frame name hlt hother h :=
    hfirst.binds_old frame name hlt hother
      (hsecond.binds_old frame name (Nat.lt_of_lt_of_le hlt hfirst.size) hother h)

/-- What is kept when no frame gains a name is kept anyway. -/
theorem widen (h : Keeps none before after) : Keeps gaining? before after :=
  ⟨h.size, h.enclosing?, h.binds, fun frame name hlt _ => h.binds_old frame name hlt (by simp)⟩

/-- Names gained by a frame that was not there before do not count. -/
theorem of_new (hfirst : Keeps none before middle) (hnew : before.size ≤ frame)
    (hsecond : Keeps (some frame) middle after) : Keeps none before after where
  size := Nat.le_trans hfirst.size hsecond.size
  enclosing? other h :=
    (hsecond.enclosing? other (Nat.lt_of_lt_of_le h hfirst.size)).trans (hfirst.enclosing? other h)
  binds other name h := hsecond.binds other name (hfirst.binds other name h)
  binds_old other name hlt _ h := by
    have hne : some frame ≠ some other := by
      rintro ⟨⟩
      exact absurd hlt (Nat.not_lt.2 hnew)
    exact hfirst.binds_old other name hlt (by simp)
      (hsecond.binds_old other name (Nat.lt_of_lt_of_le hlt hfirst.size) hne h)

end Keeps

theorem keeps_define (frames : Frames) (frame : FrameId) (name : String) (value : Value) :
    Keeps (some frame) frames (frames.define frame name value) where
  size := by simp
  enclosing? other _ := by simp
  binds other key h := by
    rw [Binds] at h ⊢
    rw [get?_define]
    split
    · rfl
    · exact h
  binds_old other key _ hother h := by
    have hne : frame ≠ other := fun heq => hother (heq ▸ rfl)
    rw [Binds] at h ⊢
    rw [get?_define] at h
    simpa [hne] using h

theorem keeps_child (frames : Frames) (frame : FrameId) :
    Keeps none frames (frames.child frame).2 where
  size := by simp
  enclosing? other h := by
    rw [enclosing?_child, if_neg (Nat.ne_of_lt h)]
  binds other name h := by simpa [Binds] using h
  binds_old other name _ _ h := by simpa [Binds] using h

/-- Assigning to a name that has a value gives no frame a new name. -/
theorem keeps_assign (frames : Frames) (frame : FrameId) (name : String) (value : Value) :
    Keeps none frames (frames.assign frame name value).2 := by
  rw [assign]
  split
  · rename_i hbound
    have hkeeps := keeps_define frames frame name value
    refine ⟨hkeeps.size, hkeeps.enclosing?, hkeeps.binds, fun other key _ _ h => ?_⟩
    rw [Binds] at h ⊢
    rw [get?_define] at h
    split at h
    · rename_i hsame
      rw [← hsame.1, ← hsame.2.1]
      exact hbound
    · exact h
  · exact .refl frames

theorem keeps_assignAt (frames : Frames) (frame : FrameId) (distance : Nat) (name : String)
    (value : Value) : Keeps none frames (frames.assignAt frame distance name value).2 := by
  rw [assignAt]
  split
  · exact keeps_assign ..
  · exact .refl frames

end Lox.Frames
