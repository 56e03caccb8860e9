import Lox.Proofs.Machine.Rooted

/-!
# Frames as a tree of shared maps

Operations on frames, in any order and by handles on any of them, grow a tree from one
root.  Which frame is around which has been settled when the frames were made.  A name
has a value in a frame exactly if it has been defined in that very frame, and it is the
value that was last written there, through whatever handle.
-/

namespace Lox.Frames

/-- What is done to frames, by a handle on one of them. -/
inductive Operation where
  | child (frame : FrameId)
  | define (frame : FrameId) (name : String) (value : Value)
  | assign (frame : FrameId) (name : String) (value : Value)
  | assignAt (frame : FrameId) (distance : Nat) (name : String) (value : Value)

namespace Operation

def handle : Operation → FrameId
  | child frame | define frame _ _ | assign frame _ _ | assignAt frame _ _ _ => frame

/-- The frames after the operation. -/
def apply (frames : Frames) : Operation → Frames
  | child frame => (frames.child frame).2
  | define frame name value => frames.define frame name value
  | assign frame name value => (frames.assign frame name value).2
  | assignAt frame distance name value => (frames.assignAt frame distance name value).2

/-- The frame around the one that the operation makes, if it makes one. -/
def parent? : Operation → Option FrameId
  | child frame => some frame
  | _ => none

def defines (frame : FrameId) (name : String) : Operation → Bool
  | define target key _ => target == frame && key == name
  | _ => false

/-- The value that the operation is to write to the name in the frame.  An assignment
writes it only if the name has been defined there. -/
def offered? (frames : Frames) (frame : FrameId) (name : String) : Operation → Option Value
  | child _ => none
  | define target key value | assign target key value =>
    if target = frame ∧ key = name then some value else none
  | assignAt start distance key value =>
    if frames.ancestor? distance start = some frame ∧ key = name then some value else none

end Operation

/-- The operations, the latest last, have made these frames of the root, each by a
handle on a frame that was there. -/
inductive Grown : List Operation → Frames → Prop where
  | root : Grown [] root
  | step {history : List Operation} {frames : Frames} {operation : Operation}
    (h : Grown history frames) (hhandle : operation.handle < frames.size) :
    Grown (history ++ [operation]) (operation.apply frames)

/-- How deep every frame is in the tree: the root not at all, any other frame by one
more than the frame around it. -/
def depths (history : List Operation) : List Nat :=
  (history.filterMap Operation.parent?).foldl
    (fun depths parent => depths ++ [depths.getD parent 0 + 1]) [0]

/-- The value last written to the name in the frame, if the name has been defined there. -/
def written? (history : List Operation) (frames : Frames) (frame : FrameId) (name : String) :
    Option Value :=
  if history.any (·.defines frame name) then
    (history.filterMap (·.offered? frames frame name)).getLast?
  else none

/-- What an assignment to a name gives that is aimed at a frame, if there is one: it
finds the name exactly if it has been defined there before.  Then it changes the value
of that name in that frame and nothing else, and otherwise it changes nothing. -/
structure Assigned (history : List Operation) (frames : Frames) (target? : Option FrameId)
    (name : String) (value : Value) (result : Bool × Frames) : Prop where
  found : result.1 = target?.any fun target => history.any (·.defines target name)
  tree (frame : FrameId) : result.2.enclosing? frame = frames.enclosing? frame
  changed (h : result.1) (frame : FrameId) (key : String) :
    result.2.get? frame key =
      if target? = some frame ∧ name = key then some value else frames.get? frame key
  unchanged (h : result.1 = false) : result.2 = frames

/-! ## Single operations -/

/-- An assignment that is aimed at a name of the frame writes it if the name is there. -/
theorem get?_assign (frames : Frames) (target frame : FrameId) (key name : String)
    (value : Value) :
    (frames.assign target key value).2.get? frame name =
      if target = frame ∧ key = name ∧ (frames.get? frame name).isSome then some value
      else frames.get? frame name := by
  rw [assign]
  split
  · rename_i hbound
    rw [get?_define]
    have hlt : target < frames.size := lt_size_of_binds hbound
    by_cases haim : target = frame ∧ key = name
    · obtain ⟨rfl, rfl⟩ := haim
      simp [hlt, hbound]
    · rw [if_neg fun h => haim ⟨h.1, h.2.1⟩, if_neg fun h => haim ⟨h.1, h.2.1⟩]
  · rename_i hunbound
    refine (if_neg ?_).symm
    rintro ⟨rfl, rfl, hbound⟩
    exact hunbound hbound

namespace Operation

variable {frames : Frames} {operation : Operation} {frame : FrameId} {name : String}

/-- An operation makes a frame, or it gives a name of a frame a value, or it does
nothing. -/
theorem apply_cases (operation : Operation) (frames : Frames) :
    (∃ outer, operation = .child outer) ∨ operation.parent? = none ∧
      (operation.apply frames = frames ∨
        ∃ target name value, operation.apply frames = frames.define target name value) := by
  cases operation with
  | child outer => exact .inl ⟨outer, rfl⟩
  | define target name value => exact .inr ⟨rfl, .inr ⟨target, name, value, rfl⟩⟩
  | assign target name value =>
      exact .inr ⟨rfl, (frames.assign_cases target name value).imp_right
        fun h => ⟨target, name, value, h⟩⟩
  | assignAt start distance name value =>
      exact .inr ⟨rfl, (frames.assignAt_cases start distance name value).imp_right
        fun ⟨target, h⟩ => ⟨target, name, value, h⟩⟩

theorem rooted_apply (h : frames.Rooted) (hhandle : operation.handle < frames.size) :
    (operation.apply frames).Rooted := by
  rcases operation.apply_cases frames with ⟨outer, rfl⟩ | ⟨-, hsame | ⟨target, key, value, hdefine⟩⟩
  · exact h.child hhandle
  · rwa [hsame]
  · rw [hdefine]
    exact h.define target key value

/-- What is around a frame has been settled when it was made. -/
theorem ancestor?_apply (operation : Operation) (h : frames.Rooted) (distance : Nat)
    (hlt : frame < frames.size) :
    (operation.apply frames).ancestor? distance frame = frames.ancestor? distance frame := by
  rcases operation.apply_cases frames with ⟨outer, rfl⟩ | ⟨-, hsame | ⟨target, key, value, hdefine⟩⟩
  · exact h.ancestor?_child outer distance hlt
  · rw [hsame]
  · rw [hdefine, ancestor?_define]

theorem size_apply (h : operation.parent? = none) (frames : Frames) :
    (operation.apply frames).size = frames.size := by
  rcases operation.apply_cases frames with ⟨outer, rfl⟩ | ⟨-, hsame | ⟨target, key, value, hdefine⟩⟩
  · cases h
  · rw [hsame]
  · rw [hdefine, size_define]

theorem le_size_apply (operation : Operation) (frames : Frames) :
    frames.size ≤ (operation.apply frames).size := by
  cases hparent : operation.parent? with
  | none => exact (size_apply hparent frames).ge
  | some outer =>
      cases operation <;> cases hparent
      exact (keeps_child frames outer).size

/-- What an operation offers to a frame does not depend on frames that are made later. -/
theorem offered?_apply (other : Operation) (h : frames.Rooted)
    (hhandle : operation.handle < frames.size) :
    operation.offered? (other.apply frames) frame name = operation.offered? frames frame name := by
  cases operation with
  | assignAt start distance key value =>
      have hsame : (other.apply frames).ancestor? distance start =
          frames.ancestor? distance start := other.ancestor?_apply h distance hhandle
      simp only [offered?, hsame]
  | child _ | define _ _ _ | assign _ _ _ => rfl

/-- A name of a frame gets the value that is offered to it, if an operation defines the
name or it has been there; nothing else changes. -/
theorem get?_apply (hhandle : operation.handle < frames.size) (frame : FrameId)
    (name : String) :
    (operation.apply frames).get? frame name =
      match operation.offered? frames frame name with
      | some value =>
        if operation.defines frame name || (frames.get? frame name).isSome then some value
        else none
      | none => frames.get? frame name := by
  have hassign (target : FrameId) (key : String) (value : Value) :
      (frames.assign target key value).2.get? frame name =
        match if target = frame ∧ key = name then some value else none with
        | some value => if (frames.get? frame name).isSome then some value else none
        | none => frames.get? frame name := by
    rw [get?_assign]
    by_cases haim : target = frame ∧ key = name
    · cases hget : frames.get? frame name <;> simp [haim]
    · simp only [if_neg haim]
      exact if_neg fun h => haim ⟨h.1, h.2.1⟩
  cases operation with
  | child outer => exact get?_child ..
  | define target key value =>
      simp only [apply, offered?, defines, get?_define]
      have hlt : target < frames.size := hhandle
      by_cases haim : target = frame ∧ key = name
      · simp [haim, haim.1 ▸ hlt]
      · simp only [if_neg haim]
        exact if_neg fun h => haim ⟨h.1, h.2.1⟩
  | assign target key value =>
      simpa [apply, offered?, defines] using hassign target key value
  | assignAt start distance key value =>
      simp only [apply, offered?, defines, Frames.assignAt, Bool.false_or]
      cases frames.ancestor? distance start with
      | none => simp
      | some target => simpa using hassign target key value

end Operation

/-! ## Histories -/

namespace Grown

variable {history : List Operation} {frames : Frames}

theorem rooted (h : Grown history frames) : frames.Rooted := by
  induction h with
  | root => exact .root
  | step _ hhandle ih => exact Operation.rooted_apply ih hhandle

/-- The handles of earlier operations are still there. -/
theorem handles (h : Grown history frames) :
    ∀ operation ∈ history, operation.handle < frames.size := by
  induction h with
  | root => simp
  | @step history frames last _ hhandle ih =>
      have hle := last.le_size_apply frames
      intro operation hmem
      rcases List.mem_append.1 hmem with hmem | hmem
      · exact Nat.lt_of_lt_of_le (ih operation hmem) hle
      · obtain rfl := List.mem_singleton.1 hmem
        exact Nat.lt_of_lt_of_le hhandle hle

/-- Every frame but the root has been made in the order of the numbers. -/
theorem size_eq (h : Grown history frames) :
    frames.size = (history.filterMap Operation.parent?).length + 1 := by
  induction h with
  | root => rfl
  | @step history frames operation _ _ ih =>
      rw [List.filterMap_append, List.length_append]
      cases hparent : operation.parent? with
      | none => simp [Operation.size_apply hparent, ih, hparent]
      | some outer =>
          cases operation <;> cases hparent
          simp [Operation.apply, Operation.parent?, ih]

/-- Around a frame is the one by whose handle it has been made. -/
theorem enclosing?_succ (h : Grown history frames) (i : Nat) :
    frames.enclosing? (i + 1) = (history.filterMap Operation.parent?)[i]? := by
  induction h with
  | root => rfl
  | @step history frames operation h _ ih =>
      rw [List.filterMap_append]
      rcases operation.apply_cases frames with
        ⟨outer, rfl⟩ | ⟨hparent, hsame | ⟨target, key, value, hdefine⟩⟩
      · have hparents : [Operation.child outer].filterMap Operation.parent? = [outer] := rfl
        rw [Operation.apply, enclosing?_child, ih, hparents, h.size_eq]
        grind
      · simp [hsame, hparent, ih]
      · simp [hdefine, hparent, ih]

/-- A new frame is one deeper than the frame around it. -/
theorem depths_step (history : List Operation) (operation : Operation) :
    depths (history ++ [operation]) = depths history ++
      (operation.parent?.map fun parent => (depths history).getD parent 0 + 1).toList := by
  cases hparent : operation.parent? <;> simp [depths, hparent]

theorem length_depths (h : Grown history frames) : (depths history).length = frames.size := by
  induction h with
  | root => rfl
  | @step history frames operation h _ ih =>
      rw [depths_step, List.length_append, ih]
      cases hparent : operation.parent? with
      | none => exact (Operation.size_apply hparent frames).symm
      | some outer =>
          cases operation <;> cases hparent
          exact (size_child frames outer).symm

/-- From a frame one gets out as many times as it is deep. -/
theorem isSome_ancestor? (h : Grown history frames) {frame : FrameId} (hlt : frame < frames.size)
    (distance : Nat) :
    (frames.ancestor? distance frame).isSome ↔ distance ≤ (depths history).getD frame 0 := by
  induction h generalizing frame distance with
  | root =>
      obtain rfl : frame = 0 := Nat.lt_one_iff.1 hlt
      cases distance with
      | zero => simp [Frames.ancestor?]
      | succ distance => simp [Frames.ancestor?, depths, Frames.Rooted.root.outermost]
  | @step history frames operation h hhandle ih =>
      have hlength := h.length_depths
      by_cases hold : frame < frames.size
      · have hdepth : (depths (history ++ [operation])).getD frame 0 =
            (depths history).getD frame 0 := by
          rw [depths_step, List.getD_eq_getElem?_getD, List.getElem?_append_left (hlength ▸ hold),
            ← List.getD_eq_getElem?_getD]
        rw [operation.ancestor?_apply h.rooted distance hold, hdepth]
        exact ih hold distance
      · -- A frame that was not there before is the one that the operation has made.
        cases operation with
        | child outer =>
            have houter : outer < frames.size := hhandle
            rw [Operation.apply, size_child] at hlt
            obtain rfl : frame = frames.size :=
              Nat.le_antisymm (Nat.le_of_lt_succ hlt) (Nat.le_of_not_lt hold)
            have hdepth : (depths (history ++ [.child outer])).getD frames.size 0 =
                (depths history).getD outer 0 + 1 := by
              simp [depths_step, Operation.parent?, ← hlength]
            rw [hdepth, Operation.apply]
            cases distance with
            | zero => simp [Frames.ancestor?]
            | succ distance =>
                rw [h.rooted.ancestor?_new houter, Nat.succ_le_succ_iff]
                exact ih houter distance
        | define _ _ _ | assign _ _ _ | assignAt _ _ _ _ =>
            rw [Operation.size_apply (by rfl)] at hlt
            exact absurd hlt hold

end Grown

/-! ## What has been written -/

theorem Operation.isSome_offered? (frames : Frames) {operation : Operation} {frame : FrameId}
    {name : String} (h : operation.defines frame name) :
    (operation.offered? frames frame name).isSome := by
  cases operation with
  | define target key value =>
      have haim : target = frame ∧ key = name := by simpa [defines] using h
      simp [offered?, haim]
  | child _ | assign _ _ _ | assignAt _ _ _ _ => cases h

/-- A value has been written exactly if the name has been defined. -/
theorem isSome_written? (history : List Operation) (frames : Frames) (frame : FrameId)
    (name : String) :
    (written? history frames frame name).isSome = history.any (·.defines frame name) := by
  rw [written?]
  split
  · rename_i hdefined
    obtain ⟨operation, hmem, hdefines⟩ := List.any_eq_true.1 hdefined
    obtain ⟨value, hvalue⟩ := Option.isSome_iff_exists.1
      (Operation.isSome_offered? frames hdefines)
    have hoffered := List.mem_filterMap.2 ⟨operation, hmem, hvalue⟩
    rw [hdefined, List.getLast?_eq_getLast_of_ne_nil (List.ne_nil_of_mem hoffered)]
    rfl
  · simp_all

namespace Grown

variable {history : List Operation} {frames : Frames}

/-- Only a later operation can change what has been written last. -/
theorem written?_step (h : Grown history frames) {operation : Operation}
    (hhandle : operation.handle < frames.size) (frame : FrameId) (name : String) :
    written? (history ++ [operation]) (operation.apply frames) frame name =
      if history.any (·.defines frame name) || operation.defines frame name then
        (operation.offered? frames frame name).or
          (history.filterMap (·.offered? frames frame name)).getLast?
      else none := by
  have hsame : history.filterMap (·.offered? (operation.apply frames) frame name) =
      history.filterMap (·.offered? frames frame name) :=
    List.filterMap_congr fun other hmem =>
      Operation.offered?_apply operation h.rooted (h.handles other hmem)
  have hlast : [operation].filterMap (·.offered? (operation.apply frames) frame name) =
      (operation.offered? frames frame name).toList := by
    rw [List.filterMap_cons, Operation.offered?_apply operation h.rooted hhandle]
    cases operation.offered? frames frame name <;> rfl
  rw [written?, List.filterMap_append, hsame, hlast]
  cases operation.offered? frames frame name <;> simp [List.any_append]

/-- Every name has in every frame the value that has been written there last. -/
theorem get?_eq (h : Grown history frames) (frame : FrameId) (name : String) :
    frames.get? frame name = written? history frames frame name := by
  induction h with
  | root =>
      rcases frame with _ | frame <;> simp [written?, Frames.get?, Frames.root]
  | @step history frames operation h hhandle ih =>
      have hdefined := isSome_written? history frames frame name
      rw [Operation.get?_apply hhandle, h.written?_step hhandle, ih, hdefined, Bool.or_comm]
      cases hoffered : operation.offered? frames frame name with
      | some value => simp
      | none =>
          have hnot : operation.defines frame name = false := by
            rw [← Bool.not_eq_true]
            intro hdefines
            simpa [hoffered] using Operation.isSome_offered? frames hdefines
          simp [hnot, written?]

/-- An assignment finds a name exactly if the name has been defined in the frame. -/
theorem assign_eq (h : Grown history frames) (frame : FrameId) (name : String) (value : Value) :
    frames.assign frame name value =
      if history.any (·.defines frame name) then (true, frames.define frame name value)
      else (false, frames) := by
  rw [Frames.assign, h.get?_eq, isSome_written?]

theorem assigned (h : Grown history frames) (target? : Option FrameId) (name : String)
    (value : Value) :
    Assigned history frames target? name value
      (match target? with
      | some target => frames.assign target name value
      | none => (false, frames)) := by
  cases target? with
  | none => exact ⟨rfl, fun _ => rfl, by simp, fun _ => rfl⟩
  | some target =>
      dsimp only
      rw [h.assign_eq]
      cases hdefined : history.any (·.defines target name) with
      | false => exact ⟨hdefined.symm, fun _ => rfl, by simp, fun _ => rfl⟩
      | true =>
          have hbinds : frames.Binds target name := by
            rw [Binds, h.get?_eq, isSome_written?, hdefined]
          refine ⟨hdefined.symm, fun frame => enclosing?_define .., fun _ frame key => ?_, by simp⟩
          simp [get?_define, lt_size_of_binds hbinds]

/-- Operations by any handles grow one tree of maps: a frame lies as far out as the
operation that made it has said, and outwards one gets as many times as a frame is deep.
A read at a distance gives the value that was last written to the name in the frame
there, if the name has been defined in that very frame.  An assignment succeeds exactly
then, and changes that one value only.  No operation changes a value that it is not
aimed at. -/
theorem tree_of_maps (h : Grown history frames) :
    (∀ i, frames.ancestor? 1 (i + 1) = (history.filterMap Operation.parent?)[i]?) ∧
      (∀ frame < frames.size, ∀ distance,
        (frames.ancestor? distance frame).isSome ↔ distance ≤ (depths history).getD frame 0) ∧
      (∀ frame first second,
        (frames.ancestor? first frame).bind (frames.ancestor? second) =
          frames.ancestor? (first + second) frame) ∧
      (∀ frame distance name, frames.getAt? frame distance name =
        (frames.ancestor? distance frame).bind (written? history frames · name)) ∧
      (∀ frame name value,
        Assigned history frames (some frame) name value (frames.assign frame name value)) ∧
      (∀ frame distance name value,
        Assigned history frames (frames.ancestor? distance frame) name value
          (frames.assignAt frame distance name value)) ∧
      ∀ (operation : Operation) (frame : FrameId) (name : String),
        operation.handle < frames.size →
        operation.offered? frames frame name = none →
          (operation.apply frames).get? frame name = frames.get? frame name := by
  refine ⟨fun i => ?_, fun frame hlt distance => h.isSome_ancestor? hlt distance,
    fun frame first second => (ancestor?_add frames first second frame).symm,
    fun frame distance name => ?_, fun frame name value => h.assigned (some frame) name value,
    fun frame distance name value => ?_, fun operation frame name hhandle hoffered => ?_⟩
  · rw [← h.enclosing?_succ]
    exact Option.bind_fun_some _
  · exact congrArg _ (funext fun target => h.get?_eq target name)
  · exact h.assigned (frames.ancestor? distance frame) name value
  · rw [Operation.get?_apply hhandle, hoffered]

/-- A name of the root is written from a frame two steps further in that has the same
name itself. -/
theorem tree_of_shadowed_maps :
    let history : List Operation := [.define 0 "a" .nil, .child 0, .child 1,
      .define 2 "a" (.truth true), .assignAt 2 2 "a" (.truth false)]
    ∃ frames, Grown history frames ∧
      frames.getAt? 1 1 "a" = some (.truth false) ∧ frames.getAt? 2 0 "a" = some (.truth true) ∧
        (frames.assignAt 2 1 "a" .nil).1 = false := by
  intro history
  have hdefine : Grown [.define 0 "a" .nil] _ := .step .root (by decide)
  have hchild : Grown [.define 0 "a" .nil, .child 0] _ := hdefine.step (by decide)
  have hinner : Grown [.define 0 "a" .nil, .child 0, .child 1] _ := hchild.step (by decide)
  have hshadow : Grown [.define 0 "a" .nil, .child 0, .child 1, .define 2 "a" (.truth true)] _ :=
    hinner.step (by decide)
  have h : Grown history _ := hshadow.step (by decide)
  obtain ⟨-, -, -, hread, -, hassign, -⟩ := tree_of_maps h
  refine ⟨_, h, ?_, ?_, ?_⟩
  · rw [hread]
    rfl
  · rw [hread]
    rfl
  · rw [(hassign 2 1 "a" .nil).found]
    rfl

end Grown

end Lox.Frames
