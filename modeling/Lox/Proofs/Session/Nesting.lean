import Lox.Proofs.Machine.Enduring
import Lox.Proofs.Scope.Receivers
import Lox.Proofs.Session.Addressing

/-!
# Frames inside class bodies

The frame of a block is inside the one in which the block begins, that of a call inside
the frame of the function that is called.  Along these one comes from any place inside
a class body to a frame in which a method has been bound, and the distance of the
receiver leads to the same frame.
-/

namespace Lox

namespace Moment

/-- The frame around the one that is made at the moment, if that is for a block or a
call: the frame in which the block begins, or that of the function that is called. -/
def outer? (moment : Moment) : Option FrameId :=
  match moment.task with
  | .stmt (.block _) => some moment.machine.current
  | .invoke closure _ => some closure.frame
  | _ => none

/-- From the frame one comes to the frame `target` along the blocks and the calls of
the moments.  No way leads on from a frame in which a method has been bound: a method
of a class that is declared inside another method is not nested in that one. -/
inductive Nested (moments : List Moment) (target : FrameId) : FrameId → Prop where
  | here : Nested moments target target
  | inside {moment : Moment} {outer : FrameId} (hmoment : moment ∈ moments)
    (houter : moment.outer? = some outer) (h : Nested moments target outer) :
    Nested moments target moment.frame

theorem Opens.outer {moment : Moment} {frames : Frames} {outer : FrameId}
    (h : moment.Opens frames) (houter : moment.outer? = some outer) :
    frames.enclosing? moment.frame = some outer := by
  unfold outer? at houter
  split at houter <;> rename_i htask
  case h_3 => cases houter
  all_goals
    obtain rfl := Option.some.inj houter
    rwa [Opens, htask] at h

theorem region_of_outer {moment : Moment} {outer : FrameId} (h : moment.outer? = some outer) :
    ∃ region, moment.region? = some region ∧ region.isClassBody = false := by
  unfold outer? at h
  split at h <;> rename_i htask
  case h_3 => cases h
  all_goals exact ⟨_, by rw [region?, htask], rfl⟩

/-- A frame is made for a block, for a call or in which a method is bound. -/
theorem region_cases {moment : Moment} {region : Region} (h : moment.region? = some region) :
    (∃ outer, moment.outer? = some outer ∧ region.isClassBody = false) ∨
      ∃ method this, moment.task = .bind method this := by
  unfold region? at h
  split at h <;> rename_i htask
  case h_3 method this => exact .inr ⟨method, this, htask⟩
  case h_4 => cases h
  all_goals
    obtain rfl := Option.some.inj h
    exact .inl ⟨_, by rw [outer?, htask], rfl⟩

/-- Whether one comes from the frame to `target` in so many steps. -/
def nests (moments : List Moment) (target : FrameId) : Nat → FrameId → Bool
  | 0, frame => frame == target
  | steps + 1, frame => moments.any fun moment =>
    moment.frame == frame && moment.outer?.any (nests moments target steps)

theorem nested_of_nests {moments : List Moment} {target frame : FrameId} {steps : Nat}
    (h : nests moments target steps frame) : Nested moments target frame := by
  induction steps generalizing frame with
  | zero => exact eq_of_beq h ▸ .here
  | succ steps ih =>
      obtain ⟨moment, hmoment, hframe⟩ := List.any_eq_true.1 h
      obtain ⟨hframe, houter⟩ := (Bool.and_eq_true _ _).mp hframe
      obtain ⟨outer, houter, hnests⟩ := (Option.any_eq_true _ _).1 houter
      exact eq_of_beq hframe ▸ .inside hmoment houter (ih hnests)

/-- A frame with a label is made at a moment for its region. -/
theorem Numbered.of_label {moments : List Moment} {frame : FrameId} {region : Region}
    (h : Numbered 1 moments) (hlabel : labelOf (labels moments) frame = some region) :
    ∃ made ∈ moments, made.region? = some region ∧ made.frame = frame := by
  cases frame with
  | zero => cases hlabel
  | succ i =>
      obtain ⟨made, hmade, hregion, hframe⟩ := h.made hlabel
      exact ⟨made, hmade, hregion, hframe.trans (Nat.add_comm 1 i)⟩

end Moment

namespace Stands

variable {moments : List Moment} {frames last : Frames} {frame : FrameId}
variable {regions : List Region} {scopes : List Scope} {distance : Nat}

/-- Where a frame is in the end, it is from the beginning. -/
theorem outer_eq (hretains : frames.Retains last) {outer around : FrameId}
    (henclosing : frames.enclosing? frame = some outer)
    (hopened : last.enclosing? frame = some around) : outer = around := by
  have hsame := hretains.enclosing? frame (Frames.lt_size_of_enclosing? henclosing)
  exact Option.some.inj (henclosing.symm.trans (hsame.symm.trans hopened))

/-- Inside a class body one comes to a frame in which a method has been bound. -/
theorem exists_bound (h : Stands frames (Moment.labels moments) frame regions scopes)
    (hnumbered : Moment.Numbered 1 moments) (hretains : frames.Retains last)
    (hlasts : ∀ moment ∈ moments, moment.Lasts last)
    (hdistance : regions.findIdx? Region.isClassBody = some distance) :
    ∃ bound ∈ moments, ∃ method this, bound.task = .bind method this ∧
      Moment.Nested moments bound.frame frame := by
  induction h generalizing distance with
  | globals => cases hdistance
  | inside henclosing hlabel _ _ ih =>
      obtain ⟨made, hmade, hregion, rfl⟩ := hnumbered.of_label hlabel
      rcases Moment.region_cases hregion with ⟨around, hmadeOuter, hbody⟩ | ⟨method, this, hbind⟩
      · have hopened := (hlasts made hmade).opens.outer hmadeOuter
        obtain rfl := outer_eq hretains henclosing hopened
        rw [List.findIdx?_cons, hbody] at hdistance
        obtain ⟨inner, hinner, -⟩ := Option.map_eq_some_iff.1 hdistance
        obtain ⟨bound, hbound, method, this, hbind, hnested⟩ := ih hinner
        exact ⟨bound, hbound, method, this, hbind, .inside hmade hmadeOuter hnested⟩
      · exact ⟨made, hmade, method, this, hbind, .here⟩

/-- From the frame of a block or a call the distance leads on from the frame around. -/
theorem outwards (h : Stands frames (Moment.labels moments) frame regions scopes)
    (hretains : frames.Retains last) {region : Region} {around : FrameId}
    (hlabel : labelOf (Moment.labels moments) frame = some region)
    (hregion : region.isClassBody = false) (hopened : last.enclosing? frame = some around)
    (hdistance : regions.findIdx? Region.isClassBody = some distance) :
    ∃ inner outer scopes', Stands frames (Moment.labels moments) around outer scopes' ∧
      outer.findIdx? Region.isClassBody = some inner ∧
        frames.ancestor? distance frame = frames.ancestor? inner around := by
  cases h with
  | globals => cases hdistance
  | inside henclosing hfound _ houter =>
      obtain rfl := outer_eq hretains henclosing hopened
      obtain rfl := Option.some.inj (hlabel.symm.trans hfound)
      rw [List.findIdx?_cons, hregion] at hdistance
      obtain ⟨inner, hinner, rfl⟩ := Option.map_eq_some_iff.1 hdistance
      refine ⟨inner, _, _, houter, hinner, ?_⟩
      rw [Frames.ancestor?, henclosing]
      rfl

/-- The frame of a class body is itself the one that the distance leads to. -/
theorem ancestor_body (h : Stands frames (Moment.labels moments) frame regions scopes)
    {method : FunctionDecl}
    (hlabel : labelOf (Moment.labels moments) frame = some (.classBody method))
    (hdistance : regions.findIdx? Region.isClassBody = some distance) :
    frames.ancestor? distance frame = some frame := by
  cases h with
  | globals => cases hdistance
  | inside _ hfound _ _ =>
      obtain rfl := Option.some.inj (hlabel.symm.trans hfound)
      cases hdistance
      rfl

/-- The distance of a receiver leads to the frame in which the method around it has been
bound. -/
theorem ancestor_nested (h : Stands frames (Moment.labels moments) frame regions scopes)
    (hnumbered : Moment.Numbered 1 moments) (hretains : frames.Retains last)
    (hlasts : ∀ moment ∈ moments, moment.Lasts last)
    (hdistance : regions.findIdx? Region.isClassBody = some distance) {bound : Moment}
    {method : Closure} {this : Value} (hbound : bound ∈ moments)
    (hbind : bound.task = .bind method this)
    (hnested : Moment.Nested moments bound.frame frame) :
    frames.ancestor? distance frame = some bound.frame := by
  have hlabelled := hnumbered.labelled
  -- On the way out the distance, the regions and the frame all lose their innermost step.
  induction hnested generalizing regions scopes distance with
  | here =>
      have hregion : bound.region? = some (.classBody method.declaration) := by
        rw [Moment.region?, hbind]
      exact h.ancestor_body (hlabelled bound hbound _ hregion) hdistance
  | @inside made around hmade hmadeOuter _ ih =>
      obtain ⟨region, hregion, hbody⟩ := Moment.region_of_outer hmadeOuter
      have hopened := (hlasts made hmade).opens.outer hmadeOuter
      obtain ⟨inner, outer, scopes', houter, hinner, hancestor⟩ :=
        h.outwards hretains (hlabelled made hmade region hregion) hbody hopened hdistance
      exact hancestor.trans (ih houter hinner)

end Stands

end Lox
