import Lox.Value.Display
import Mathlib.Data.Finset.Card
import Mathlib.Data.Finset.Range
import Mathlib.Data.Finset.SDiff
import Mathlib.Logic.Relation

/-!
# How lists are shown

Writing a value keeps the lists that are being written on a stack that all calls share.
It comes to an end for all lists, however they contain each other, and gives the text
that one gets by handing the lists around a value on to its elements instead.  The
stack is the same behind every element as before it, so that a list is cut only where
it is met inside itself.
-/

namespace Lox

variable {lists : Array (Array Value)}

namespace Rendering

def elements (lists : Array (Array Value)) (list : ListId) : List Value :=
  (lists.getD list #[]).toList

/-- The list has the other one as an element. -/
def Holds (lists : Array (Array Value)) (outer inner : ListId) : Prop :=
  .list inner ∈ elements lists outer

/-- The lists that can still be opened. -/
def unopened (lists : Array (Array Value)) (path : Finset ListId) : Finset ListId :=
  Finset.range lists.size \ path

/-- Opening a list that has elements leaves fewer lists to open. -/
theorem card_unopened_insert {list : ListId} {path : Finset ListId} {value : Value}
    (hnew : list ∉ path) (hmem : value ∈ elements lists list) :
    (unopened lists (insert list path)).card < (unopened lists path).card := by
  have hlt : list < lists.size := by
    by_contra hge
    simp [elements, Array.getD, hge] at hmem
  refine Finset.card_lt_card (Finset.ssubset_iff_of_subset ?_ |>.2 ⟨list, ?_, ?_⟩)
  · exact Finset.sdiff_subset_sdiff Finset.Subset.rfl (Finset.subset_insert ..)
  · simp [unopened, hlt, hnew]
  · simp [unopened]

end Rendering

open Rendering

/-- The text of a value inside the lists on the path. -/
def Value.shown (lists : Array (Array Value)) (path : Finset ListId) : Value → String
  | .list id =>
    if id ∈ path then "[...]"
    else
      "[" ++ ", ".intercalate ((elements lists id).attach.map fun ⟨value, _⟩ =>
        value.shown lists (insert id path)) ++ "]"
  | value => value.plainText
termination_by (unopened lists path).card
decreasing_by exact card_unopened_insert ‹_› ‹_›

namespace Value

theorem shown_plain {value : Value} (h : ∀ id, value ≠ .list id) (path : Finset ListId) :
    value.shown lists path = value.plainText := by
  rw [shown]
  exact h

theorem shown_cut {id : ListId} {path : Finset ListId} (h : id ∈ path) :
    (list id).shown lists path = "[...]" := by
  rw [shown, if_pos h]

theorem shown_brackets {id : ListId} {path : Finset ListId} (h : id ∉ path) :
    (list id).shown lists path =
      "[" ++ ", ".intercalate ((elements lists id).map (shown lists (insert id path))) ++ "]" := by
  rw [shown, if_neg h]
  exact congrArg (fun texts => "[" ++ ", ".intercalate texts ++ "]") (List.attach_map_val ..)

end Value

namespace Rendering

mutual

/-- Writing a value, as the stack of lists that are being written has it: what is
written and what is on the stack before and after. -/
inductive Writes (lists : Array (Array Value)) : Value → Rendering → Rendering → Prop where
  | plain {value : Value} (h : ∀ id, value ≠ .list id) (before : Rendering) :
    Writes lists value before (before.put value.plainText)
  | cut {id : ListId} {before : Rendering} (h : id ∈ before.opened) :
    Writes lists (.list id) before (before.put "[...]")
  | brackets {id : ListId} {before after : Rendering} (h : id ∉ before.opened)
    (helements : Separates lists (elements lists id) ((before.openList id).put "[") after) :
    Writes lists (.list id) before (after.closeList.put "]")

/-- Writing values one after the other with commas between them. -/
inductive Separates (lists : Array (Array Value)) :
    List Value → Rendering → Rendering → Prop where
  | none (rendering : Rendering) : Separates lists [] rendering rendering
  | one {value : Value} {before after : Rendering} (h : Writes lists value before after) :
    Separates lists [value] before after
  | more {value next : Value} {values : List Value} {before between after : Rendering}
    (h : Writes lists value before between)
    (hmore : Separates lists (next :: values) (between.put ", ") after) :
    Separates lists (value :: next :: values) before after

end

/-- A place at which a value is met when another one is shown: the lists around it, the
innermost first.  The elements of a list are met there only if it is not cut. -/
inductive Meets (lists : Array (Array Value)) (root : Value) : List ListId → Value → Prop where
  | root : Meets lists root [] root
  | element {path : List ListId} {id : ListId} {value : Value}
    (h : Meets lists root path (.list id)) (hnew : id ∉ path)
    (hmem : value ∈ elements lists id) : Meets lists root (id :: path) value

/-! ## What is written -/

mutual

/-- Whatever is written is the text of the value, and the stack is as it was before. -/
theorem Writes.eq_shown : ∀ {value : Value} {before after : Rendering},
    Writes lists value before after →
      after = before.put (value.shown lists before.opened.toFinset)
  | _, _, _, .plain h _ => by rw [Value.shown_plain h]
  | _, _, _, .cut h => by rw [Value.shown_cut (List.mem_toFinset.2 h)]
  | _, before, _, .brackets h helements => by
      have hafter := helements.eq_shown
      rw [Value.shown_brackets (List.mem_toFinset.not.2 h), hafter]
      simp [put, openList, closeList, String.append_assoc]

theorem Separates.eq_shown : ∀ {values : List Value} {before after : Rendering},
    Separates lists values before after →
      after = before.put
        (", ".intercalate (values.map (Value.shown lists before.opened.toFinset)))
  | _, _, _, .none _ => by simp [put]
  | _, _, _, .one h => by simpa using h.eq_shown
  | _, _, _, .more h hmore => by
      have hbetween := h.eq_shown
      have hafter := hmore.eq_shown
      rw [hafter, hbetween]
      simp [put, String.append_assoc]

end

/-- Values are written one after the other if the function writes each of them. -/
theorem separates_separated {write : Value → Rendering → Rendering} {values : List Value}
    {before : Rendering}
    (h : ∀ value ∈ values, ∀ rendering : Rendering, rendering.opened = before.opened →
      Writes lists value rendering (write value rendering)) :
    Separates lists values before (separated write values before) := by
  fun_induction separated write values before with
  | case1 before => exact .none before
  | case2 value before => exact .one (h value List.mem_cons_self before rfl)
  | case3 value values before hne ih =>
      obtain ⟨next, values, rfl⟩ := List.exists_cons_of_ne_nil (by simpa using hne)
      have hvalue := h value List.mem_cons_self before rfl
      refine .more hvalue (ih fun other hmem rendering hopened => ?_)
      refine h other (List.mem_cons_of_mem _ hmem) rendering (hopened.trans ?_)
      rw [hvalue.eq_shown]
      rfl

/-- No more lists are opened inside each other than there are lists that are not open. -/
theorem writes_write {depth : Nat} {value : Value} {before : Rendering}
    (h : (unopened lists before.opened.toFinset).card < depth) :
    Writes lists value before (write lists depth value before) := by
  induction depth generalizing value before with
  | zero => exact absurd h (Nat.not_lt_zero _)
  | succ depth ih =>
      cases value with
      | list id =>
          rw [write]
          split
          · rename_i hopen
            exact .cut (by simpa using hopen)
          · rename_i hnew
            have hnew : id ∉ before.opened := by simpa using hnew
            refine .brackets hnew (separates_separated fun value hmem rendering hopened => ih ?_)
            -- Opening the list uses up one level of depth and leaves one list fewer to open.
            have hless := card_unopened_insert (List.mem_toFinset.not.2 hnew) hmem
            rw [hopened]
            simpa [put, openList] using Nat.lt_of_lt_of_le hless (Nat.le_of_lt_succ h)
      | _ => exact .plain (by simp) before

/-! ## What is cut -/

variable {root : Value} {path : List ListId} {id : ListId}

/-- A list that is met is inside all lists around it. -/
theorem Meets.nested (h : Meets lists root path (.list id)) {outer : ListId}
    (hmem : outer ∈ path) : Relation.TransGen (Holds lists) outer id := by
  generalize hvalue : Value.list id = value at h
  induction h generalizing id with
  | root => cases hmem
  | @element path inner value _ _ hinner ih =>
      subst hvalue
      rcases List.mem_cons.1 hmem with rfl | hmem
      · exact .single hinner
      · exact (ih hmem rfl).tail hinner

/-- Where nothing is cut one gets to everything that is inside a list. -/
theorem Meets.exists_nested (hnone : ∀ path id, Meets lists root path (.list id) → id ∉ path)
    (h : Meets lists root path (.list id)) {inner : ListId}
    (hnested : Relation.TransGen (Holds lists) id inner) :
    ∃ path, id ∈ path ∧ Meets lists root path (.list inner) := by
  induction hnested with
  | single hinner => exact ⟨id :: path, List.mem_cons_self, h.element (hnone _ _ h) hinner⟩
  | @tail middle inner _ hinner ih =>
      obtain ⟨path, hmem, hmiddle⟩ := ih
      exact ⟨middle :: path, List.mem_cons_of_mem _ hmem,
        hmiddle.element (hnone _ _ hmiddle) hinner⟩

/-- Something is cut exactly if one gets to a list that is inside itself. -/
theorem exists_cut_iff (lists : Array (Array Value)) (root : Value) :
    (∃ path id, Meets lists root path (.list id) ∧ id ∈ path) ↔
      ∃ path id, Meets lists root path (.list id) ∧ Relation.TransGen (Holds lists) id id := by
  constructor
  · rintro ⟨path, id, h, hmem⟩
    exact ⟨path, id, h, h.nested hmem⟩
  · rintro ⟨path, id, h, hnested⟩
    by_contra! hnone
    obtain ⟨path, hmem, hagain⟩ := h.exists_nested hnone hnested
    exact hnone path id hagain hmem

/-- Writing a value comes to an end for all lists, whatever is being written already.
It writes the text of the value inside the lists on the stack and leaves the stack as it
was; the bound on the depth of lists is no restriction.  So a value that is printed has
the text of the value inside no list.  A list that is not inside itself is never cut,
and something is cut exactly if one gets to a list that is inside itself. -/
theorem writes_shown (lists : Array (Array Value)) (value : Value) :
    (∀ before, ∃ after, Writes lists value before after) ∧
      (∀ before after, Writes lists value before after →
        after.text = before.text ++ value.shown lists before.opened.toFinset ∧
          after.opened = before.opened) ∧
      (∀ before depth, lists.size < depth →
        Writes lists value before (write lists depth value before)) ∧
      value.display lists = value.shown lists ∅ ∧
      (∀ path id, Meets lists value path (.list id) →
        ¬Relation.TransGen (Holds lists) id id → id ∉ path) ∧
      ((∃ path id, Meets lists value path (.list id) ∧ id ∈ path) ↔
        ∃ path id, Meets lists value path (.list id) ∧
          Relation.TransGen (Holds lists) id id) := by
  have hwrite (before : Rendering) (depth : Nat) (hdepth : lists.size < depth) :
      Writes lists value before (write lists depth value before) := by
    refine writes_write (Nat.lt_of_le_of_lt ?_ hdepth)
    calc
      (unopened lists before.opened.toFinset).card ≤ (Finset.range lists.size).card :=
        Finset.card_le_card Finset.sdiff_subset
      _ = lists.size := Finset.card_range _
  refine ⟨fun before => ⟨_, hwrite before _ (Nat.lt_succ_self _)⟩, fun before after h => ?_,
    hwrite, ?_, fun path id h hnot hmem => hnot (h.nested hmem), exists_cut_iff lists value⟩
  · rw [h.eq_shown]
    exact ⟨rfl, rfl⟩
  · rw [Value.display, (hwrite {} _ (Nat.lt_succ_self _)).eq_shown]
    simp [put]

/-- A list inside itself is cut there, and a list that occurs twice is not. -/
example :
    (Value.list 0).display #[#[.nil, .list 0, .list 1, .list 1], #[.truth true]] =
      "[nil, [...], [true], [true]]" := by
  decide +kernel

end Rendering

end Lox
