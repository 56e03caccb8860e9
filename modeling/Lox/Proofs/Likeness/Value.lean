import Lox.Value.Display
import Lox.Value.Operators
import Mathlib.Data.List.Forall2

/-!
# Values that are alike

Two values are alike if they differ in nothing but the functions and classes in
them.  Which functions and classes correspond to each other is left open; they
have the same identities and names.  Operators cannot tell such values apart, and
they are shown in the same way.
-/

namespace Lox

/-- Which functions and which classes of two machines correspond to each other. -/
structure Likeness where
  functions : Closure → Closure → Prop
  classes : ClassValue → ClassValue → Prop
  identity_function {closure closure' : Closure} (h : functions closure closure') :
    closure.identity = closure'.identity
  name_function {closure closure' : Closure} (h : functions closure closure') :
    closure.name = closure'.name
  identity_class {cls cls' : ClassValue} (h : classes cls cls') : cls.identity = cls'.identity
  name_class {cls cls' : ClassValue} (h : classes cls cls') : cls.name = cls'.name

/-- What is alike in one sense is so in another. -/
structure Likeness.Within (l more : Likeness) : Prop where
  functions {closure closure' : Closure} (h : l.functions closure closure') :
    more.functions closure closure'
  classes {cls cls' : ClassValue} (h : l.classes cls cls') : more.classes cls cls'

inductive Value.Like (l : Likeness) : Value → Value → Prop where
  | nil : Like l .nil .nil
  | truth (value : Bool) : Like l (.truth value) (.truth value)
  | number (value : Float) : Like l (.number value) (.number value)
  | text (value : String) : Like l (.text value) (.text value)
  | function {closure closure' : Closure} (h : l.functions closure closure') :
    Like l (.function closure) (.function closure')
  | native (native : Native) : Like l (.native native) (.native native)
  | classValue {cls cls' : ClassValue} (h : l.classes cls cls') :
    Like l (.classValue cls) (.classValue cls')
  | object {cls cls' : ClassValue} (h : l.classes cls cls') (id : InstanceId) :
    Like l (.object cls id) (.object cls' id)
  | list (id : ListId) : Like l (.list id) (.list id)

/-- The values are alike one by one. -/
abbrev Value.AllLike (l : Likeness) (values values' : Array Value) : Prop :=
  List.Forall₂ (Value.Like l) values.toList values'.toList

/-- The same error, or values that are alike. -/
inductive Value.ResultsLike (l : Likeness) :
    Except RuntimeError Value → Except RuntimeError Value → Prop where
  | ok {value value' : Value} (h : value.Like l value') : ResultsLike l (.ok value) (.ok value')
  | error (error : RuntimeError) : ResultsLike l (.error error) (.error error)

namespace Value

variable {l more : Likeness} {value value' left left' right right' : Value}

theorem Like.mono (hwithin : l.Within more) (h : value.Like l value') :
    value.Like more value' := by
  cases h with
  | nil => exact .nil
  | truth value => exact .truth value
  | number value => exact .number value
  | text value => exact .text value
  | function hclosure => exact .function (hwithin.functions hclosure)
  | native native => exact .native native
  | classValue hcls => exact .classValue (hwithin.classes hcls)
  | object hcls id => exact .object (hwithin.classes hcls) id
  | list id => exact .list id

theorem like_literal (literal : Literal) : literal.eval.Like l literal.eval := by
  cases literal with
  | nil => exact .nil
  | truth value => exact .truth value
  | number value => exact .number value
  | text value => exact .text value

theorem Like.isTruthy (h : value.Like l value') : value.isTruthy = value'.isTruthy := by
  cases h <;> rfl

theorem Like.equals (hleft : left.Like l left') (hright : right.Like l right') :
    left.equals right = left'.equals right' := by
  cases hleft with
  | function h =>
      cases hright with
      | function hother =>
          simp only [Value.equals, l.identity_function h, l.identity_function hother]
      | _ => rfl
  | classValue h =>
      cases hright with
      | classValue hother => simp only [Value.equals, l.identity_class h, l.identity_class hother]
      | _ => rfl
  | _ => cases hright <;> rfl

/-! ## Operators -/

theorem Like.applyUnary (h : value.Like l value') (operator : Kind) :
    ResultsLike l (value.applyUnary operator) (value'.applyUnary operator) := by
  simp only [Value.applyUnary]
  split
  · cases h with
    | number x => exact .ok (.number _)
    | _ => exact .error _
  · rw [h.isTruthy]
    exact .ok (.truth _)
  · exact .error _

theorem Like.onNumbers {operation : Float → Float → Value}
    (hoperation : ∀ a b, (operation a b).Like l (operation a b)) (hleft : left.Like l left')
    (hright : right.Like l right') :
    ResultsLike l (Value.onNumbers operation left right)
      (Value.onNumbers operation left' right') := by
  cases hleft with
  | number a =>
      cases hright with
      | number b => exact .ok (hoperation a b)
      | _ => exact .error _
  | _ => exact .error _

theorem Like.add (hleft : left.Like l left') (hright : right.Like l right') :
    ResultsLike l (left.add right) (left'.add right') := by
  cases hleft with
  | number a =>
      cases hright with
      | number b => exact .ok (.number _)
      | _ => exact .error _
  | text a =>
      cases hright with
      | text b => exact .ok (.text _)
      | _ => exact .error _
  | _ => exact .error _

theorem Like.applyBinary (hleft : left.Like l left') (hright : right.Like l right')
    (operator : Kind) :
    ResultsLike l (left.applyBinary operator right) (left'.applyBinary operator right') := by
  have hnumber : ∀ operation : Float → Float → Float,
      ResultsLike l (Value.onNumbers (fun a b => Value.number (operation a b)) left right)
        (Value.onNumbers (fun a b => Value.number (operation a b)) left' right') :=
    fun _ => hleft.onNumbers (fun _ _ => .number _) hright
  have htruth : ∀ operation : Float → Float → Bool,
      ResultsLike l (Value.onNumbers (fun a b => Value.truth (operation a b)) left right)
        (Value.onNumbers (fun a b => Value.truth (operation a b)) left' right') :=
    fun _ => hleft.onNumbers (fun _ _ => .truth _) hright
  simp only [Value.applyBinary]
  rw [hleft.equals hright]
  split
  · exact hleft.add hright
  · exact hnumber _
  · exact hnumber _
  · exact hnumber _
  · exact htruth _
  · exact htruth _
  · exact htruth _
  · exact htruth _
  · exact .ok (.truth _)
  · exact .ok (.truth _)
  · exact .error _

/-! ## How values are shown -/

theorem Like.plainText (h : value.Like l value') : value.plainText = value'.plainText := by
  cases h with
  | function h => simp only [Value.plainText, l.name_function h]
  | classValue h => exact l.name_class h
  | object h id => simp only [Value.plainText, l.name_class h]
  | _ => rfl

end Value

/-- There are as many lists on both sides, and their elements are alike. -/
structure Lists.Like (l : Likeness) (lists lists' : Array (Array Value)) : Prop where
  size : lists.size = lists'.size
  elements (list : ListId) : Value.AllLike l (lists.getD list #[]) (lists'.getD list #[])

variable {l : Likeness}

namespace Rendering

theorem separated_like {write write' : Value → Rendering → Rendering}
    {values values' : List Value}
    (hwrite : ∀ {value value' : Value}, value.Like l value' →
      ∀ rendering, write value rendering = write' value' rendering)
    (h : List.Forall₂ (Value.Like l) values values') (rendering : Rendering) :
    separated write values rendering = separated write' values' rendering := by
  induction h generalizing rendering with
  | nil => rfl
  | @cons value value' values values' hvalue hvalues ih =>
      cases hvalues with
      | nil => exact hwrite hvalue rendering
      | @cons next next' rest rest' _ _ =>
          calc separated write (value :: next :: rest) rendering
            _ = separated write (next :: rest) ((write value rendering).put ", ") := rfl
            _ = separated write (next :: rest) ((write' value' rendering).put ", ") := by
              rw [hwrite hvalue]
            _ = separated write' (next' :: rest') ((write' value' rendering).put ", ") := ih _

theorem write_plain {lists : Array (Array Value)} {depth : Nat} {value : Value}
    (h : ∀ id, value ≠ .list id) (rendering : Rendering) :
    write lists depth value rendering = rendering.put value.plainText := by
  cases value with
  | list id => exact absurd rfl (h id)
  | _ => cases depth <;> rfl

theorem write_like {lists lists' : Array (Array Value)} (hlists : Lists.Like l lists lists')
    (depth : Nat) {value value' : Value} (h : value.Like l value') (rendering : Rendering) :
    write lists depth value rendering = write lists' depth value' rendering := by
  induction depth generalizing value value' rendering with
  | zero =>
      have hplain := h.plainText
      cases h with
      | list id => simp only [write]
      | _ => rw [write_plain (by simp), write_plain (by simp), hplain]
  | succ depth ih =>
      have hplain := h.plainText
      cases h with
      | list id =>
          simp only [write]
          rw [separated_like (fun hvalue => ih hvalue) (hlists.elements id)]
      | _ => rw [write_plain (by simp), write_plain (by simp), hplain]

end Rendering

theorem Value.Like.display {lists lists' : Array (Array Value)} (hlists : Lists.Like l lists lists')
    {value value' : Value} (h : value.Like l value') :
    value.display lists = value'.display lists' := by
  rw [Value.display, Value.display, hlists.size, Rendering.write_like hlists _ h]

end Lox
