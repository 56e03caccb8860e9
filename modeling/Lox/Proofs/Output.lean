import Lox.Output
import Lox.Value.Display

/-!
# Output with a limit

An output that accepts so many bytes in total receives what one without a limit
receives, up to that number.  It makes no difference in how many pieces a text is
written: showing a list writes its brackets, commas and elements one after
another, and the first piece that is refused ends the writing.
-/

namespace Lox

namespace Output

/-- The output that accepts `limit` bytes in total. -/
def limited (limit : Nat) (output : Output) : Output :=
  { output with room := some (limit - output.bytes.size) }

/-- The output `after` has no limit and goes on where `before` has ended. -/
structure Grows (before after : Output) : Prop where
  room : after.room = none
  bytes : ∃ more, after.bytes = before.bytes ++ more

namespace Grows

variable {before middle after : Output}

theorem refl (h : before.room = none) : before.Grows before :=
  ⟨h, .empty, ByteArray.append_empty.symm⟩

theorem trans (hfirst : before.Grows middle) (hsecond : middle.Grows after) :
    before.Grows after := by
  obtain ⟨_, more, hmore⟩ := hfirst
  obtain ⟨hroom, further, hfurther⟩ := hsecond
  refine ⟨hroom, more ++ further, ?_⟩
  rw [hfurther, hmore, ByteArray.append_assoc]

theorem size_le (h : before.Grows after) : before.bytes.size ≤ after.bytes.size := by
  obtain ⟨_, more, hmore⟩ := h
  rw [hmore, ByteArray.size_append]
  exact Nat.le_add_right _ _

/-- What is written later does not change the first bytes. -/
theorem extract_eq (h : before.Grows after) {limit : Nat} (hlimit : limit ≤ before.bytes.size) :
    after.bytes.extract 0 limit = before.bytes.extract 0 limit := by
  obtain ⟨_, more, hmore⟩ := h
  have hnone : more.extract (0 - before.bytes.size) (limit - before.bytes.size) = .empty := by
    rw [ByteArray.extract_eq_empty_iff]
    omega
  rw [hmore, ByteArray.extract_append, hnone, ByteArray.append_empty]

end Grows

/-- All bytes of an array are among its first `limit` if it has no more. -/
theorem extract_of_size_le {bytes : ByteArray} {limit : Nat} (h : bytes.size ≤ limit) :
    bytes.extract 0 limit = bytes := by
  have hnone : bytes.extract bytes.size limit = .empty := by
    rw [ByteArray.extract_eq_empty_iff]
    exact Nat.min_le_right _ _
  rw [ByteArray.extract_eq_extract_append_extract bytes.size (Nat.zero_le _) h,
    ByteArray.extract_zero_size, hnone, ByteArray.append_empty]

variable {output : Output} {limit : Nat}

theorem write_unlimited (h : output.room = none) (text : String) :
    output.write text = (true, { output with bytes := output.bytes ++ text.toUTF8 }) := by
  simp only [write, h]

/-- A text that fits is written as it is without a limit. -/
theorem write_limited_of_le {text : String} (hwithin : output.bytes.size ≤ limit)
    (hfits : output.bytes.size + text.utf8ByteSize ≤ limit) :
    (output.limited limit).write text =
      (true, ({ output with bytes := output.bytes ++ text.toUTF8 } : Output).limited limit) := by
  have hroom : text.utf8ByteSize ≤ limit - output.bytes.size := by omega
  have hsize : (output.bytes ++ text.toUTF8).size = output.bytes.size + text.utf8ByteSize :=
    ByteArray.size_append
  simp only [write, limited, if_pos hroom, hsize, Nat.sub_sub]

/-- Of a text that does not fit the bytes up to the limit are written. -/
theorem write_limited_of_lt {text : String} (hwithin : output.bytes.size ≤ limit)
    (hcut : limit < output.bytes.size + text.utf8ByteSize) :
    (output.limited limit).write text =
      (false, ⟨(output.bytes ++ text.toUTF8).extract 0 limit, some 0⟩) := by
  have hroom : ¬ text.utf8ByteSize ≤ limit - output.bytes.size := by omega
  simp only [write, limited, if_neg hroom, ByteArray.extract_append,
    extract_of_size_le hwithin, Nat.zero_sub]

/-! ## Pieces -/

/-- Writes texts one after another, up to the first that is not accepted. -/
def writeAll : List String → Output → Bool × Output
  | [], output => (true, output)
  | text :: texts, output =>
    match output.write text with
    | (true, output) => writeAll texts output
    | (false, output) => (false, output)

theorem write_empty (output : Output) : output.write "" = (true, output) := by
  have hbytes : output.bytes ++ "".toUTF8 = output.bytes := ByteArray.append_empty
  rw [write]
  split
  · rw [hbytes]
  · rename_i room hroom
    simp only [String.utf8ByteSize_empty, Nat.zero_le, if_true, hbytes, Nat.sub_zero, ← hroom]

/-- A text is written like its two parts, the second only if the first has been
accepted. -/
theorem write_append (output : Output) (text more : String) :
    output.write (text ++ more) =
      match output.write text with
      | (true, output) => output.write more
      | (false, output) => (false, output) := by
  have hutf8 : (text ++ more).toUTF8 = text.toUTF8 ++ more.toUTF8 := String.toByteArray_append
  have hsize : text.toUTF8.size = text.utf8ByteSize := rfl
  cases hroom : output.room with
  | none => simp only [write, hroom, hutf8, ByteArray.append_assoc]
  | some room =>
      simp only [write, hroom, hutf8, String.utf8ByteSize_append]
      by_cases htext : text.utf8ByteSize ≤ room
      · simp only [if_pos htext]
        by_cases hmore : more.utf8ByteSize ≤ room - text.utf8ByteSize
        · rw [if_pos (by omega), if_pos hmore, ByteArray.append_assoc, Nat.sub_sub]
        · rw [if_neg (by omega), if_neg hmore, ByteArray.extract_append, hsize, Nat.zero_sub,
            extract_of_size_le (hsize ▸ htext), ByteArray.append_assoc]
      · have hnone : more.toUTF8.extract 0 (room - text.utf8ByteSize) = .empty := by
          rw [ByteArray.extract_eq_empty_iff]
          omega
        rw [if_neg (by omega)]
        simp only [if_neg htext]
        rw [ByteArray.extract_append, hsize, Nat.zero_sub, hnone, ByteArray.append_empty]

/-- Into how many pieces a text is cut makes no difference. -/
theorem writeAll_eq (texts : List String) (output : Output) :
    output.writeAll texts = output.write (String.join texts) := by
  induction texts generalizing output with
  | nil => exact (write_empty output).symm
  | cons text texts ih =>
      rw [writeAll, String.join_cons, write_append]
      split <;> simp only [ih]

end Output

namespace Rendering

/-- The texts that showing a value writes one after another, inside lists that
are being shown. -/
def pieces (lists : Array (Array Value)) : Nat → List ListId → Value → List String
  | depth, opened, .list id =>
    if opened.contains id then ["[...]"]
    else
      match depth with
      | 0 => []
      | depth + 1 =>
        "[" :: (((lists.getD id #[]).toList.map (pieces lists depth (id :: opened))).intersperse
          [", "]).flatten ++ ["]"]
  | _, _, value => [value.plainText]

theorem put_put (text more : String) (rendering : Rendering) :
    (rendering.put text).put more = rendering.put (text ++ more) := by
  simp only [put, String.append_assoc]

theorem put_empty (rendering : Rendering) : rendering.put "" = rendering := by
  simp only [put, String.append_empty]

variable {lists : Array (Array Value)} {write : Value → Rendering → Rendering}

/-- If writing each of the values gives its pieces, writing all of them gives the
pieces of all with a comma between. -/
theorem separated_eq {texts : Value → List String} {opened : List ListId} (values : List Value)
    (hwrite : ∀ value rendering, rendering.opened = opened →
      write value rendering = rendering.put (String.join (texts value)))
    {rendering : Rendering} (hopened : rendering.opened = opened) :
    separated write values rendering =
      rendering.put (String.join (((values.map texts).intersperse [", "]).flatten)) := by
  induction values generalizing rendering with
  | nil => exact (put_empty rendering).symm
  | cons value values ih =>
      cases values with
      | nil =>
          rw [separated, hwrite value rendering hopened]
          simp
      | cons next values =>
          have hrest := ih (show (((write value rendering).put ", ").opened) = opened by
            rw [hwrite value rendering hopened]
            exact hopened)
          rw [separated, hrest, hwrite value rendering hopened, put_put, put_put]
          · simp
          · simp

/-- The text of a value is that of its pieces. -/
theorem write_eq (depth : Nat) (value : Value) (rendering : Rendering) :
    Rendering.write lists depth value rendering =
      rendering.put (String.join (pieces lists depth rendering.opened value)) := by
  induction depth generalizing value rendering with
  | zero =>
      cases value with
      | list id =>
          rw [Rendering.write, pieces]
          split
          · simp
          · exact (put_empty rendering).symm
      | nil | truth _ | number _ | text _ | function _ | native _ | classValue _ | object _ _ =>
          simp [Rendering.write, pieces]
  | succ depth ih =>
      cases value with
      | list id =>
          rw [Rendering.write, pieces]
          split
          · simp
          · have helements (value : Value) (inner : Rendering)
                (hopened : inner.opened = id :: rendering.opened) :
                Rendering.write lists depth value inner =
                  inner.put (String.join (pieces lists depth (id :: rendering.opened) value)) := by
              rw [ih, hopened]
            rw [separated_eq (lists.getD id #[]).toList helements rfl]
            simp [put, openList, closeList, String.append_assoc]
      | nil | truth _ | number _ | text _ | function _ | native _ | classValue _ | object _ _ =>
          simp [Rendering.write, pieces]

end Rendering

/-- What is written, in this order, when a value is shown on a line of its own. -/
def Value.linePieces (lists : Array (Array Value)) (value : Value) : List String :=
  Rendering.pieces lists (lists.size + 1) [] value ++ ["\n"]

/-- Showing a value on a line piece by piece, until one is refused, writes what
its text does in one piece. -/
theorem Output.writeAll_linePieces (lists : Array (Array Value)) (value : Value)
    (output : Output) :
    output.writeAll (value.linePieces lists) =
      output.write (value.display lists ++ "\n") := by
  have htext : value.display lists =
      String.join (Rendering.pieces lists (lists.size + 1) [] value) := by
    rw [Value.display, Rendering.write_eq]
    exact String.empty_append
  rw [writeAll_eq, Value.linePieces, String.join_append, ← htext]
  simp

end Lox
