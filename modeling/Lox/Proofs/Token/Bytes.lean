import Lox.Token.Segment
import Mathlib.Data.List.TakeWhile
import Mathlib.Tactic.Common

/-!
# The bytes of a text

A source is kept as its UTF-8 bytes.  An ASCII character is one byte of the
same number, and all bytes of any other character are 128 or more; so a test
that treats everything beyond ASCII alike may be run on the bytes of a text in
place of its characters.
-/

namespace Lox

/-- The bytes of a text in UTF-8. -/
def octets (text : List Char) : List UInt8 :=
  text.flatMap String.utf8EncodeChar

@[simp]
theorem octets_nil : octets [] = [] := rfl

@[simp]
theorem octets_cons (c : Char) (text : List Char) :
    octets (c :: text) = String.utf8EncodeChar c ++ octets text :=
  List.flatMap_cons

@[simp]
theorem octets_append (text more : List Char) :
    octets (text ++ more) = octets text ++ octets more :=
  List.flatMap_append

theorem isEmpty_octets (text : List Char) : (octets text).isEmpty = text.isEmpty := by
  cases text with
  | nil => rfl
  | cons c text => simp [List.isEmpty_eq_false_iff, String.utf8EncodeChar_ne_nil]

/-- The bytes that hold a source. -/
def bytes (source : String) : List UInt8 :=
  source.toByteArray.data.toList

theorem bytes_eq (source : String) : bytes source = octets source.toList := by
  rw [bytes, ← String.utf8Encode_toList, List.utf8Encode, List.toList_data_toByteArray, octets]

/-- The bytes of a source tell its text. -/
theorem bytes_eq_octets_iff {source : String} {text : List Char} :
    bytes source = octets text ↔ source = String.ofList text := by
  constructor
  · intro h
    rw [← String.toByteArray_inj, String.toByteArray_ofList, List.utf8Encode, ← octets, ← h, bytes]
    exact ByteArray.ext (by simp)
  · rintro rfl
    rw [bytes_eq, String.toList_ofList]

/-! ## Single characters -/

/-- The bytes of a character beyond ASCII are beyond ASCII. -/
theorem le_of_mem_utf8EncodeChar {c : Char} (h : 128 ≤ c.toNat) {byte : UInt8}
    (hbyte : byte ∈ String.utf8EncodeChar c) : 128 ≤ byte.toNat := by
  have hvalue : c.toNat = c.val.toNat := rfl
  rw [hvalue] at h
  rw [String.utf8EncodeChar.eq_1] at hbyte
  split at hbyte
  · omega
  · split at hbyte
    · simp only [List.mem_cons, List.not_mem_nil, or_false] at hbyte
      rcases hbyte with rfl | rfl <;> rw [UInt8.toNat_ofNat'] <;> omega
    · split at hbyte
      · simp only [List.mem_cons, List.not_mem_nil, or_false] at hbyte
        rcases hbyte with rfl | rfl | rfl <;> rw [UInt8.toNat_ofNat'] <;> omega
      · simp only [List.mem_cons, List.not_mem_nil, or_false] at hbyte
        rcases hbyte with rfl | rfl | rfl | rfl <;> rw [UInt8.toNat_ofNat'] <;> omega

theorem utf8EncodeChar_of_lt {c : Char} (h : c.toNat < 128) :
    String.utf8EncodeChar c = [UInt8.ofNat c.toNat] := by
  have hvalue : c.val.toNat ≤ 0x7f := Nat.le_of_lt_succ h
  rw [String.utf8EncodeChar.eq_1]
  simp only [hvalue, if_true]
  rfl

theorem toNat_ofUInt8 (byte : UInt8) : (Char.ofUInt8 byte).toNat = byte.toNat :=
  UInt8.toNat_toUInt32 byte

theorem ofUInt8_ofNat {c : Char} (h : c.toNat < 128) :
    Char.ofUInt8 (UInt8.ofNat c.toNat) = c := by
  have hsmall : c.toNat < 256 := Nat.lt_trans h (by decide)
  apply Char.ext
  apply UInt32.toNat_inj.1
  exact (toNat_ofUInt8 _).trans (UInt8.toNat_ofNat_of_lt' hsmall)

/-- The first byte of a text, read as a character: the first character if that is
in ASCII. -/
theorem exists_octets_cons (first : Char) (following : List Char) :
    ∃ byte more, octets (first :: following) = byte :: more ∧
      (first.toNat < 128 ∧ Char.ofUInt8 byte = first ∧ more = octets following ∨
        128 ≤ first.toNat ∧ 128 ≤ (Char.ofUInt8 byte).toNat) := by
  rw [octets_cons]
  by_cases hascii : first.toNat < 128
  · rw [utf8EncodeChar_of_lt hascii]
    exact ⟨_, _, rfl, .inl ⟨hascii, ofUInt8_ofNat hascii, rfl⟩⟩
  · rw [Nat.not_lt] at hascii
    obtain ⟨byte, more, hencode⟩ :=
      List.exists_cons_of_ne_nil (String.utf8EncodeChar_ne_nil (c := first))
    have hbyte : 128 ≤ byte.toNat := le_of_mem_utf8EncodeChar hascii (by simp [hencode])
    exact ⟨byte, _, by rw [hencode]; rfl, .inr ⟨hascii, (toNat_ofUInt8 byte).symm ▸ hbyte⟩⟩

/-! ## Tests on bytes -/

/-- The test treats all characters beyond ASCII alike. -/
def Uniform (belongs : Char → Bool) : Prop :=
  ∀ c d : Char, 128 ≤ c.toNat → 128 ≤ d.toNat → belongs c = belongs d

/-- The test holds of characters in ASCII only, and not of the character 0, which
stands for the end of the source. -/
def InAscii (belongs : Char → Bool) : Prop :=
  ∀ c : Char, belongs c → 0 < c.toNat ∧ c.toNat < 128

section Tests

variable {belongs : Char → Bool}

theorem InAscii.eq_false (h : InAscii belongs) {c : Char} (hc : 128 ≤ c.toNat) :
    belongs c = false := by
  by_contra htrue
  have := (h c (by simpa using htrue)).2
  omega

theorem InAscii.uniform (h : InAscii belongs) : Uniform belongs :=
  fun _ _ hc hd => (h.eq_false hc).trans (h.eq_false hd).symm

theorem InAscii.zero (h : InAscii belongs) : belongs (Char.ofUInt8 0) = false := by
  by_contra htrue
  exact absurd (h _ (by simpa using htrue)).1 (by decide)

theorem Uniform.not (h : Uniform belongs) : Uniform (fun c => !belongs c) :=
  fun c d hc hd => congrArg _ (h c d hc hd)

theorem inAscii_beq {c : Char} (h : 0 < c.toNat ∧ c.toNat < 128) : InAscii (· == c) := by
  intro d hd
  rw [beq_iff_eq.1 hd]
  exact h

theorem inAscii_isDigit : InAscii Decimal.isDigit := by
  intro c hc
  simp only [Decimal.isDigit, Bool.and_eq_true, decide_eq_true_eq, Char.le_def,
    UInt32.le_iff_toNat_le] at hc
  obtain ⟨hlower, hupper⟩ := hc
  exact ⟨Nat.lt_of_lt_of_le (by decide) hlower, Nat.lt_of_le_of_lt hupper (by decide)⟩

theorem inAscii_isLetter : InAscii Segment.isLetter := by
  intro c hc
  simp only [Segment.isLetter, Bool.or_eq_true, Bool.and_eq_true, decide_eq_true_eq, beq_iff_eq,
    Char.le_def, UInt32.le_iff_toNat_le] at hc
  rcases hc with (⟨hlower, hupper⟩ | ⟨hlower, hupper⟩) | rfl
  · exact ⟨Nat.lt_of_lt_of_le (by decide) hlower, Nat.lt_of_le_of_lt hupper (by decide)⟩
  · exact ⟨Nat.lt_of_lt_of_le (by decide) hlower, Nat.lt_of_le_of_lt hupper (by decide)⟩
  · decide

theorem inAscii_isWordCharacter : InAscii Segment.isWordCharacter := by
  intro c hc
  rcases Bool.or_eq_true_iff.1 hc with hletter | hdigit
  · exact inAscii_isLetter c hletter
  · exact inAscii_isDigit c hdigit

/-- A test gives the same for a character and for each of its bytes. -/
theorem Uniform.octet (h : Uniform belongs) {c : Char} {byte : UInt8}
    (hbyte : byte ∈ String.utf8EncodeChar c) : belongs (Char.ofUInt8 byte) = belongs c := by
  by_cases hascii : c.toNat < 128
  · rw [utf8EncodeChar_of_lt hascii, List.mem_singleton] at hbyte
    rw [hbyte, ofUInt8_ofNat hascii]
  · rw [Nat.not_lt] at hascii
    exact h _ _ (toNat_ofUInt8 byte ▸ le_of_mem_utf8EncodeChar hascii hbyte) hascii

theorem Uniform.takeWhile_octets (h : Uniform belongs) (text : List Char) :
    (octets text).takeWhile (belongs ∘ Char.ofUInt8) = octets (text.takeWhile belongs) := by
  induction text with
  | nil => rfl
  | cons c text ih =>
      rw [octets_cons]
      cases hc : belongs c with
      | true =>
          have hall : ∀ byte ∈ String.utf8EncodeChar c, (belongs ∘ Char.ofUInt8) byte :=
            fun byte hbyte => (h.octet hbyte).trans hc
          rw [List.takeWhile_append_of_pos hall, ih, List.takeWhile_cons_of_pos hc, octets_cons]
      | false =>
          obtain ⟨byte, more, hencode⟩ :=
            List.exists_cons_of_ne_nil (String.utf8EncodeChar_ne_nil (c := c))
          have hbyte : ¬ (belongs ∘ Char.ofUInt8) byte := by
            have hmem : byte ∈ String.utf8EncodeChar c := by simp [hencode]
            simp [h.octet hmem, hc]
          rw [hencode, List.cons_append, List.takeWhile_cons_of_neg hbyte,
            List.takeWhile_cons_of_neg (by simp [hc]), octets_nil]

/-- The byte that the scanner looks at, which is 0 at the end, has the property of
the next character. -/
theorem InAscii.headD_octets (h : InAscii belongs) (text : List Char) :
    belongs (Char.ofUInt8 ((octets text).headD 0)) = text.head?.any belongs := by
  cases text with
  | nil => exact h.zero
  | cons c text =>
      obtain ⟨byte, more, hencode⟩ :=
        List.exists_cons_of_ne_nil (String.utf8EncodeChar_ne_nil (c := c))
      have hmem : byte ∈ String.utf8EncodeChar c := by simp [hencode]
      rw [octets_cons, hencode]
      exact h.uniform.octet hmem

theorem Uniform.findIdx?_octets (h : Uniform belongs) (text : List Char) :
    ((octets text).findIdx? (belongs ∘ Char.ofUInt8)).getD (octets text).length =
      (octets (text.takeWhile fun c => !belongs c)).length := by
  rw [← h.not.takeWhile_octets]
  generalize octets text = tail
  induction tail with
  | nil => rfl
  | cons byte tail ih =>
      cases hbyte : belongs (Char.ofUInt8 byte) with
      | true => simp [List.findIdx?_cons, hbyte]
      | false =>
          rw [List.findIdx?_cons, Function.comp_apply, hbyte,
            List.takeWhile_cons_of_pos (by simp [hbyte]), List.length_cons, List.length_cons, ← ih]
          cases tail.findIdx? (belongs ∘ Char.ofUInt8) <;> rfl

end Tests

theorem ofUInt8_beq_lineEnd (byte : UInt8) : (Char.ofUInt8 byte == '\n') = (byte == 10) := by
  rw [Bool.eq_iff_iff, beq_iff_eq, beq_iff_eq]
  constructor
  · intro h
    apply UInt8.toNat_inj.1
    rw [← toNat_ofUInt8, h]
    rfl
  · rintro rfl
    rfl

/-- Line ends may be counted on the bytes of a text. -/
theorem count_octets (text : List Char) :
    ((octets text).map Char.ofUInt8).count '\n' = text.count '\n' := by
  have huniform : Uniform (· == '\n') := (inAscii_beq (by decide)).uniform
  induction text with
  | nil => rfl
  | cons c text ih =>
      rw [octets_cons, List.map_append, List.count_append, ih]
      by_cases hascii : c.toNat < 128
      · rw [utf8EncodeChar_of_lt hascii, List.map_singleton, ofUInt8_ofNat hascii,
          ← List.count_append]
        rfl
      · rw [Nat.not_lt] at hascii
        have hnone : ((String.utf8EncodeChar c).map Char.ofUInt8).count '\n' = 0 := by
          refine List.count_eq_zero.2 fun hmem => ?_
          obtain ⟨byte, hbyte, heq⟩ := List.mem_map.1 hmem
          have hbeyond := le_of_mem_utf8EncodeChar hascii hbyte
          rw [← toNat_ofUInt8, heq] at hbeyond
          exact absurd hbeyond (by decide)
        have hne : c ≠ '\n' := by
          rintro rfl
          exact absurd hascii (by decide)
        rw [hnone, Nat.zero_add, List.count_cons_of_ne hne]

/-! ## Slices -/

/-- The text between two byte positions of a source, if both are between
characters. -/
def slice? (source : String) (start stop : Nat) : Option String :=
  if h : start ≤ stop ∧ (String.Pos.Raw.mk start).IsValid source ∧
      (String.Pos.Raw.mk stop).IsValid source then
    some (String.fromUTF8 (source.toByteArray.extract start stop)
      ((String.Pos.Raw.isValidUTF8_extract_iff _ _ h.1 h.2.2.le_rawEndPos).2 (.inr h.2)))
  else
    none

section Slices

variable {source : String} {before text after : List Char}

theorem utf8ByteSize_ofList (text : List Char) :
    (String.ofList text).utf8ByteSize = (octets text).length := by
  rw [← String.size_toByteArray, String.toByteArray_ofList, List.utf8Encode, List.size_toByteArray,
    octets]

/-- The bytes of a text end between characters. -/
theorem isValid_octets (h : source.toList = before ++ after) :
    (String.Pos.Raw.mk (octets before).length).IsValid source := by
  refine String.Pos.Raw.isValid_iff_exists_append.2
    ⟨String.ofList before, String.ofList after, ?_, ?_⟩
  · rw [← String.ofList_append, ← h, String.ofList_toList]
  · rw [← utf8ByteSize_ofList]
    rfl

/-- A slice that begins behind one text and ends behind the next is the second. -/
theorem slice?_octets (h : source.toList = before ++ text ++ after) :
    slice? source (octets before).length (octets (before ++ text)).length =
      some (String.ofList text) := by
  have hstart : (String.Pos.Raw.mk (octets before).length).IsValid source :=
    isValid_octets (h.trans (List.append_assoc ..))
  have hstop : (String.Pos.Raw.mk (octets (before ++ text)).length).IsValid source :=
    isValid_octets h
  have hle : (octets before).length ≤ (octets (before ++ text)).length := by simp
  have hbytes : source.toByteArray =
      (octets before).toByteArray ++ ((octets text).toByteArray ++ (octets after).toByteArray) := by
    rw [← List.toByteArray_append, ← List.toByteArray_append, ← octets_append, ← octets_append,
      ← List.append_assoc, ← h, octets, ← List.utf8Encode, String.utf8Encode_toList]
  rw [slice?, dif_pos ⟨hle, hstart, hstop⟩, Option.some.injEq, ← String.toByteArray_inj,
    String.toByteArray_ofList]
  change source.toByteArray.extract _ _ = (octets text).toByteArray
  have hslice := ByteArray.extract_append_size_add (a := (octets before).toByteArray)
    (b := (octets text).toByteArray ++ (octets after).toByteArray) (i := 0)
    (j := (octets text).toByteArray.size)
  rw [Nat.add_zero, ByteArray.extract_append_eq_left rfl] at hslice
  rw [hbytes, octets_append, List.length_append, ← List.size_toByteArray, ← List.size_toByteArray,
    hslice]

end Slices

end Lox
