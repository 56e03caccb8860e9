import Lox.Decimal.Layout
import Lox.Decimal.Numeral
import Mathlib.Algebra.Order.Field.Rat
import Mathlib.Data.List.DropRight
import Mathlib.Tactic.FieldSimp
import Mathlib.Tactic.Ring

/-!
# The numbers that numerals write

A numeral writes a rational number: that of all its digits, scaled down once for
each digit behind the point.  A decimal that is written without an exponent is
such a numeral: neither the zeros that are trimmed nor the place of the point
changes the number.
-/

namespace Lox.Decimal

/-- Digits, with or without a point and more digits, and the number they write. -/
inductive Writes : List Char → ℚ → Prop where
  | whole {digits : List Char} (hne : digits ≠ []) (h : ∀ c ∈ digits, isDigit c) :
    Writes digits (natOfDigits digits)
  | pointed {digits more : List Char} (hne : digits ≠ []) (h : ∀ c ∈ digits, isDigit c)
    (hmore : ∀ c ∈ more, isDigit c) :
    Writes (digits ++ '.' :: more) (natOfDigits (digits ++ more) / 10 ^ more.length)

/-- The number that a decimal stands for. -/
def Scientific.value (decimal : Scientific) : ℚ :=
  decimal.digits * 10 ^ decimal.exponent

/-! ## Rows of digits -/

theorem natOfDigits_toDigits (n : Nat) : natOfDigits (Nat.toDigits 10 n) = n :=
  Nat.ofDigitChars_ten_toDigits

theorem natOfDigits_zeros_append (count : Nat) (digits : List Char) :
    natOfDigits (List.replicate count '0' ++ digits) = natOfDigits digits := by
  change Nat.ofDigitChars 10 _ 0 = _
  rw [Nat.ofDigitChars_append, Nat.ofDigitChars_replicate_zero, Nat.mul_zero]
  rfl

theorem natOfDigits_append_zeros (digits : List Char) (count : Nat) :
    natOfDigits (digits ++ List.replicate count '0') = 10 ^ count * natOfDigits digits := by
  change Nat.ofDigitChars 10 _ 0 = _
  rw [Nat.ofDigitChars_append, Nat.ofDigitChars_replicate_zero]
  rfl

theorem isDigit_of_mem_toDigits {n : Nat} {c : Char} (h : c ∈ Nat.toDigits 10 n) : isDigit c := by
  have hdigit := Nat.isDigit_of_mem_toDigits (by decide) (by decide) h
  simpa [isDigit, Char.isDigit, Char.le_def] using hdigit

theorem isDigit_of_mem_zeros {count : Nat} {c : Char} (h : c ∈ List.replicate count '0') :
    isDigit c := by
  rw [List.eq_of_mem_replicate h]
  decide

theorem toList_toString (n : Nat) : (toString n).toList = Nat.toDigits 10 n := by
  rw [Nat.toString_eq_ofList_toDigits, String.toList_ofList]

namespace Writes

variable {text : List Char} {x y : ℚ}

theorem digit_or_point (h : Writes text x) : ∀ c ∈ text, isDigit c ∨ c = '.' := by
  cases h with
  | whole _ hdigits => exact fun c hc => .inl (hdigits c hc)
  | pointed _ hdigits hmore =>
      intro c hc
      rcases List.mem_append.1 hc with hc | hc
      · exact .inl (hdigits c hc)
      · exact (List.mem_cons.1 hc).symm.imp_left (hmore c)

/-- A numeral begins with a digit. -/
theorem begins (h : Writes text x) : ∃ first following, text = first :: following ∧
    isDigit first := by
  cases h with
  | whole hne hdigits =>
      obtain ⟨first, following, rfl⟩ := List.exists_cons_of_ne_nil hne
      exact ⟨first, following, rfl, hdigits first List.mem_cons_self⟩
  | pointed hne hdigits _ =>
      obtain ⟨first, following, rfl⟩ := List.exists_cons_of_ne_nil hne
      exact ⟨first, _, rfl, hdigits first List.mem_cons_self⟩

theorem point_mem {digits more : List Char} : '.' ∈ digits ++ '.' :: more :=
  List.mem_append_right _ List.mem_cons_self

theorem takeWhile_pointed {digits more : List Char} (h : ∀ c ∈ digits, isDigit c) :
    (digits ++ '.' :: more).takeWhile isDigit = digits := by
  rw [List.takeWhile_append_of_pos h, List.takeWhile_cons_of_neg (by decide), List.append_nil]

/-- The digits of a whole number reach to its end, those of another number up to the
point. -/
theorem unique (h : Writes text x) (h' : Writes text y) : x = y := by
  cases h with
  | whole hne hdigits =>
      cases h' with
      | whole _ _ => rfl
      | pointed _ _ _ => exact absurd (hdigits _ point_mem) (by decide)
  | @pointed digits more hne hdigits hmore =>
      generalize htext : digits ++ '.' :: more = text at h'
      cases h' with
      | whole _ hdigits' => exact absurd (hdigits' _ (htext ▸ point_mem)) (by decide)
      | pointed _ hdigits' _ =>
          have hfront := congrArg (List.takeWhile isDigit) htext
          rw [takeWhile_pointed hdigits, takeWhile_pointed hdigits'] at hfront
          subst hfront
          obtain ⟨-, rfl⟩ := List.cons.inj (List.append_cancel_left htext)
          rfl

/-- A natural number with the point behind it. -/
theorem ofNat (n : Nat) : Writes (Nat.toDigits 10 n ++ ['.', '0']) n := by
  have h := @pointed (Nat.toDigits 10 n) ['0'] Nat.toDigits_ne_nil
    (fun _ => isDigit_of_mem_toDigits) (List.forall_mem_singleton.2 (by decide))
  have hzero := natOfDigits_append_zeros (Nat.toDigits 10 n) 1
  rw [List.replicate_one, natOfDigits_toDigits] at hzero
  rw [hzero] at h
  convert h using 1
  push_cast
  field_simp
  simp

end Writes

namespace Layout

theorem toList_zeros (count : Nat) : (zeros count).toList = List.replicate count '0' :=
  String.toList_ofList

/-- The point is placed where the power of ten says. -/
theorem writes_place {digits : String} (hne : digits.toList ≠ [])
    (h : ∀ c ∈ digits.toList, isDigit c) (point : Int) :
    Writes (place false digits point).toList
      (natOfDigits digits.toList * 10 ^ (point - digits.toList.length)) := by
  have hplace : (place false digits point).toList =
      if point ≤ 0 then ['0'] ++ '.' :: (List.replicate (-point).toNat '0' ++ digits.toList)
      else if point < digits.toList.length then
        digits.toList.take point.toNat ++ '.' :: digits.toList.drop point.toNat
      else digits.toList ++ List.replicate (point - digits.toList.length).toNat '0' := by
    simp only [place, ← String.length_toList, Bool.false_eq_true, if_false]
    split_ifs <;> simp [toList_zeros]
  rw [hplace]
  generalize digits.toList = row at *
  split_ifs with hfront hinside
  · convert Writes.pointed (List.cons_ne_nil '0' []) (List.forall_mem_singleton.2 (by decide))
      (fun c hc => (List.mem_append.1 hc).elim isDigit_of_mem_zeros (h c)) using 1
    have hzeros := natOfDigits_zeros_append ((-point).toNat + 1) row
    rw [List.replicate_succ, List.cons_append] at hzeros
    rw [List.singleton_append, hzeros, div_eq_mul_inv, ← zpow_natCast, ← zpow_neg]
    congr 2
    simp only [List.length_append, List.length_replicate]
    omega
  · have htake : row.take point.toNat ≠ [] := by
      rw [← List.length_pos_iff, List.length_take]
      omega
    convert @Writes.pointed (row.take point.toNat) (row.drop point.toNat) htake
      (fun c hc => h c (List.mem_of_mem_take hc))
      (fun c hc => h c (List.mem_of_mem_drop hc)) using 1
    rw [List.take_append_drop, div_eq_mul_inv, ← zpow_natCast, ← zpow_neg, List.length_drop]
    congr 2
    omega
  · convert @Writes.whole (row ++ List.replicate (point - row.length).toNat '0') (by simp [hne])
      (fun c hc => (List.mem_append.1 hc).elim (h c) isDigit_of_mem_zeros) using 1
    rw [natOfDigits_append_zeros, Nat.cast_mul, Nat.cast_pow, mul_comm, ← zpow_natCast]
    congr 2
    omega

/-- Zeros are trimmed and nothing else. -/
theorem exists_trim (digits : String) :
    ∃ count, digits.toList = (trim digits).toList ++ List.replicate count '0' := by
  have hzeros : digits.toList.rtakeWhile (· == '0') =
      List.replicate (digits.toList.rtakeWhile (· == '0')).length '0' :=
    List.eq_replicate_of_mem fun c hc => by simpa using List.mem_rtakeWhile_imp hc
  refine ⟨(digits.toList.rtakeWhile (· == '0')).length, ?_⟩
  rw [trim, String.toList_ofList, ← hzeros]
  exact (List.rdropWhile_append_rtakeWhile ..).symm

/-- Written without an exponent a decimal keeps its value. -/
theorem writes_positional {decimal : Scientific} (hpos : 0 < decimal.digits) :
    let written := toString decimal.digits
    Writes (place false (trim written) (decimal.exponent + written.length)).toList
      decimal.value := by
  intro written
  have hwritten : written.toList = Nat.toDigits 10 decimal.digits := toList_toString _
  obtain ⟨count, hcount⟩ := exists_trim written
  have hdigits : decimal.digits = 10 ^ count * natOfDigits (trim written).toList := by
    rw [← natOfDigits_append_zeros, ← hcount, hwritten, natOfDigits_toDigits]
  have hne : (trim written).toList ≠ [] := by
    intro hnil
    rw [hnil] at hdigits
    exact hpos.ne' hdigits
  have hall : ∀ c ∈ (trim written).toList, isDigit c := by
    intro c hc
    apply isDigit_of_mem_toDigits
    rw [← hwritten, hcount]
    exact List.mem_append_left _ hc
  convert writes_place hne hall _ using 1
  have hpoint : decimal.exponent + written.length - (trim written).toList.length =
      count + decimal.exponent := by
    rw [← String.length_toList, hcount, List.length_append, List.length_replicate]
    omega
  rw [Scientific.value, hpoint, zpow_add₀ (by norm_num), zpow_natCast, hdigits]
  push_cast
  ring

end Layout

end Lox.Decimal
