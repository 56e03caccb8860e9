import Lox.Proofs.Decimal.Rounding
import Lox.Syntax.Printer

/-!
# Printed numbers are distinct

A finite double is printed as a numeral with a sign, and the numeral writes a number
that rounds to the double: the double itself if it is an integer, and its shortest
decimal otherwise.  So two finite doubles that are printed alike are one.
-/

namespace Lox.Decimal

namespace Double

variable {x y : Float} {negative : Bool} {significand : Nat} {exponent : Int}

theorem ofFloat_of_isFinite (h : x.isFinite) :
    ∃ negative significand exponent, ofFloat x = .finite negative significand exponent := by
  change x.toModel.unpack.isFinite at h
  rw [ofFloat_eq]
  cases hunpack : x.toModel.unpack with
  | notANumber | infinity _ =>
      rw [hunpack] at h
      cases h
  | zero _ | finite _ _ _ _ => exact ⟨_, _, _, rfl⟩

/-- Sign, exponent and fraction of a finite double are found again in its bits. -/
theorem toNat_toBits_of_finite (h : ofFloat x = .finite negative significand exponent) :
    Normal significand exponent ∧
      x.toBits.toNat = (if negative then 2 ^ 63 else 0) +
        (if significand < 2 ^ 52 then significand
          else (exponent + 1075).toNat * 2 ^ 52 + (significand - 2 ^ 52)) := by
  have hlt := x.toBits.toNat_lt
  simp only [ofFloat, show impliedBit = 2 ^ 52 from rfl, show power 2 63 = 2 ^ 63 from rfl] at h
  generalize x.toBits.toNat = bits at *
  have hsign : (if bits / 2 ^ 63 == 1 then 2 ^ 63 else 0) = bits / 2 ^ 63 * 2 ^ 63 := by
    split
    · rename_i hone
      rw [eq_of_beq hone, Nat.one_mul]
    · rename_i hne
      rw [beq_iff_eq] at hne
      omega
  split at h
  · split at h <;> cases h
  · rename_i hlargest
    rw [beq_iff_eq] at hlargest
    split at h
    · rename_i hsmallest
      rw [beq_iff_eq] at hsmallest
      cases h
      refine ⟨⟨le_rfl, by omega, by omega⟩, ?_⟩
      rw [hsign, if_pos (by omega)]
      omega
    · rename_i hsmallest
      rw [beq_iff_eq] at hsmallest
      cases h
      refine ⟨⟨by omega, by omega, by omega⟩, ?_⟩
      rw [hsign, if_neg (by omega)]
      omega

/-- The parts of a finite double determine it. -/
theorem eq_of_ofFloat (h : ofFloat x = .finite negative significand exponent)
    (h' : ofFloat y = .finite negative significand exponent) : x = y := by
  have hbits : x.toBits = y.toBits := UInt64.toNat_inj.1
    ((toNat_toBits_of_finite h).2.trans (toNat_toBits_of_finite h').2.symm)
  obtain ⟨⟨bits, hvalid⟩⟩ := x
  obtain ⟨⟨bits', hvalid'⟩⟩ := y
  change bits = bits' at hbits
  subst hbits
  rfl

end Double

/-! ## The printed form -/

section Printed

variable {x y : Float} {negative : Bool} {significand : Nat} {exponent : Int}

/-- The sign that a finite double is printed with. -/
def signOf (negative : Bool) : List Char :=
  if negative then ['-'] else []

/-- An integer has the sign of its double. -/
theorem negative_of_integer? (h : Double.ofFloat x = .finite negative significand exponent)
    {n : Int} (hn : integer? x = some n) :
    (decide (n < 0) || isNegativeZero x) = negative ∧
      (n.natAbs : ℚ) = significand * 2 ^ exponent := by
  have hvalue := (integer?_of_finite h n).1 hn
  have hnonneg : (0 : ℚ) ≤ significand * 2 ^ exponent := by positivity
  cases negative with
  | false =>
      have hn : (n : ℚ) = significand * 2 ^ exponent := hvalue.symm
      have hle : 0 ≤ n := by exact_mod_cast hnonneg.trans_eq hn.symm
      simp [isNegativeZero, h, hle, hn]
  | true =>
      have hn : (n : ℚ) = -(significand * 2 ^ exponent) := hvalue.symm
      have hle : n ≤ 0 := by exact_mod_cast hn.trans_le (neg_nonpos.2 hnonneg)
      refine ⟨?_, by simp [abs_of_nonpos hle, hn]⟩
      cases significand with
      | zero => simp [isNegativeZero, h]
      | succ significand =>
          have hlt : (n : ℚ) < 0 := by
            rw [hn, neg_lt_zero]
            positivity
          simp [Int.cast_lt_zero.1 hlt]

/-- A finite double is printed as a numeral behind its sign, and what the numeral writes
rounds to it. -/
theorem outline_of_finite (h : Double.ofFloat x = .finite negative significand exponent) :
    ∃ text value, (Literal.number x).outline.toList = signOf negative ++ text ∧
      Writes text value ∧ (Rounding.ofDouble significand exponent).Covers value := by
  rw [Literal.outline]
  cases hinteger : integer? x with
  | some n =>
      obtain ⟨hsign, habs⟩ := negative_of_integer? h hinteger
      refine ⟨_, _, ?_, .ofNat n.natAbs, habs ▸ Rounding.covers_ofDouble ..⟩
      dsimp only
      rw [hsign, String.toList_append, String.toList_append, toList_toString]
      cases negative <;> rfl
  | none =>
      obtain ⟨hnormal, -⟩ := Double.toNat_toBits_of_finite h
      have hpos : 0 < significand := by
        by_contra hzero
        obtain rfl := Nat.eq_zero_of_not_pos hzero
        have hinteger' := (integer?_of_finite h 0).2 (by simp)
        rw [hinteger] at hinteger'
        cases hinteger'
      have hcovers := Rounding.covers_shortest hnormal hpos .up
      have hdigits := Rounding.digits_pos hpos hcovers
      refine ⟨_, _, ?_, Layout.writes_positional hdigits, hcovers⟩
      have hnonzero : (significand == 0) = false := beq_false_of_ne hpos.ne'
      rw [Layout.render, h]
      simp only [Layout.magnitude, hnonzero, Layout.plain, String.toList_append]
      cases negative <;> rfl

theorem signOf_injective {negative negative' : Bool} {text text' : List Char} {value value' : ℚ}
    (hwrites : Writes text value) (hwrites' : Writes text' value')
    (h : signOf negative ++ text = signOf negative' ++ text') :
    negative = negative' ∧ text = text' := by
  obtain ⟨first, following, rfl, hfirst⟩ := hwrites.begins
  obtain ⟨first', following', rfl, hfirst'⟩ := hwrites'.begins
  cases negative <;> cases negative'
  · exact ⟨rfl, h⟩
  · obtain ⟨rfl, -⟩ := List.cons.inj h
    exact absurd hfirst (by decide)
  · obtain ⟨rfl, -⟩ := List.cons.inj h
    exact absurd hfirst' (by decide)
  · exact ⟨rfl, (List.cons.inj h).2⟩

/-- Finite doubles that are printed alike are one. -/
theorem eq_of_outline (hx : x.isFinite) (hy : y.isFinite)
    (h : (Literal.number x).outline = (Literal.number y).outline) : x = y := by
  obtain ⟨negative, significand, exponent, hparts⟩ := Double.ofFloat_of_isFinite hx
  obtain ⟨negative', significand', exponent', hparts'⟩ := Double.ofFloat_of_isFinite hy
  obtain ⟨text, value, houtline, hwrites, hcovers⟩ := outline_of_finite hparts
  obtain ⟨text', value', houtline', hwrites', hcovers'⟩ := outline_of_finite hparts'
  rw [← String.toList_inj, houtline, houtline'] at h
  obtain ⟨rfl, rfl⟩ := signOf_injective hwrites hwrites' h
  obtain rfl := hwrites.unique hwrites'
  obtain ⟨rfl, rfl⟩ := Rounding.eq_of_covers (Double.toNat_toBits_of_finite hparts).1
    (Double.toNat_toBits_of_finite hparts').1 hcovers hcovers'
  exact Double.eq_of_ofFloat hparts hparts'

/-- The characters of printed numbers. -/
def isNumeric (c : Char) : Bool :=
  isDigit c || c == '.' || c == '-'

theorem outline_number_chars (hx : x.isFinite) :
    (Literal.number x).outline ≠ "" ∧ (Literal.number x).outline.toList.all isNumeric := by
  obtain ⟨negative, significand, exponent, hparts⟩ := Double.ofFloat_of_isFinite hx
  obtain ⟨text, value, houtline, hwrites, -⟩ := outline_of_finite hparts
  obtain ⟨first, following, htext, -⟩ := hwrites.begins
  have hsign : (signOf negative).all isNumeric := by cases negative <;> decide
  have hnumeral : text.all isNumeric := List.all_eq_true.2 fun c hc => by
    rcases hwrites.digit_or_point c hc with hdigit | rfl
    · simp [isNumeric, hdigit]
    · decide
  rw [ne_eq, ← String.toList_eq_nil_iff, houtline]
  exact ⟨by simp [htext], by rw [List.all_append, hsign, hnumeral, Bool.and_true]⟩

end Printed

end Lox.Decimal
