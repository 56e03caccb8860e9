import Lox.Proofs.Decimal.Exact
import Lox.Proofs.Decimal.Numeral

/-!
# The numbers that round to a double

The intervals of two doubles have no number in common, so a number in the interval
of a double tells which one it is.  The shortest decimal lies in the interval: each
grid is tried at both neighbours of the value, and the seventeenth is finer than the
interval is wide.
-/

namespace Lox.Decimal

/-- The parts of a finite double.  There are 53 bits, but fewer at the smallest
exponent. -/
structure Double.Normal (significand : Nat) (exponent : Int) : Prop where
  smallest : -1074 ≤ exponent
  bits : significand < 2 ^ 53
  leading : -1074 < exponent → 2 ^ 52 ≤ significand

namespace Rounding

/-- The number lies in the interval. -/
def Covers (rounding : Rounding) (x : ℚ) : Prop :=
  if rounding.closed then
    rounding.low * 2 ^ rounding.scale ≤ x ∧ x ≤ rounding.high * 2 ^ rounding.scale
  else rounding.low * 2 ^ rounding.scale < x ∧ x < rounding.high * 2 ^ rounding.scale

theorem Covers.low_le {rounding : Rounding} {x : ℚ} (h : rounding.Covers x) :
    rounding.low * 2 ^ rounding.scale ≤ x := by
  unfold Covers at h
  split at h
  exacts [h.1, h.1.le]

theorem Covers.le_high {rounding : Rounding} {x : ℚ} (h : rounding.Covers x) :
    x ≤ rounding.high * 2 ^ rounding.scale := by
  unfold Covers at h
  split at h
  exacts [h.2, h.2.le]

/-- Only the ends of a closed interval are in it. -/
theorem Covers.closed {rounding : Rounding} {x : ℚ} (h : rounding.Covers x)
    (hend : rounding.low * 2 ^ rounding.scale = x ∨ x = rounding.high * 2 ^ rounding.scale) :
    rounding.closed := by
  unfold Covers at h
  split at h
  · assumption
  · exact absurd hend (not_or.2 ⟨h.1.ne, h.2.ne⟩)

/-- What lies strictly between the ends is in the interval. -/
theorem covers_of_lt {rounding : Rounding} {x : ℚ}
    (hlow : rounding.low * 2 ^ rounding.scale < x)
    (hhigh : x < rounding.high * 2 ^ rounding.scale) : rounding.Covers x := by
  unfold Covers
  split
  exacts [⟨hlow.le, hhigh.le⟩, ⟨hlow, hhigh⟩]

/-! ## Grids -/

section Grid

variable (rounding : Rounding) (exponent : Int)

/-- What the ends and the value are scaled by on a grid. -/
def factor : Nat :=
  power 2 rounding.scale * power 10 (-exponent)

/-- The spacing of a grid after scaling. -/
def unit : Nat :=
  power 2 (-rounding.scale) * power 10 exponent

theorem unit_pos : 0 < rounding.unit exponent :=
  Nat.mul_pos (power_pos two_pos _) (power_pos (by decide) _)

theorem onGrid_eq : rounding.onGrid exponent =
    ({ rounding with
        low := rounding.low * rounding.factor exponent
        value := rounding.value * rounding.factor exponent
        high := rounding.high * rounding.factor exponent },
      rounding.unit exponent) :=
  rfl

/-- What both sides of a comparison on a grid are multiplied by. -/
theorem scaled_eq (bound count : Nat) :
    ∃ scaling : ℚ, 0 < scaling ∧
      ((bound * rounding.factor exponent : Nat) : ℚ) = bound * 2 ^ rounding.scale * scaling ∧
      ((count * rounding.unit exponent : Nat) : ℚ) = count * 10 ^ exponent * scaling := by
  refine ⟨power 2 (-rounding.scale) * power 10 (-exponent), ?_, ?_, ?_⟩
  · exact_mod_cast Nat.mul_pos (power_pos two_pos _) (power_pos (by decide) _)
  · rw [factor, Nat.cast_mul, Nat.cast_mul, power_eq two_pos rounding.scale]
    push_cast
    ring
  · rw [unit, Nat.cast_mul, Nat.cast_mul, @power_eq 10 (by decide) exponent]
    push_cast
    ring

theorem factor_le_unit (bound count : Nat) :
    bound * rounding.factor exponent ≤ count * rounding.unit exponent ↔
      (bound : ℚ) * 2 ^ rounding.scale ≤ count * 10 ^ exponent := by
  obtain ⟨scaling, hpos, hbound, hcount⟩ := rounding.scaled_eq exponent bound count
  rw [← Nat.cast_le (α := ℚ), hbound, hcount, mul_le_mul_iff_of_pos_right hpos]

theorem unit_le_factor (bound count : Nat) :
    count * rounding.unit exponent ≤ bound * rounding.factor exponent ↔
      (count : ℚ) * 10 ^ exponent ≤ bound * 2 ^ rounding.scale := by
  obtain ⟨scaling, hpos, hbound, hcount⟩ := rounding.scaled_eq exponent bound count
  rw [← Nat.cast_le (α := ℚ), hbound, hcount, mul_le_mul_iff_of_pos_right hpos]

theorem contains_onGrid (count : Nat) :
    (rounding.onGrid exponent).1.contains (count * (rounding.onGrid exponent).2) ↔
      rounding.Covers (count * 10 ^ exponent) := by
  rw [onGrid_eq, contains, Covers]
  dsimp only
  split
  · rw [Bool.and_eq_true, decide_eq_true_eq, decide_eq_true_eq, factor_le_unit, unit_le_factor]
  · rw [Bool.and_eq_true, decide_eq_true_eq, decide_eq_true_eq, ← not_le, ← not_le,
      unit_le_factor, factor_le_unit, not_le, not_le]

end Grid

/-! ## The search -/

section Search

variable {tie : Tie} {rounding : Rounding} {exponent : Int} {decimal : Scientific}

theorem covers_of_pick? (h : rounding.pick? tie exponent = some decimal) :
    rounding.Covers decimal.value := by
  unfold pick? at h
  dsimp only at h
  generalize (rounding.onGrid exponent).1.value / (rounding.onGrid exponent).2 = below at h
  have hbelow := rounding.contains_onGrid exponent below
  have habove := rounding.contains_onGrid exponent (below + 1)
  split at h
  · cases h
  · cases h
    exact hbelow.1 ‹_›
  · cases h
    exact habove.1 ‹_›
  · split at h <;> cases h
    · exact hbelow.1 ‹_›
    · exact habove.1 ‹_›
    · dsimp only [Scientific.value]
      split
      exacts [hbelow.1 ‹_›, habove.1 ‹_›]

/-- If nothing is picked, the interval lies between two neighbours on the grid. -/
theorem not_covers_of_pick? (h : rounding.pick? tie exponent = none) :
    ∃ below : Nat, (below : ℚ) * 10 ^ exponent ≤ rounding.value * 2 ^ rounding.scale ∧
      rounding.value * 2 ^ rounding.scale < ((below + 1 : Nat) : ℚ) * 10 ^ exponent ∧
      ¬ rounding.Covers (below * 10 ^ exponent) ∧
      ¬ rounding.Covers (((below + 1 : Nat) : ℚ) * 10 ^ exponent) := by
  refine ⟨rounding.value * rounding.factor exponent / rounding.unit exponent, ?_, ?_, ?_⟩
  · exact (rounding.unit_le_factor exponent _ _).1 (Nat.div_mul_le_self ..)
  · rw [← not_le, ← rounding.unit_le_factor exponent, not_le]
    exact Nat.lt_mul_of_div_lt (Nat.lt_succ_self _) (rounding.unit_pos exponent)
  · rw [← contains_onGrid, ← contains_onGrid]
    unfold pick? at h
    dsimp only at h
    split at h
    · rename_i hbelow habove
      exact ⟨Bool.eq_false_iff.1 hbelow, Bool.eq_false_iff.1 habove⟩
    · cases h
    · cases h
    · split at h <;> cases h

/-- Where nothing is picked, the interval is no wider than the spacing of the grid. -/
theorem width_le_of_pick? (hlow : rounding.low < rounding.value)
    (hhigh : rounding.value < rounding.high) (h : rounding.pick? tie exponent = none) :
    ((rounding.high : ℚ) - rounding.low) * 2 ^ rounding.scale ≤ 10 ^ exponent := by
  obtain ⟨below, hle, hlt, hbelow, habove⟩ := not_covers_of_pick? h
  have hunit : (0 : ℚ) < 2 ^ rounding.scale := by positivity
  have hbelow := not_lt.1 fun hgt => hbelow (covers_of_lt hgt (hle.trans_lt (by gcongr)))
  have habove := not_lt.1 fun hgt => habove (covers_of_lt (hlt.trans' (by gcongr)) hgt)
  push_cast at habove
  linarith

/-- The search finds a decimal in the interval if the finest of its grids has one. -/
theorem covers_search {steps : Nat} (h : rounding.pick? tie (exponent - steps) ≠ none) :
    rounding.Covers (rounding.search tie steps exponent).value := by
  induction steps generalizing exponent with
  | zero =>
      rw [Nat.cast_zero, sub_zero] at h
      obtain ⟨decimal, hdecimal⟩ := Option.ne_none_iff_exists'.1 h
      rw [search, hdecimal]
      exact covers_of_pick? hdecimal
  | succ steps ih =>
      rw [search]
      cases hpick : rounding.pick? tie exponent with
      | some decimal => exact covers_of_pick? hpick
      | none =>
          apply ih
          rwa [sub_sub, add_comm, ← Nat.cast_add_one]

theorem lt_ten_pow_length (n : Nat) : n < 10 ^ (Nat.toDigits 10 n).length :=
  (Nat.length_toDigits_le_iff (by decide) Nat.length_toDigits_pos).1 le_rfl

theorem ten_pow_length_le {n : Nat} (h : 0 < n) : 10 ^ ((Nat.toDigits 10 n).length - 1) ≤ n := by
  rcases Nat.eq_zero_or_pos ((Nat.toDigits 10 n).length - 1) with hzero | hpos
  · rwa [hzero]
  · rw [← not_lt, ← Nat.length_toDigits_le_iff (by decide) hpos]
    omega

/-- The first digit is not too far to the left. -/
theorem ten_pow_leading_le (hpos : 0 < rounding.value) :
    (10 : ℚ) ^ rounding.leading ≤ rounding.value * 2 ^ rounding.scale := by
  have hdenominator := power_pos two_pos (-rounding.scale)
  have hnumerator : ((rounding.value * power 2 rounding.scale : Nat) : ℚ) =
      rounding.value * 2 ^ rounding.scale * power 2 (-rounding.scale) := by
    rw [Nat.cast_mul, power_eq two_pos rounding.scale]
    push_cast
    ring
  have hpos' : 0 < rounding.value * power 2 rounding.scale := Nat.mul_pos hpos (power_pos two_pos _)
  rw [← mul_le_mul_iff_of_pos_right (Nat.cast_pos.2 hdenominator), ← hnumerator, leading]
  generalize rounding.value * power 2 rounding.scale = numerator at *
  generalize power 2 (-rounding.scale) = denominator at *
  split_ifs with hle
  · have hquotient := ten_pow_length_le (Nat.div_pos hle hdenominator)
    have hlength := Nat.length_toDigits_pos (b := 10) (n := numerator / denominator)
    rw [← Nat.cast_one, ← Nat.cast_sub hlength, zpow_natCast]
    exact_mod_cast (Nat.mul_le_mul_right _ hquotient).trans (Nat.div_mul_le_self ..)
  · have hquotient := lt_ten_pow_length ((denominator - 1) / numerator)
    rw [Nat.div_lt_iff_lt_mul hpos'] at hquotient
    rw [zpow_neg, zpow_natCast, inv_mul_le_iff₀ (by positivity)]
    have hbound : denominator ≤
        10 ^ (Nat.toDigits 10 ((denominator - 1) / numerator)).length * numerator := by omega
    exact_mod_cast hbound

end Search

/-! ## Intervals of doubles -/

section Double

variable {significand significand' : Nat} {exponent exponent' : Int}

/-- The lower end is half a unit below the double, but a quarter below a power of two. -/
theorem low_ofDouble (exponent : Int) (hpos : 0 < significand) :
    (ofDouble significand exponent).low +
      (if significand = 2 ^ 52 ∧ -1074 < exponent then 1 else 2) = 4 * significand := by
  have himplied : Double.impliedBit = 2 ^ 52 := rfl
  simp only [ofDouble, himplied, Bool.and_eq_true, beq_iff_eq, decide_eq_true_eq, gt_iff_lt]
  split <;> omega

theorem value_ofDouble (significand : Nat) (exponent : Int) :
    ((ofDouble significand exponent).value : ℚ) * 2 ^ (ofDouble significand exponent).scale =
      significand * 2 ^ exponent := by
  simp only [ofDouble]
  rw [zpow_sub₀ (by norm_num)]
  push_cast
  ring

theorem value_mem_ofDouble (exponent : Int) (hpos : 0 < significand) :
    (ofDouble significand exponent).low < (ofDouble significand exponent).value ∧
      (ofDouble significand exponent).value < (ofDouble significand exponent).high := by
  have hlow := low_ofDouble exponent hpos
  change _ < 4 * significand ∧ 4 * significand < 4 * significand + 2
  split at hlow <;> omega

/-- A double is in its own interval. -/
theorem covers_ofDouble (significand : Nat) (exponent : Int) :
    (ofDouble significand exponent).Covers (significand * 2 ^ exponent) := by
  rw [← value_ofDouble]
  rcases Nat.eq_zero_or_pos significand with rfl | hpos
  · have hunit : (0 : ℚ) ≤ 2 ^ (exponent - 2) := by positivity
    simp [Covers, ofDouble, hunit]
  · obtain ⟨hlow, hhigh⟩ := value_mem_ofDouble exponent hpos
    exact covers_of_lt (by gcongr) (by gcongr)

/-- No decimal that rounds to a positive double is zero. -/
theorem digits_pos (hpos : 0 < significand) {decimal : Scientific}
    (h : (ofDouble significand exponent).Covers decimal.value) : 0 < decimal.digits := by
  have hlow := low_ofDouble exponent hpos
  have hlowPos : 0 < (ofDouble significand exponent).low := by
    split at hlow <;> omega
  have hvalue : 0 < decimal.value := h.low_le.trans_lt' (by positivity)
  by_contra hzero
  simp [Scientific.value, Nat.eq_zero_of_not_pos hzero] at hvalue

/-- Seventeen digits suffice. -/
theorem covers_shortest (h : Double.Normal significand exponent) (hpos : 0 < significand)
    (tie : Tie) :
    (ofDouble significand exponent).Covers (shortest tie significand exponent).value := by
  apply covers_search
  intro hnone
  obtain ⟨hlow, hhigh⟩ := value_mem_ofDouble exponent hpos
  have hwidth := width_le_of_pick? hlow hhigh hnone
  have hleading := ten_pow_leading_le (Nat.zero_lt_of_lt hlow)
  have hunit : (0 : ℚ) < 2 ^ (ofDouble significand exponent).scale := by positivity
  have hdigits : (ofDouble significand exponent).high * 10 ^ 16 ≤
      (ofDouble significand exponent).value + (ofDouble significand exponent).low * 10 ^ 16 := by
    rw [zpow_sub₀ (by norm_num), le_div_iff₀ (by positivity)] at hwidth
    have hspread := hwidth.trans hleading
    rw [mul_right_comm, mul_le_mul_iff_of_pos_right hunit, sub_mul, sub_le_iff_le_add] at hspread
    exact_mod_cast hspread
  have hend := low_ofDouble exponent hpos
  have hbits := h.bits
  change (4 * significand + 2) * _ ≤ 4 * significand + _ at hdigits
  split at hend <;> omega

/-- The interval of the lesser double ends where that of the greater begins or before.
Where they meet, one of the two significands is odd. -/
theorem high_le_low (h : Double.Normal significand exponent)
    (h' : Double.Normal significand' exponent') {shift : Nat}
    (hshift : exponent' = exponent + shift) (hlt : significand < significand' * 2 ^ shift) :
    4 * significand + 2 ≤ (ofDouble significand' exponent').low * 2 ^ shift ∧
      (4 * significand + 2 = (ofDouble significand' exponent').low * 2 ^ shift →
        significand % 2 ≠ significand' % 2) := by
  have hpos : 0 < significand' := by
    by_contra hzero
    simp [Nat.eq_zero_of_not_pos hzero] at hlt
  have hlow := low_ofDouble exponent' hpos
  have hbits := h.bits
  have hleading := h'.leading
  generalize (ofDouble significand' exponent').low = low at *
  cases shift with
  | zero =>
      have := h.leading
      split at hlow <;> omega
  | succ shift =>
      have hsmallest := h.smallest
      have hdouble : low * 2 ≤ low * 2 ^ (shift + 1) :=
        Nat.mul_le_mul_left _ (Nat.le_self_pow shift.succ_ne_zero 2)
      generalize low * 2 ^ (shift + 1) = bound at *
      split at hlow <;> omega

/-- No number rounds to a double and to a greater one. -/
theorem not_covers_greater (h : Double.Normal significand exponent)
    (h' : Double.Normal significand' exponent') {shift : Nat}
    (hshift : exponent' = exponent + shift) (hlt : significand < significand' * 2 ^ shift) {x : ℚ}
    (hcovers : (ofDouble significand exponent).Covers x) :
    ¬ (ofDouble significand' exponent').Covers x := by
  intro hcovers'
  obtain ⟨hends, hparity⟩ := high_le_low h h' hshift hlt
  have hunit : (0 : ℚ) < 2 ^ (exponent - 2) := by positivity
  have hhigh : x ≤ (4 * significand + 2 : Nat) * 2 ^ (exponent - 2) := hcovers.le_high
  have hscale : ((ofDouble significand' exponent').low : ℚ) * 2 ^ (exponent' - 2) =
      ((ofDouble significand' exponent').low * 2 ^ shift : Nat) * 2 ^ (exponent - 2) := by
    rw [hshift, add_sub_right_comm, zpow_add₀ (by norm_num), zpow_natCast]
    push_cast
    ring
  have hlow := hscale.symm.trans_le hcovers'.low_le
  -- where the intervals meet, the number is the end of both
  have hmeet : 4 * significand + 2 = (ofDouble significand' exponent').low * 2 ^ shift :=
    le_antisymm hends (by exact_mod_cast le_of_mul_le_mul_right (hlow.trans hhigh) hunit)
  rw [← hmeet] at hlow hscale
  have hend : x = (4 * significand + 2 : Nat) * 2 ^ (exponent - 2) := le_antisymm hhigh hlow
  have heven : significand % 2 == 0 := hcovers.closed (.inr hend)
  have heven' : significand' % 2 == 0 := hcovers'.closed (.inl (hscale.trans hend.symm))
  exact hparity hmeet ((eq_of_beq heven).trans (eq_of_beq heven').symm)

/-- A number rounds to one double only. -/
theorem eq_of_covers (h : Double.Normal significand exponent)
    (h' : Double.Normal significand' exponent') {x : ℚ}
    (hcovers : (ofDouble significand exponent).Covers x)
    (hcovers' : (ofDouble significand' exponent').Covers x) :
    significand = significand' ∧ exponent = exponent' := by
  wlog hle : exponent ≤ exponent' generalizing significand significand' exponent exponent'
  · exact (this h' h hcovers' hcovers (le_of_not_ge hle)).imp Eq.symm Eq.symm
  obtain ⟨shift, hshift⟩ := Int.le.dest hle
  have hbits := h.bits
  have hleading := h'.leading
  have hsmallest := h.smallest
  cases shift with
  | zero =>
      obtain rfl : exponent = exponent' := by omega
      rcases lt_trichotomy significand significand' with hlt | heq | hgt
      · exact absurd hcovers' (not_covers_greater h h' hshift.symm (by simpa using hlt) hcovers)
      · exact ⟨heq, rfl⟩
      · exact absurd hcovers (not_covers_greater h' h hshift.symm (by simpa using hgt) hcovers')
  | succ shift =>
      have hdouble : significand' * 2 ≤ significand' * 2 ^ (shift + 1) :=
        Nat.mul_le_mul_left _ (Nat.le_self_pow shift.succ_ne_zero 2)
      exact absurd hcovers' (not_covers_greater h h' hshift.symm (by omega) hcovers)

end Double

end Rounding

end Lox.Decimal
