import Lox.Decimal.Double
import Mathlib

/-!
# The exact values of doubles

A finite double stands for a rational number.  The parts of a double have that value,
so that what counts as an integer is what has the value of one, and the natural numbers
up to `2 ^ 53` are doubles themselves.
-/

namespace Lox.Decimal

open Float.Model Float.Model.UnpackedFloat

/-- The number that a double stands for; the infinities and NaN stand for none. -/
def rational? (x : Float) : Option ℚ :=
  match x.toModel.unpack with
  | .zero _ => some 0
  | .finite sign significand exponent _ => some (sign.apply significand * 2 ^ exponent)
  | .infinity _ | .notANumber => none

/-- A power of either sign as a quotient of two natural numbers. -/
theorem power_eq {base : Nat} (hbase : 0 < base) (exponent : Int) :
    (power base exponent : ℚ) = base ^ exponent * power base (-exponent) := by
  have hne : (base : ℚ) ≠ 0 := Nat.cast_ne_zero.2 hbase.ne'
  simp only [power, Nat.pow_eq, Nat.cast_pow]
  rw [← zpow_natCast, ← zpow_natCast, ← zpow_add₀ hne]
  congr 1
  omega

theorem power_pos {base : Nat} (hbase : 0 < base) (exponent : Int) : 0 < power base exponent :=
  Nat.pow_pos hbase

namespace Double

/-- The parts of a double that has been unpacked. -/
def ofUnpacked : UnpackedFloat → Double
  | .notANumber => nan
  | .infinity sign => infinite (sign == .negative)
  | .zero sign => finite (sign == .negative) 0 (-1074)
  | .finite sign significand exponent _ => finite (sign == .negative) significand exponent

section Bits

variable (bits : BitVec 64)

theorem toNat_unpackMantissa :
    (@unpackMantissa Format.binary64 bits).toNat = bits.toNat % impliedBit := by
  simp [unpackMantissa, impliedBit, power]

theorem toNat_unpackExponent :
    (@unpackExponent Format.binary64 bits).toNat =
      bits.toNat / impliedBit % 2048 := by
  simp [unpackExponent, impliedBit, power, Nat.shiftRight_eq_div_pow]

theorem negative_unpackSign :
    (Sign.ofBitVec (@unpackSign Format.binary64 bits) == .negative) =
      (bits.toNat / power 2 63 == 1) := by
  have hsign : (@unpackSign Format.binary64 bits).toNat = bits.toNat / power 2 63 := by
    have hlt : bits.toNat < 2 ^ 64 := bits.isLt
    simp [unpackSign, power, Nat.shiftRight_eq_div_pow]
    omega
  rw [← hsign, Sign.ofBitVec]
  generalize @unpackSign Format.binary64 bits = sign
  decide +revert

end Bits

/-- The parts of a double are those that it is unpacked into. -/
theorem ofFloat_eq (x : Float) : ofFloat x = ofUnpacked x.toModel.unpack := by
  change _ = ofUnpacked (UnpackedFloat.unpack Format.binary64 x.toBits.toBitVec)
  have hexponent := toNat_unpackExponent x.toBits.toBitVec
  have hmantissa := toNat_unpackMantissa x.toBits.toBitVec
  have hsign := negative_unpackSign x.toBits.toBitVec
  rw [UInt64.toNat_toBitVec] at hexponent hmantissa hsign
  simp only [ofFloat, ← hexponent, ← hmantissa, ← hsign]
  fun_cases UnpackedFloat.unpack Format.binary64 x.toBits.toBitVec with
  | case1 mantissa field signBit sign hlargest hzero =>
      have hlargest : field.toNat = 2047 := congrArg BitVec.toNat hlargest
      have hzero : mantissa.toNat = 0 := congrArg BitVec.toNat hzero
      simp only [field, mantissa] at hlargest hzero
      simp [hlargest, hzero, ofUnpacked, sign, signBit]
  | case2 mantissa field hlargest hnonzero =>
      have hlargest : field.toNat = 2047 := congrArg BitVec.toNat hlargest
      have hnonzero : mantissa.toNat ≠ 0 := fun h => hnonzero (BitVec.toNat_inj.1 h)
      simp [hlargest, hnonzero, ofUnpacked, field, mantissa]
  | case3 mantissa field signBit sign _ hsmallest hzero =>
      have hsmallest : field.toNat = 0 := congrArg BitVec.toNat hsmallest
      have hzero : mantissa.toNat = 0 := congrArg BitVec.toNat hzero
      simp [hsmallest, hzero, ofUnpacked, field, mantissa, sign, signBit]
  | case4 mantissa field exponent signBit sign _ hsmallest hnonzero =>
      have hsmallest : field.toNat = 0 := congrArg BitVec.toNat hsmallest
      have hexponent : exponent + 1 = -1074 := by
        simp only [exponent, hsmallest]
        rfl
      simp [hsmallest, hexponent, ofUnpacked, field, mantissa, sign, signBit]
  | case5 mantissa field exponent signBit sign hfinite hnormal =>
      have hfinite : field.toNat ≠ 2047 := fun h => hfinite (BitVec.toNat_inj.1 h)
      have hnormal : field.toNat ≠ 0 := fun h => hnormal (BitVec.toNat_inj.1 h)
      have happend : (1#1 ++ mantissa).toNat = impliedBit + mantissa.toNat := by
        rw [BitVec.toNat_append]
        exact (Nat.two_pow_add_eq_or_of_lt mantissa.isLt 1).symm
      have hexponent : exponent = field.toNat - 1075 := rfl
      simp [hfinite, hnormal, happend, hexponent, ofUnpacked, field, mantissa, sign, signBit]

/-- A magnitude is a natural number exactly if the parts say so. -/
theorem magnitude?_eq_some_iff (significand : Nat) (exponent : Int) (n : Nat) :
    magnitude? significand exponent = some n ↔ (significand : ℚ) * 2 ^ exponent = n := by
  have hdenominator : 0 < power 2 (-exponent) := power_pos two_pos _
  have hpower : (2 : ℚ) ^ exponent * power 2 (-exponent) = power 2 exponent := by
    exact_mod_cast (power_eq two_pos exponent).symm
  have hcleared : (significand : ℚ) * 2 ^ exponent = n ↔
      significand * power 2 exponent = n * power 2 (-exponent) := by
    rw [← mul_left_inj' (Nat.cast_ne_zero.2 hdenominator.ne'), mul_assoc, hpower]
    norm_cast
  rw [hcleared]
  simp only [magnitude?, beq_iff_eq, Option.ite_none_right_eq_some, Option.some.injEq]
  constructor
  · rintro ⟨hdvd, rfl⟩
    exact (Nat.div_mul_cancel (Nat.dvd_of_mod_eq_zero hdvd)).symm
  · intro h
    rw [h]
    exact ⟨Nat.mul_mod_left .., Nat.mul_div_cancel _ hdenominator⟩

end Double

theorem integer?_of_finite {x : Float} {negative : Bool} {significand : Nat} {exponent : Int}
    (h : Double.ofFloat x = .finite negative significand exponent) (n : Int) :
    integer? x = some n ↔
      (if negative then -(significand * 2 ^ exponent) else significand * 2 ^ exponent : ℚ) = n := by
  have hmagnitude := Double.magnitude?_eq_some_iff significand exponent
  have hnonneg : (0 : ℚ) ≤ significand * 2 ^ exponent := by positivity
  rw [integer?, h]
  dsimp only
  generalize (significand : ℚ) * 2 ^ exponent = value at hmagnitude hnonneg
  cases hfound : Double.magnitude? significand exponent with
  | some magnitude =>
      have hvalue : value = magnitude := (hmagnitude magnitude).1 hfound
      cases negative <;> simp [hvalue] <;> norm_cast
  | none =>
      have hno (k : Int) : value ≠ k := by
        rintro rfl
        lift k to ℕ using Int.cast_nonneg_iff.1 hnonneg
        rw [(hmagnitude k).2 (Int.cast_natCast k)] at hfound
        cases hfound
      cases negative with
      | false => simp [hno]
      | true =>
          have hneg : -value ≠ n := fun hvalue => hno (-n) (by rw [Int.cast_neg, ← hvalue, neg_neg])
          simp [hneg]

/-- A double is an integer exactly if it stands for one. -/
theorem integer?_eq_some_iff (x : Float) (n : Int) :
    integer? x = some n ↔ rational? x = some ↑n := by
  have hparts := Double.ofFloat_eq x
  rw [rational?]
  cases hunpack : x.toModel.unpack with
  | notANumber | infinity sign =>
      rw [hunpack, Double.ofUnpacked] at hparts
      simp [integer?, hparts]
  | zero sign =>
      rw [hunpack, Double.ofUnpacked] at hparts
      rw [integer?_of_finite hparts]
      simp
  | finite sign significand exponent _ =>
      rw [hunpack, Double.ofUnpacked] at hparts
      rw [integer?_of_finite hparts]
      cases sign <;> simp [Sign.apply]

/-! ## Natural numbers -/

/-- Zeros that are shifted out on the right do not matter. -/
theorem shiftRight_shifted (significand shift : Nat) :
    (⟨significand * 2 ^ shift, false, false⟩ : ExtendedMantissa) >>> shift =
      ⟨significand, false, false⟩ := by
  change Nat.repeat ExtendedMantissa.shiftRightOne shift _ = _
  induction shift generalizing significand with
  | zero => simp [Nat.repeat]
  | succ shift ih =>
      rw [Nat.repeat, Nat.pow_succ', ← Nat.mul_assoc, ih]
      simp [ExtendedMantissa.shiftRightOne]

theorem log2_mul_two_pow {n : Nat} (h : n ≠ 0) (shift : Nat) :
    (n * 2 ^ shift).log2 = n.log2 + shift := by
  obtain ⟨hle, hlt⟩ := (Nat.log2_eq_iff h).1 rfl
  rw [Nat.log2_eq_iff (by positivity), Nat.add_right_comm, Nat.pow_add, Nat.pow_add]
  exact ⟨Nat.mul_le_mul_right _ hle, Nat.mul_lt_mul_of_pos_right hlt (by positivity)⟩

section Normal

variable {significand : Nat} {exponent : Int}

/-- The exponent that belongs to 53 bits is found again after a shift to the left. -/
theorem shiftToTargetExponent_shifted (hlog : significand.log2 = 52) (hmin : -1074 ≤ exponent)
    (shift : Nat) :
    shiftToTargetExponent Format.binary64 (significand * 2 ^ shift) (exponent - shift) .exact =
      (⟨significand, false, false⟩, exponent) := by
  have hpos : significand ≠ 0 := by
    rintro rfl
    simp at hlog
  have htarget : Format.binary64.targetExponent
      (totalExponent (significand * 2 ^ shift) (exponent - shift)) = exponent := by
    rw [totalExponent, log2_mul_two_pow hpos, hlog]
    simp only [Format.targetExponent, Format.mantissaBits, Format.minExponent]
    omega
  have hshift : (exponent - (exponent - shift)).toNat = shift := by omega
  rw [shiftToTargetExponent, htarget, shiftToExponent, hshift]
  simp [ExtendedMantissa.ofMantissaAndAccuracy, shiftRight_shifted]

/-- A significand of 53 bits that has been shifted to the left is rounded to itself. -/
theorem roundWithAccuracy_shifted (sign : Sign) (hpos : 0 < significand)
    (hlog : significand.log2 = 52) (hmin : -1074 ≤ exponent) (shift : Nat) :
    roundWithAccuracy Format.binary64 sign (significand * 2 ^ shift) (exponent - shift) .exact =
      .finite sign significand exponent hpos := by
  have hagain := shiftToTargetExponent_shifted hlog hmin 0
  rw [pow_zero, Nat.mul_one, Nat.cast_zero, sub_zero] at hagain
  have hrounded : (⟨significand, false, false⟩ : ExtendedMantissa).roundedMantissa = significand :=
    rfl
  simp only [roundWithAccuracy, shiftToTargetExponent_shifted hlog hmin shift, hrounded, hagain,
    dif_neg hpos.ne']

/-- A significand of 53 bits is packed without loss. -/
theorem unpack_pack (sign : Sign) (hpos : 0 < significand) (hlog : significand.log2 = 52)
    (hmin : -1074 ≤ exponent) (hmax : exponent ≤ 971) :
    (Float.Model.pack (.finite sign significand exponent hpos)).unpack =
      .finite sign significand exponent hpos := by
  obtain ⟨hle, hlt⟩ := (Nat.log2_eq_iff hpos.ne').1 hlog
  have hbias : (exponent + Format.binary64.exponentBias +
      Format.binary64.mantissaBitsWithoutImplicit).toNat = (exponent + 1075).toNat := by
    change (exponent + 1023 + 52).toNat = _
    rw [add_assoc]
    rfl
  have hfield : (BitVec.ofNat 11 (exponent + 1075).toNat).toNat = (exponent + 1075).toNat :=
    Nat.mod_eq_of_lt (by omega)
  have hlargest : BitVec.ofNat 11 (exponent + 1075).toNat ≠ -1#11 := by
    intro h
    have h : (exponent + 1075).toNat = 2047 := hfield.symm.trans (congrArg BitVec.toNat h)
    omega
  have hsmallest : BitVec.ofNat 11 (exponent + 1075).toNat ≠ 0#11 := by
    intro h
    have h : (exponent + 1075).toNat = 0 := hfield.symm.trans (congrArg BitVec.toNat h)
    omega
  have happend : (1#1 ++ BitVec.ofNat 52 significand).toNat = significand := by
    rw [BitVec.toNat_append, ← Nat.shiftLeft_add_eq_or_of_lt (BitVec.ofNat 52 significand).isLt,
      BitVec.toNat_ofNat, Nat.shiftLeft_eq]
    change 1 * 2 ^ 52 + significand % 2 ^ 52 = significand
    omega
  change UnpackedFloat.unpack Format.binary64 (UnpackedFloat.pack Format.binary64 _) = _
  rw [UnpackedFloat.pack]
  simp only [hlog, hbias]
  rw [if_neg (by omega), if_pos (show 52 + 1 = Format.binary64.mantissaBits from rfl),
    UnpackedFloat.unpack]
  simp only [unpackMantissa_packComponents, unpackExponent_packComponents,
    unpackSign_packComponents, Sign.ofBitVec_toBitVec]
  rw [if_neg hlargest, if_neg hsmallest]
  congr
  rw [hfield, Int.toNat_of_nonneg (by omega)]
  exact add_sub_cancel_right ..

end Normal

/-- What a natural number below `2 ^ 53` is unpacked into: 53 bits without rounding. -/
theorem unpack_ofNat {n : Nat} (hpos : 0 < n) (h : n < 2 ^ 53) :
    (Float.ofNat n).toModel.unpack =
      .finite .positive (n * 2 ^ (52 - n.log2)) (-(52 - n.log2 : Nat)) (by positivity) := by
  have hlog : n.log2 ≤ 52 := Nat.le_of_lt_succ ((Nat.log2_lt hpos.ne').2 h)
  have hexponent : Format.binary64.targetExponent (totalExponent n 0) = -(52 - n.log2 : Nat) := by
    simp only [Format.targetExponent, totalExponent, Format.mantissaBits, Format.minExponent]
    omega
  have hsignificand : (n * 2 ^ (52 - n.log2)).log2 = 52 := by
    rw [log2_mul_two_pow hpos.ne']
    omega
  have hmin : -1074 ≤ -((52 - n.log2 : Nat) : Int) := by omega
  generalize 52 - n.log2 = shift at *
  have hrounded := roundWithAccuracy_shifted .positive (by positivity) hsignificand hmin
  have hconverted : UnpackedFloat.ofNat Format.binary64 n =
      .finite .positive (n * 2 ^ shift) (-shift) (by positivity) := by
    have hcompare : compare (n : Int) 0 = .gt := compare_gt_iff_gt.2 (by omega)
    rw [UnpackedFloat.ofNat, UnpackedFloat.ofInt, UnpackedFloat.normalize, hcompare]
    dsimp only
    rw [Int.toNat_natCast, UnpackedFloat.round, hexponent, decreaseExponent]
    simpa [Nat.shiftLeft_eq] using hrounded 0
  have hone : (Float.ofBits 4607182418800017408).toModel.unpack =
      .finite .positive (2 ^ 52) (-52) (by decide) := rfl
  have hunpack := unpack_pack .positive (by positivity) hsignificand hmin (by omega)
  have hfloat : Float.ofNat n = n.toUInt64.toFloat * Float.ofBits 4607182418800017408 := by
    change Float.ofScientific n false 0 = _
    rw [Float.ofScientific, dif_pos ⟨h, by decide⟩]
    rfl
  have hword : n.toUInt64.toNat = n := Nat.mod_eq_of_lt (by omega)
  have hleft : n.toUInt64.toFloat.toModel.unpack =
      .finite .positive (n * 2 ^ shift) (-shift) (by positivity) := by
    change (Float.Model.pack (UnpackedFloat.ofNat Format.binary64 n.toUInt64.toNat)).unpack = _
    rw [hword, hconverted, hunpack]
  have hproduct : UnpackedFloat.mul Format.binary64
      (.finite .positive (n * 2 ^ shift) (-shift) (by positivity))
      (.finite .positive (2 ^ 52) (-52) (by decide)) =
        .finite .positive (n * 2 ^ shift) (-shift) (by positivity) := hrounded 52
  rw [hfloat]
  change (Float.Model.pack (UnpackedFloat.mul Format.binary64 n.toUInt64.toFloat.toModel.unpack
    (Float.ofBits 4607182418800017408).toModel.unpack)).unpack = _
  rw [hleft, hone, hproduct, hunpack]

/-- The natural numbers up to `2 ^ 53` are doubles. -/
theorem rational?_ofNat {n : Nat} (h : n ≤ 2 ^ 53) : rational? (Float.ofNat n) = some ↑n := by
  rcases Nat.eq_zero_or_pos n with rfl | hpos
  · rfl
  rcases h.lt_or_eq with hlt | rfl
  · rw [rational?, unpack_ofNat hpos hlt]
    simp [Sign.apply]
  · have hunpack : (Float.ofNat (2 ^ 53)).toModel.unpack =
        .finite .positive (2 ^ 52) 1 (by decide) := rfl
    rw [rational?, hunpack]
    simp [Sign.apply]
    norm_num

end Lox.Decimal
