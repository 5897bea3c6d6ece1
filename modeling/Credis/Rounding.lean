import Credis.DoubleOrder

/-! Rounding to a double: no number of 53 bits lies between a number and the double
that it is rounded to. Nothing in this file refers to the server. -/

namespace Double

open Float.Model UnpackedFloat

variable {mantissa count : Nat} {exponent : Int} {sign : Sign}

variable {value : UInt64}

def magnitude (mantissa : Nat) (exponent : Int) : ℚ := mantissa * 2 ^ exponent

/-- No number of 53 bits lies between the two. -/
def Faithful (precise rounded : ℚ) : Prop :=
  ∀ mantissa ≤ 2 ^ 53, ∀ exponent ≥ -1074,
    (magnitude mantissa exponent ≤ precise → magnitude mantissa exponent ≤ rounded) ∧
      (precise ≤ magnitude mantissa exponent → rounded ≤ magnitude mantissa exponent)

def Canonical (mantissa : Nat) (exponent : Int) : Prop :=
  mantissa < 2 ^ 53 ∧ -1074 ≤ exponent ∧ (-1074 < exponent → 2 ^ 52 ≤ mantissa)

theorem magnitude_natCast (value : Nat) : magnitude value 0 = value := by
  rw [magnitude, zpow_zero, mul_one]

theorem magnitude_one (exponent : Int) : magnitude 1 exponent = 2 ^ exponent := by
  rw [magnitude, Nat.cast_one, one_mul]

theorem magnitude_mul_pow (mantissa count : Nat) (exponent : Int) :
    magnitude (mantissa * 2 ^ count) exponent = magnitude mantissa (exponent + count) := by
  rw [magnitude, magnitude, zpow_add₀ two_ne_zero, zpow_natCast]
  push_cast
  ring

theorem magnitude_pos (positive : 0 < mantissa) (exponent : Int) :
    0 < magnitude mantissa exponent := by
  unfold magnitude
  positivity

theorem magnitude_mul (left right : Nat) (place other : Int) :
    magnitude left place * magnitude right other = magnitude (left * right) (place + other) := by
  rw [magnitude, magnitude, magnitude, zpow_add₀ two_ne_zero]
  push_cast
  ring

theorem magnitude_le_iff {left right : Nat} :
    magnitude left exponent ≤ magnitude right exponent ↔ left ≤ right := by
  rw [magnitude, magnitude, mul_le_mul_iff_left₀ (zpow_pos two_pos exponent), Nat.cast_le]

theorem Faithful.eq {rounded : ℚ} (faithful : Faithful (magnitude mantissa exponent) rounded)
    (small : mantissa ≤ 2 ^ 53) (low : -1074 ≤ exponent) : rounded = magnitude mantissa exponent :=
  le_antisymm ((faithful mantissa small exponent low).2 le_rfl)
    ((faithful mantissa small exponent low).1 le_rfl)

theorem Faithful.near_floor {precise rounded : ℚ} (faithful : Faithful precise rounded)
    (positive : 0 < ⌊rounded⌋) (small : ⌊rounded⌋ < 2 ^ 53) : |precise - ⌊rounded⌋| < 1 := by
  obtain ⟨count, same⟩ := Int.eq_ofNat_of_zero_le positive.le
  have below := Int.floor_le rounded
  have above := Int.lt_floor_add_one rounded
  rw [same] at positive small below above ⊢
  rw [abs_sub_lt_iff]
  constructor
  · by_contra far
    have next := (faithful (count + 1) (by omega) 0 (by decide)).1
    rw [magnitude_natCast] at next
    push_cast at next far above
    linarith [next (by linarith)]
  · by_contra far
    have before := (faithful (count - 1) (by omega) 0 (by decide)).2
    rw [magnitude_natCast, Nat.cast_sub (by omega)] at before
    push_cast at before far below
    linarith [before (by linarith)]

theorem Canonical.exponent_le {limit : Int} (canonical : Canonical mantissa exponent)
    (low : -1074 ≤ limit) (below : magnitude mantissa exponent ≤ magnitude 1 limit) :
    exponent ≤ limit := by
  by_contra above
  have full : 1 ≤ mantissa := le_trans (by decide) (canonical.2.2 (by omega))
  have least := (magnitude_le_iff.mpr full).trans below
  rw [magnitude_one, magnitude_one] at least
  exact absurd (zpow_lt_zpow_right₀ one_lt_two (Int.not_le.mp above)) least.not_gt

/-! A shift to the right drops bits and remembers whether one was set. -/

theorem shiftRight_exact (mantissa count : Nat) : ∃ roundBit stickyBit,
    (⟨mantissa, false, false⟩ : ExtendedMantissa) >>> count =
        ⟨mantissa / 2 ^ count, roundBit, stickyBit⟩ ∧
      (2 ^ count ∣ mantissa → roundBit = false ∧ stickyBit = false) := by
  induction count with
  | zero => exact ⟨false, false, by simp [HShiftRight.hShiftRight, Nat.repeat], by simp⟩
  | succ count ih =>
    obtain ⟨roundBit, stickyBit, same, dropped⟩ := ih
    refine ⟨_, _, (congrArg ExtendedMantissa.shiftRightOne same).trans
      (congrArg (ExtendedMantissa.mk · _ _) ?_), fun divides => ?_⟩
    · exact (Nat.div_div_eq_div_mul _ _ _).trans (by rw [Nat.pow_succ])
    · obtain ⟨factor, rfl⟩ := divides
      obtain ⟨rfl, rfl⟩ := dropped ⟨2 * factor, by ring⟩
      have even : 2 ^ (count + 1) * factor / 2 ^ count % 2 = 0 := by
        rw [pow_succ, mul_assoc, Nat.mul_div_cancel_left _ (by positivity)]
        omega
      simp [even]

theorem roundedMantissa_near (mantissa : Nat) (roundBit stickyBit : Bool) :
    mantissa ≤ ExtendedMantissa.roundedMantissa ⟨mantissa, roundBit, stickyBit⟩ ∧
      ExtendedMantissa.roundedMantissa ⟨mantissa, roundBit, stickyBit⟩ ≤ mantissa + 1 := by
  cases roundBit <;> cases stickyBit <;>
    simp only [ExtendedMantissa.roundedMantissa, ExtendedMantissa.accuracy,
      Accuracy.roundToNearestEven] <;> omega

theorem faithful_of_shift {rounded : Nat}
    (near : mantissa / 2 ^ count ≤ rounded ∧ rounded ≤ mantissa / 2 ^ count + 1)
    (precise : 2 ^ count ∣ mantissa → rounded = mantissa / 2 ^ count)
    (full : -1074 < exponent + count → 2 ^ 52 ≤ mantissa / 2 ^ count) :
    Faithful (magnitude mantissa exponent) (magnitude rounded (exponent + count)) := by
  intro bits small place low
  have positive : 0 < 2 ^ count := by positivity
  rw [← magnitude_mul_pow]
  by_cases coarse : exponent + count ≤ place
  · obtain ⟨gap, rfl⟩ := Int.le.dest coarse
    rw [← magnitude_mul_pow, ← magnitude_mul_pow, magnitude_le_iff, magnitude_le_iff,
      magnitude_le_iff, magnitude_le_iff]
    refine ⟨fun least => Nat.mul_le_mul_right _ ?_, fun most => Nat.mul_le_mul_right _ ?_⟩
    · exact ((Nat.le_div_iff_mul_le positive).mpr least).trans near.1
    · by_cases divides : 2 ^ count ∣ mantissa
      · rw [precise divides]
        exact Nat.div_le_of_le_mul (most.trans_eq (Nat.mul_comm _ _))
      · have less := lt_of_le_of_ne most fun same => divides ⟨_, same.trans (Nat.mul_comm _ _)⟩
        exact near.2.trans ((Nat.div_lt_iff_lt_mul positive).mpr less)
  · -- A finer number of 53 bits lies below the first one of this place.
    obtain ⟨gap, last⟩ := Int.lt.dest (Int.not_le.mp coarse)
    have above : magnitude bits place ≤ magnitude (2 ^ 52 * 2 ^ count) exponent := by
      rw [magnitude_mul_pow, ← last, ← magnitude_mul_pow, magnitude_le_iff, pow_succ]
      have given := Nat.one_le_two_pow (n := gap)
      omega
    have below := Nat.mul_le_mul_right (2 ^ count) (full (by omega))
    refine ⟨fun _ => above.trans (magnitude_le_iff.mpr ?_), fun least => ?_⟩
    · exact below.trans (Nat.mul_le_mul_right _ near.1)
    · have same : mantissa = mantissa / 2 ^ count * 2 ^ count :=
        le_antisymm ((magnitude_le_iff.mp (least.trans above)).trans below)
          (Nat.div_mul_le_self _ _)
      rwa [precise ⟨_, same.trans (Nat.mul_comm _ _)⟩, ← same]

def ofParts (sign : Sign) (mantissa : Nat) (exponent : Int) : UnpackedFloat :=
  if zero : mantissa = 0 then .zero sign
  else .finite sign mantissa exponent (Nat.pos_of_ne_zero zero)

theorem shiftToTargetExponent_eq
    (target : (max (mantissa.log2 + 1 + exponent - 53) (-1074) - exponent).toNat = count) :
    shiftToTargetExponent .binary64 mantissa exponent .exact =
      ((⟨mantissa, false, false⟩ : ExtendedMantissa) >>> count, exponent + count) := by
  rw [← target]
  rfl

theorem roundWithAccuracy_eq {shifted : ExtendedMantissa} {place : Int}
    (first : shiftToTargetExponent .binary64 mantissa exponent .exact = (shifted, place)) :
    roundWithAccuracy .binary64 sign mantissa exponent .exact =
      ofParts sign
        (shiftToTargetExponent .binary64 shifted.roundedMantissa place .exact).1.mantissa
        (shiftToTargetExponent .binary64 shifted.roundedMantissa place .exact).2 := by
  simp only [roundWithAccuracy, first]
  rfl

theorem roundWithAccuracy_faithful (sign : Sign) (positive : mantissa ≠ 0)
    (low : exponent ≤ max (mantissa.log2 + 1 + exponent - 53) (-1074)) :
    ∃ rounded place, roundWithAccuracy .binary64 sign mantissa exponent .exact =
        ofParts sign rounded place ∧ Canonical rounded place ∧
      Faithful (magnitude mantissa exponent) (magnitude rounded place) := by
  obtain ⟨count, target⟩ := Int.le.dest low
  obtain ⟨roundBit, stickyBit, shifted, dropped⟩ := shiftRight_exact mantissa count
  have near := roundedMantissa_near (mantissa / 2 ^ count) roundBit stickyBit
  have small : mantissa / 2 ^ count < 2 ^ 53 := by
    rw [Nat.div_lt_iff_lt_mul (by positivity), ← pow_add]
    exact Nat.lt_log2_self.trans_le (Nat.pow_le_pow_right (by decide) (by omega))
  have full : -1074 < exponent + count → 2 ^ 52 ≤ mantissa / 2 ^ count := by
    intro above
    rw [Nat.le_div_iff_mul_le (by positivity), ← pow_add]
    exact (Nat.pow_le_pow_right (by decide) (by omega)).trans (Nat.log2_self_le positive)
  have faithful := faithful_of_shift near (fun divides => by
    obtain ⟨rfl, rfl⟩ := dropped divides
    rfl) full
  rw [roundWithAccuracy_eq (@shiftToTargetExponent_eq _ count _ (by omega)), shifted]
  generalize ExtendedMantissa.roundedMantissa ⟨mantissa / 2 ^ count, roundBit, stickyBit⟩ =
    rounded at *
  rcases Nat.lt_or_ge rounded (2 ^ 53) with fits | carried
  · have bits : rounded.log2 < 53 := by
      rcases Nat.eq_zero_or_pos rounded with rfl | given
      · decide
      · exact (Nat.log2_lt given.ne').mpr fits
    rw [@shiftToTargetExponent_eq rounded 0 (exponent + count) (by omega)]
    exact ⟨rounded, _, congrArg (ofParts sign rounded) (Int.add_zero _),
      ⟨fits, by omega, fun above => (full above).trans near.1⟩, faithful⟩
  · obtain rfl : rounded = 2 ^ 53 := by omega
    rw [@shiftToTargetExponent_eq (2 ^ 53) 1 (exponent + count)
      (by rw [Nat.log2_two_pow]; omega)]
    refine ⟨2 ^ 52, _, rfl, ⟨by decide, by omega, fun _ => le_rfl⟩, ?_⟩
    rwa [← magnitude_mul_pow]

/-! Packing keeps a double. -/

theorem unpackSign_packComponents {spec : Format} {exponent mantissa} :
    Sign.ofBitVec (unpackSign (packComponents spec sign exponent mantissa)) = sign := by
  have bits : unpackSign (packComponents spec sign exponent mantissa) = sign.toBitVec := by
    ext i hi
    simp only [unpackSign, packComponents, BitVec.extractLsb, BitVec.getElem_cast,
      BitVec.getElem_extractLsb', BitVec.getLsbD_append]
    rw [if_neg (by omega), if_neg (by omega), BitVec.getLsbD_eq_getElem (by omega)]
    congr 1
    omega
  rw [bits]
  cases sign <;> rfl

theorem unpack_packComponents {biased bits : Nat} (below : biased + 1 < 2 ^ 11)
    (less : bits < 2 ^ 52) :
    unpack .binary64
        (packComponents .binary64 sign (BitVec.ofNat 11 biased) (BitVec.ofNat 52 bits)) =
      if biased = 0 then ofParts sign bits (-1074)
      else ofParts sign (2 ^ 52 + bits) (biased - 1075) := by
  have bias : (Format.binary64.exponentBias : Int) + (52 : Nat) = 1075 := rfl
  have scale : (BitVec.ofNat 11 biased).toNat = biased := by
    rw [BitVec.toNat_ofNat, Nat.mod_eq_of_lt (by omega)]
  have digits : (BitVec.ofNat 52 bits).toNat = bits := by
    rw [BitVec.toNat_ofNat, Nat.mod_eq_of_lt less]
  have whole : (1#1 ++ BitVec.ofNat 52 bits).toNat = 2 ^ 52 + bits := by
    rw [BitVec.toNat_append, ← Nat.shiftLeft_add_eq_or_of_lt (BitVec.isLt _), digits]
    rfl
  unfold UnpackedFloat.unpack
  simp only [unpackSign_packComponents, unpackMantissa_packComponents,
    unpackExponent_packComponents, if_neg (ofNat_ne_ones below), bias, scale, digits, whole]
  simp only [← BitVec.toNat_inj, scale, digits, ofParts, BitVec.toNat_zero]
  split
  · subst biased
    rfl
  · rw [dif_neg (by omega)]

theorem pack_ofParts (sign : Sign) (given : mantissa ≠ 0) (exponent : Int) :
    pack .binary64 (ofParts sign mantissa exponent) =
      if 2 ^ 11 ≤ (exponent + 1023 + 52).toNat + 1 then packedInfinity .binary64 sign
      else if mantissa.log2 + 1 = 53 then packComponents .binary64 sign
        (BitVec.ofNat 11 (exponent + 1023 + 52).toNat) (BitVec.ofNat 52 mantissa)
      else packComponents .binary64 sign 0#11 (BitVec.ofNat 52 mantissa) := by
  rw [ofParts, dif_neg given]
  rfl

theorem unpack_pack (sign : Sign) (canonical : Canonical mantissa exponent)
    (fits : exponent ≤ 971) :
    unpack .binary64
      (pack .binary64 (ofParts sign mantissa exponent)) =
      ofParts sign mantissa exponent := by
  obtain ⟨small, low, full⟩ := canonical
  by_cases zero : mantissa = 0
  · subst zero
    exact unpack_packComponents (by decide : 0 + 1 < 2 ^ 11) (by decide : 0 < 2 ^ 52)
  rw [pack_ofParts sign zero, if_neg (by omega)]
  by_cases normal : 2 ^ 52 ≤ mantissa
  · have hidden : BitVec.ofNat 52 mantissa = BitVec.ofNat 52 (mantissa - 2 ^ 52) := by
      refine BitVec.eq_of_toNat_eq ?_
      rw [BitVec.toNat_ofNat, BitVec.toNat_ofNat]
      omega
    have bits : mantissa.log2 = 52 := (Nat.log2_eq_iff zero).mpr ⟨normal, small⟩
    rw [if_pos (by rw [bits]), hidden, unpack_packComponents (by omega) (by omega),
      if_neg (by omega), Nat.add_sub_cancel' normal]
    congr 1
    omega
  · have bits := (Nat.log2_lt zero).mpr (Nat.lt_of_not_le normal)
    rw [if_neg (by omega), show exponent = -1074 by omega]
    exact unpack_packComponents (by decide : 0 + 1 < 2 ^ 11) (Nat.lt_of_not_le normal)

/-! Conversions from and to integers. -/

theorem roundToInt_eq (mantissa : Nat) (exponent : Int) :
    roundToInt .positive mantissa exponent = ⌊magnitude mantissa exponent⌋ := by
  obtain ⟨_, _, shifted, -⟩ :=
    shiftRight_exact (mantissa * 2 ^ exponent.toNat) (-(exponent - exponent.toNat)).toNat
  have quotient : magnitude mantissa exponent = ((mantissa * 2 ^ exponent.toNat : Nat) : ℚ) /
      ((2 ^ (-(exponent - exponent.toNat)).toNat : Nat) : ℚ) := by
    rw [eq_div_iff (by positivity), magnitude]
    push_cast
    rw [mul_assoc, ← zpow_natCast, ← zpow_natCast, ← zpow_add₀ two_ne_zero]
    congr 2
    omega
  rw [quotient, Rat.floor_natCast_div_natCast]
  simp only [roundToInt, decreaseExponent, shiftToExponent, Nat.shiftLeft_eq, Int.sub_zero,
    Int.zero_sub, ExtendedMantissa.ofMantissaAndAccuracy, shifted]
  rfl

theorem log2_mul_pow {value : Nat} (positive : value ≠ 0) (count : Nat) :
    (value * 2 ^ count).log2 = value.log2 + count := by
  induction count with
  | zero => rw [pow_zero, mul_one, Nat.add_zero]
  | succ count ih =>
    rw [pow_succ, ← mul_assoc, mul_comm _ 2, Nat.log2_two_mul (by positivity), ih, Nat.add_assoc]

theorem ofNat_faithful (value : Nat) : ∃ rounded place,
    UnpackedFloat.ofNat .binary64 value = ofParts .positive rounded place ∧
      Canonical rounded place ∧ Faithful value (magnitude rounded place) := by
  rcases Nat.eq_zero_or_pos value with rfl | positive
  · refine ⟨0, -1074, rfl, ⟨by decide, by decide, by decide⟩, fun _ _ _ _ => ?_⟩
    rw [magnitude, magnitude, Nat.cast_zero, zero_mul]
    exact ⟨id, id⟩
  · obtain ⟨count, shift⟩ : ∃ count : Nat,
        count = (0 - max ((value.log2 : Int) + 1 + 0 - 53) (-1074)).toNat := ⟨_, rfl⟩
    have same : UnpackedFloat.ofNat .binary64 value =
        roundWithAccuracy .binary64 .positive (value * 2 ^ count) (0 - count) .exact := by
      have order : compare (value : Int) 0 = .gt := compare_gt_iff_gt.mpr (by omega)
      simp only [UnpackedFloat.ofNat, UnpackedFloat.ofInt, UnpackedFloat.normalize, order,
        Int.toNat_natCast, shift, ← Nat.shiftLeft_eq]
      rfl
    have size := log2_mul_pow positive.ne' count
    obtain ⟨rounded, place, result, canonical, faithful⟩ :=
      @roundWithAccuracy_faithful (value * 2 ^ count) (0 - count) .positive (by positivity)
        (by omega)
    rw [magnitude_mul_pow, Int.sub_add_cancel, magnitude_natCast] at faithful
    exact ⟨rounded, place, same.trans result, canonical, faithful⟩

theorem toFloat_faithful (value : UInt64) : ∃ rounded place,
    value.toFloat.toModel.unpack = ofParts .positive rounded place ∧
      Canonical rounded place ∧ Faithful value.toNat (magnitude rounded place) := by
  obtain ⟨rounded, place, result, canonical, faithful⟩ := ofNat_faithful value.toNat
  refine ⟨rounded, place, ?_, canonical, faithful⟩
  have packed : value.toFloat.toModel.unpack = unpack .binary64
      (pack .binary64 (ofParts .positive rounded place)) := by
    rw [← result]
    rfl
  rw [packed, unpack_pack .positive canonical]
  refine (canonical.exponent_le (by decide) ((faithful 1 (by decide) 64 (by decide)).2 ?_)).trans
    (by decide : (64 : Int) ≤ 971)
  rw [magnitude_one]
  exact_mod_cast value.toNat_lt.le

theorem toUInt64_eq {value : Float}
    (unpacked : value.toModel.unpack = ofParts .positive mantissa exponent)
    (below : magnitude mantissa exponent < 2 ^ 64) :
    (value.toUInt64.toNat : Int) = ⌊magnitude mantissa exponent⌋ := by
  have whole : value.toModel.unpack.toInt 0 (UInt64.size - 1) =
      ⌊magnitude mantissa exponent⌋ := by
    rw [unpacked, ofParts]
    split
    · subst mantissa
      simp [toInt, magnitude]
    · exact roundToInt_eq _ _
  have clamp : value.toUInt64 =
      UInt64.ofNatClamp (value.toModel.unpack.toInt 0 (UInt64.size - 1)).toNat := rfl
  have low : 0 ≤ ⌊magnitude mantissa exponent⌋ :=
    Int.floor_nonneg.mpr (by unfold magnitude; positivity)
  have high : ⌊magnitude mantissa exponent⌋ < 2 ^ 64 := Int.floor_lt.mpr (by exact_mod_cast below)
  rw [clamp, whole, UInt64.ofNatClamp, dif_pos ((Int.toNat_lt low).mpr high),
    UInt64.toNat_ofNatLT, Int.toNat_of_nonneg low]

theorem toUInt64_toFloat {exponent : Nat} (small : mantissa ≤ 2 ^ 53)
    (same : value.toNat = mantissa * 2 ^ exponent) : value.toFloat.toUInt64 = value := by
  obtain ⟨rounded, place, unpacked, -, faithful⟩ := toFloat_faithful value
  have precise : (value.toNat : ℚ) = magnitude mantissa (0 + exponent) := by
    rw [← magnitude_mul_pow, ← same, magnitude_natCast]
  rw [precise] at faithful
  have rounds := faithful.eq small (by omega)
  rw [← precise] at rounds
  have truncated := toUInt64_eq unpacked (by rw [rounds]; exact_mod_cast value.toNat_lt)
  rw [rounds, Int.floor_natCast] at truncated
  exact UInt64.toNat.inj (Int.ofNat.inj truncated)

/-- From `2 ^ 53` on the doubles are even numbers. -/
theorem toUInt64_toFloat_even (large : 2 ^ 53 ≤ value.toNat) (below : value.toNat < 2 ^ 54) :
    value.toFloat.toUInt64.toNat % 2 = 0 := by
  obtain ⟨rounded, place, unpacked, ⟨small, -, -⟩, faithful⟩ := toFloat_faithful value
  have least : magnitude (2 ^ 53) 0 ≤ magnitude rounded place := by
    refine (faithful (2 ^ 53) le_rfl 0 (by decide)).1 ?_
    rw [magnitude_natCast]
    exact_mod_cast large
  have most : magnitude rounded place ≤ magnitude 1 54 := by
    refine (faithful 1 (by decide) 54 (by decide)).2 ?_
    rw [magnitude_one]
    exact_mod_cast below.le
  have above : 0 < place := by
    by_contra low
    obtain ⟨gap, last⟩ := Int.le.dest (Int.not_lt.mp low)
    rw [← last, ← magnitude_mul_pow, magnitude_le_iff] at least
    exact absurd ((Nat.le_mul_of_pos_right _ (by positivity)).trans least) small.not_ge
  obtain ⟨gap, rfl⟩ := Int.lt.dest above
  have truncated := toUInt64_eq unpacked (most.trans_lt (by rw [magnitude_one]; norm_num))
  rw [← magnitude_mul_pow, magnitude_natCast, Int.floor_natCast, pow_succ,
    ← mul_assoc] at truncated
  generalize rounded * 2 ^ gap = half at truncated
  omega

section Product

variable {value factor : Float} {number : ℚ}

/-- The number that a finite double stands for. -/
def exact (value : Float) : Option ℚ :=
  match value.toModel.unpack with
  | .finite sign mantissa exponent _ =>
    some (if isNegative sign then -magnitude mantissa exponent else magnitude mantissa exponent)
  | .zero _ => some 0
  | _ => none

theorem unpack_of_exact (precise : exact value = some number) (positive : 0 < number) :
    ∃ mantissa exponent, mantissa ≠ 0 ∧ number = magnitude mantissa exponent ∧
      value.toModel.unpack = ofParts .positive mantissa exponent := by
  unfold Double.exact at precise
  split at precise
  · rename_i sign mantissa exponent given unpacked
    cases precise
    cases sign with
    | negative => exact absurd positive (neg_neg_of_pos (magnitude_pos given exponent)).not_gt
    | positive =>
      exact ⟨mantissa, exponent, given.ne', rfl, by rw [unpacked, ofParts, dif_neg given.ne']⟩
  · cases precise
    exact absurd positive (lt_irrefl _)
  · cases precise

theorem unpack_of_exact_zero (precise : exact value = some 0) :
    ∃ sign, value.toModel.unpack = .zero sign := by
  unfold Double.exact at precise
  split at precise
  · rename_i sign mantissa exponent given unpacked
    have positive := magnitude_pos given exponent
    have zero := Option.some.inj precise
    split at zero <;> linarith
  · exact ⟨_, ‹_›⟩
  · cases precise

theorem unpack_mul (value factor : Float) : (value * factor).toModel.unpack =
    unpack .binary64 (pack .binary64
      (mul .binary64 value.toModel.unpack factor.toModel.unpack)) := rfl

theorem mul_faithful {scale : Nat} {place : Int} (given : mantissa ≠ 0)
    (unpacked : value.toModel.unpack = ofParts .positive mantissa exponent)
    (normal : 2 ^ 52 ≤ scale) (scaled : factor.toModel.unpack = ofParts .positive scale place) :
    ∃ rounded target, Canonical rounded target ∧
      Faithful (magnitude mantissa exponent * magnitude scale place) (magnitude rounded target) ∧
      (value * factor).toModel.unpack = unpack .binary64
        (pack .binary64 (ofParts .positive rounded target)) := by
  have full : scale ≠ 0 := by omega
  have long : 52 ≤ (mantissa * scale).log2 := by
    rw [Nat.le_log2 (Nat.mul_ne_zero given full)]
    exact normal.trans (Nat.le_mul_of_pos_left _ (Nat.pos_of_ne_zero given))
  obtain ⟨rounded, target, rounds, canonical, faithful⟩ := @roundWithAccuracy_faithful
    (mantissa * scale) (exponent + place) .positive (Nat.mul_ne_zero given full) (by omega)
  refine ⟨rounded, target, canonical, by rwa [magnitude_mul], ?_⟩
  rw [unpack_mul, unpacked, scaled, ofParts, ofParts, dif_neg given, dif_neg full, ← rounds]
  rfl

theorem toInt64_eq (unpacked : value.toModel.unpack = ofParts .positive mantissa exponent) :
    toInt64 value = if ⌊magnitude mantissa exponent⌋ < 2 ^ 63 then ⌊magnitude mantissa exponent⌋
      else -(2 ^ 63) := by
  have low : -(2 ^ 63) ≤ ⌊magnitude mantissa exponent⌋ :=
    le_trans (by decide) (Int.floor_nonneg.mpr (by unfold magnitude; positivity))
  rw [toInt64, unpacked]
  by_cases zero : mantissa = 0
  · subst zero
    simp [ofParts, magnitude]
  · simp only [ofParts, dif_neg zero, roundToInt_eq, low, true_and]

/-- Seconds to milliseconds: what is cut off is less than one. -/
theorem toInt64_mul_thousand (precise : exact value = some number) (positive : 0 < number)
    (least : 0 < toInt64 (value * 1000)) (small : toInt64 (value * 1000) < 2 ^ 53) :
    |number * 1000 - toInt64 (value * 1000)| < 1 := by
  obtain ⟨mantissa, exponent, given, rfl, unpacked⟩ := unpack_of_exact precise positive
  have factor : (1000 : Float).toModel.unpack = ofParts .positive (1000 * 2 ^ 43) (-43) := rfl
  obtain ⟨rounded, place, canonical, faithful, product⟩ :=
    mul_faithful given unpacked (by decide) factor
  have thousand : magnitude (1000 * 2 ^ 43) (-43) = 1000 := by
    rw [magnitude_mul_pow]
    exact magnitude_natCast 1000
  rw [thousand] at faithful
  have fits : place ≤ 971 := by
    by_contra above
    have full := canonical.2.2 (by omega)
    rw [pack_ofParts _ (by omega), if_pos (by omega)] at product
    rw [toInt64, product] at least
    exact absurd least (by decide)
  rw [unpack_pack .positive canonical fits] at product
  rw [toInt64_eq product] at least small ⊢
  split at least
  · rename_i inside
    rw [if_pos inside] at small ⊢
    exact faithful.near_floor least small
  · exact absurd least (by decide)

theorem toInt64_zero (precise : exact value = some 0) : toInt64 (value * 1000) = 0 := by
  obtain ⟨sign, zero⟩ := unpack_of_exact_zero precise
  rw [toInt64, unpack_mul, zero]
  cases sign <;> rfl

end Product

end Double
