import Mathlib
import Credis.Double

/-! The order of the doubles: away from NaN, `<` and `==` compare the places of
the two numbers in a linear order. What is converted from an integer is away from
NaN. Nothing in this file refers to the server. -/

namespace Double

open Float.Model Float.Model.UnpackedFloat

/-- The place of a number; both zeros have one place. -/
def rank : UnpackedFloat → ℤ ×ₗ ℤ ×ₗ ℤ
  | .notANumber => toLex (3, toLex (0, 0))
  | .infinity .negative => toLex (-2, toLex (0, 0))
  | .finite .negative mantissa exponent _ => toLex (-1, toLex (-exponent, -(mantissa : ℤ)))
  | .zero _ => toLex (0, toLex (0, 0))
  | .finite .positive mantissa exponent _ => toLex (1, toLex (exponent, (mantissa : ℤ)))
  | .infinity .positive => toLex (2, toLex (0, 0))

section Unpacked

variable {left right : UnpackedFloat}

theorem unpacked_order (first : left.isNaN = false) (second : right.isNaN = false) :
    (left.lt right = true ↔ rank left < rank right) ∧
      (left.beq right = true ↔ rank left = rank right) := by
  unfold UnpackedFloat.lt UnpackedFloat.beq
  rcases left with (_ | _) | _ | _ | ⟨_ | _, mantissa, exponent, _⟩ <;>
  rcases right with (_ | _) | _ | _ | ⟨_ | _, mantissa', exponent', _⟩
  all_goals first
    | exact absurd first (by decide)
    | exact absurd second (by decide)
    | (simp [UnpackedFloat.compare, rank, Prod.Lex.lt_iff, Ordering.then_eq_lt,
        Ordering.then_eq_gt, Ordering.then_eq_eq, compare_lt_iff_lt, compare_gt_iff_gt]; done)
    | decide

end Unpacked

def place (value : Float) : ℤ ×ₗ ℤ ×ₗ ℤ := rank value.toModel.unpack

variable {left right : Float}

theorem lt_iff_place (first : left.isNaN = false) (second : right.isNaN = false) :
    left < right ↔ place left < place right :=
  decide_eq_true_iff.trans (unpacked_order first second).1

theorem beq_iff_place (first : left.isNaN = false) (second : right.isNaN = false) :
    (left == right) = true ↔ place left = place right :=
  (unpacked_order first second).2

/-! Conversions from integers. -/

theorem ofNat_ne_ones {width value : Nat} (below : value + 1 < 2 ^ width) :
    BitVec.ofNat width value ≠ -(BitVec.ofNat width 1) := by
  intro same
  have values := congrArg BitVec.toNat same
  rw [BitVec.toNat_ofNat, BitVec.neg_one_eq_allOnes, BitVec.toNat_allOnes,
    Nat.mod_eq_of_lt (by omega)] at values
  omega

theorem unpack_pack_isNaN (spec : Format) {value : UnpackedFloat} (number : value.isNaN = false) :
    (unpack spec (pack spec value)).isNaN = false := by
  have infinite : ∀ sign, (unpack spec
      (packedInfinity spec sign)).isNaN = false := by
    intro sign
    unfold UnpackedFloat.unpack UnpackedFloat.packedInfinity
    simp only [unpackMantissa_packComponents,
      unpackExponent_packComponents, if_true]
    rfl
  have finite : ∀ sign (exponent : Nat) mantissa, exponent + 1 < 2 ^ spec.exponentBits →
      (unpack spec (packComponents spec sign
        (BitVec.ofNat _ exponent) mantissa)).isNaN = false := by
    intro sign exponent mantissa below
    unfold UnpackedFloat.unpack
    simp only [unpackMantissa_packComponents,
      unpackExponent_packComponents, if_neg (ofNat_ne_ones below)]
    split
    · split <;> rfl
    · rfl
  have small : 0 + 1 < 2 ^ spec.exponentBits := Nat.one_lt_two_pow spec.he.ne'
  cases value with
  | notANumber => cases number
  | infinity sign => exact infinite sign
  | zero sign => exact finite sign 0 _ small
  | finite sign mantissa exponent positive =>
    unfold UnpackedFloat.pack
    dsimp only
    split
    · exact infinite sign
    · split
      · exact finite sign _ _ (by omega)
      · exact finite sign 0 _ small

theorem normalize_isNaN (spec : Format) (mantissa exponent : Int) (sign : Sign) :
    (normalize spec mantissa exponent sign).isNaN = false := by
  have rounded : ∀ sign mantissa exponent,
      (round spec sign mantissa exponent).isNaN = false := by
    intro sign mantissa exponent
    unfold UnpackedFloat.round UnpackedFloat.roundWithAccuracy
    dsimp only
    split <;> rfl
  unfold UnpackedFloat.normalize
  split
  · exact rounded _ _ _
  · rfl
  · exact rounded _ _ _

theorem toFloat_isNaN (value : UInt64) : value.toFloat.isNaN = false :=
  unpack_pack_isNaN Format.binary64 (normalize_isNaN Format.binary64 _ _ _)

end Double
