import Credis.Geo
import Credis.Rounding

/-! The code of a position: the bits of its two cells, interleaved, and what is left of
them when the code has been a score. -/

namespace Credis

variable {width : Nat}

namespace Geo

/-- The bits of `x` are those of `source` in groups of `width`, each group followed by as
many zeros. -/
def Spaced (width : Nat) (source : Nat → Prop) (x : UInt64) : Prop :=
  ∀ j < 64, x.toNat.testBit j = true ↔
    j % (2 * width) < width ∧ source (j / (2 * width) * width + j % width)

def Masks (width : Nat) (mask : UInt64) : Prop :=
  ∀ j < 64, mask.toNat.testBit j = decide (j % (2 * width) < width)

theorem masks : Masks 32 0x00000000FFFFFFFF ∧ Masks 16 0x0000FFFF0000FFFF ∧
    Masks 8 0x00FF00FF00FF00FF ∧ Masks 4 0x0F0F0F0F0F0F0F0F ∧
    Masks 2 0x3333333333333333 ∧ Masks 1 0x5555555555555555 := by
  unfold Masks
  decide

variable {width : Nat} {source : Nat → Prop} {x mask : UInt64}

theorem Spaced.halve (level : width ∈ [16, 8, 4, 2, 1]) (spaced : Spaced (2 * width) source x)
    (masks : Masks width mask) :
    Spaced width source ((x ||| (x <<< UInt64.ofNat width)) &&& mask) := by
  simp only [List.mem_cons, List.not_mem_nil, or_false] at level
  intro j below
  have small : (UInt64.ofNat width).toNat % 64 = width := by
    rcases level with rfl | rfl | rfl | rfl | rfl <;> rfl
  rw [UInt64.toNat_and, UInt64.toNat_or, UInt64.toNat_shiftLeft, small, Nat.testBit_and,
    Nat.testBit_or, Nat.testBit_mod_two_pow, Nat.testBit_shiftLeft, masks j below]
  simp only [Bool.and_eq_true, Bool.or_eq_true, decide_eq_true_eq, below, true_and]
  rw [and_comm, spaced j below, spaced (j - width) (by omega), ← and_assoc]
  refine and_congr_right fun group => ?_
  by_cases first : j % (2 * (2 * width)) < 2 * width
  · have place : j / (2 * (2 * width)) * (2 * width) + j % (2 * width) =
        j / (2 * width) * width + j % width ∧
        ¬ (width ≤ j ∧ (j - width) % (2 * (2 * width)) < 2 * width) := by
      rcases level with rfl | rfl | rfl | rfl | rfl <;> omega
    simp [first, place]
  · have place : (j - width) / (2 * (2 * width)) * (2 * width) + (j - width) % (2 * width) =
        j / (2 * width) * width + j % width ∧
        (width ≤ j ∧ (j - width) % (2 * (2 * width)) < 2 * width) := by
      rcases level with rfl | rfl | rfl | rfl | rfl <;> omega
    simp [first, place]

theorem Spaced.double (level : width ∈ [16, 8, 4, 2, 1]) (spaced : Spaced width source x)
    (masks : Masks (2 * width) mask) :
    Spaced (2 * width) source ((x ||| (x >>> UInt64.ofNat width)) &&& mask) := by
  simp only [List.mem_cons, List.not_mem_nil, or_false] at level
  intro j below
  have small : (UInt64.ofNat width).toNat % 64 = width := by
    rcases level with rfl | rfl | rfl | rfl | rfl <;> rfl
  rw [UInt64.toNat_and, UInt64.toNat_or, UInt64.toNat_shiftRight, small, Nat.testBit_and,
    Nat.testBit_or, Nat.testBit_shiftRight, masks j below]
  simp only [Bool.and_eq_true, Bool.or_eq_true, decide_eq_true_eq]
  rw [and_comm]
  refine and_congr_right fun group => ?_
  rw [spaced j below,
    spaced (width + j) (by rcases level with rfl | rfl | rfl | rfl | rfl <;> omega)]
  by_cases first : j % (2 * width) < width
  · have place : j / (2 * (2 * width)) * (2 * width) + j % (2 * width) =
        j / (2 * width) * width + j % width ∧ ¬ (width + j) % (2 * width) < width := by
      rcases level with rfl | rfl | rfl | rfl | rfl <;> omega
    simp [first, place]
  · have place : j / (2 * (2 * width)) * (2 * width) + j % (2 * width) =
        (width + j) / (2 * width) * width + (width + j) % width ∧
        (width + j) % (2 * width) < width := by
      rcases level with rfl | rfl | rfl | rfl | rfl <;> omega
    simp only [first, place, false_and, false_or, true_and]

theorem testBit_high {value j : Nat} (below : value < 2 ^ width) (high : width ≤ j) :
    value.testBit j = false :=
  Nat.testBit_lt_two_pow (lt_of_lt_of_le below (Nat.pow_le_pow_right (by decide) high))

theorem spread_testBit (value : UInt32) (j : Nat) :
    (spread value).toNat.testBit j = true ↔ j % 2 = 0 ∧ value.toNat.testBit (j / 2) = true := by
  have start : Spaced 32 (fun i => value.toNat.testBit i = true) value.toUInt64 := by
    intro j below
    rw [UInt32.toNat_toUInt64, Nat.mod_eq_of_lt below, Nat.div_eq_of_lt below]
    by_cases low : j < 32
    · simp only [low, Nat.mod_eq_of_lt low, Nat.zero_mul, Nat.zero_add, true_and]
    · simp only [low, testBit_high value.toNat_lt (Nat.le_of_not_lt low), false_and,
        Bool.false_eq_true]
  obtain ⟨-, mask16, mask8, mask4, mask2, mask1⟩ := masks
  have spaced : Spaced 1 _ (spread value) := ((((start.halve (by decide) mask16).halve
    (by decide) mask8).halve (by decide) mask4).halve (by decide) mask2).halve (by decide) mask1
  by_cases below : j < 64
  · simpa only [Nat.mul_one, Nat.mod_one, Nat.add_zero, Nat.lt_one_iff] using spaced j below
  · rw [testBit_high (spread value).toNat_lt (by omega),
      testBit_high value.toNat_lt (by omega : 32 ≤ j / 2)]
    simp only [Bool.false_eq_true, and_false]

theorem unspread_testBit (code : UInt64) (i : Nat) :
    (unspread code).toNat.testBit i = true ↔ i < 32 ∧ code.toNat.testBit (2 * i) = true := by
  obtain ⟨mask32, mask16, mask8, mask4, mask2, mask1⟩ := masks
  have start : Spaced 1 (fun i => code.toNat.testBit (2 * i) = true)
      (code &&& 0x5555555555555555) := by
    intro j below
    rw [UInt64.toNat_and, Nat.testBit_and, mask1 j below, Bool.and_eq_true, decide_eq_true_eq,
      and_comm]
    refine and_congr_right fun even => ?_
    dsimp only
    rw [show 2 * (j / (2 * 1) * 1 + j % 1) = j by omega]
  have spaced := ((((start.double (by decide) mask2).double (by decide) mask4).double
    (by decide) mask8).double (by decide) mask16).double (by decide) mask32
  rw [show (unspread code).toNat = _ % 2 ^ 32 from UInt64.toNat_toUInt32 _,
    Nat.testBit_mod_two_pow, Bool.and_eq_true, decide_eq_true_eq]
  refine and_congr_right fun low => ?_
  refine (spaced i (by omega)).trans ?_
  rw [Nat.mod_eq_of_lt (by omega), Nat.div_eq_of_lt (by omega), Nat.zero_mul, Nat.zero_add,
    Nat.mod_eq_of_lt low]
  exact and_iff_right low

/-- The code that `encode` makes of two cells. -/
def interleave (lat lon : UInt32) : UInt64 := spread lat ||| (spread lon <<< 1)

section Cells

variable (lat lon : UInt32)

theorem interleave_testBit (j : Nat) : (interleave lat lon).toNat.testBit j =
    if j % 2 = 0 then lat.toNat.testBit (j / 2) else lon.toNat.testBit (j / 2) := by
  have shift : (1 : UInt64).toNat % 64 = 1 := rfl
  by_cases below : j < 64
  · rw [Bool.eq_iff_iff, interleave, UInt64.toNat_or, UInt64.toNat_shiftLeft, shift,
      Nat.testBit_or, Nat.testBit_mod_two_pow, Nat.testBit_shiftLeft]
    simp only [Bool.or_eq_true, Bool.and_eq_true, decide_eq_true_eq, below, true_and,
      spread_testBit]
    split
    · rename_i even
      rw [or_iff_left (by omega)]
      exact and_iff_right even
    · rename_i odd
      rw [show (j - 1) / 2 = j / 2 by omega]
      rw [or_iff_right (by omega), ← and_assoc]
      exact and_iff_right (by omega)
  · rw [testBit_high (interleave lat lon).toNat_lt (by omega),
      testBit_high lat.toNat_lt (by omega : 32 ≤ j / 2),
      testBit_high lon.toNat_lt (by omega : 32 ≤ j / 2), ite_self]

theorem testBit_even (i : Nat) :
    (interleave lat lon).toNat.testBit (2 * i) = lat.toNat.testBit i := by
  rw [interleave_testBit, if_pos (by omega), Nat.mul_div_cancel_left i (by decide)]

theorem testBit_odd (i : Nat) :
    (interleave lat lon).toNat.testBit (2 * i + 1) = lon.toNat.testBit i := by
  rw [interleave_testBit, if_neg (by omega), show (2 * i + 1) / 2 = i by omega]

theorem unspread_eq {code : UInt64} {value : UInt32}
    (bits : ∀ i, code.toNat.testBit (2 * i) = value.toNat.testBit i) : unspread code = value := by
  refine UInt32.toNat.inj (Nat.eq_of_testBit_eq fun i => Bool.eq_iff_iff.mpr ?_)
  rw [unspread_testBit, bits i, and_iff_right_iff_imp]
  intro set
  by_contra high
  rw [testBit_high value.toNat_lt (Nat.le_of_not_lt high)] at set
  cases set

end Cells

theorem spread_lt {low high : UInt32} (less : low < high) : spread low < spread high := by
  have unlike : low.toNat ^^^ high.toNat ≠ 0 := fun same =>
    (UInt32.lt_iff_toNat_lt.mp less).ne (Nat.xor_eq_zero_iff.mp same)
  obtain ⟨top, differs, above⟩ := Nat.exists_most_significant_bit unlike
  simp only [Nat.testBit_xor, bne_iff_ne, ne_eq, bne_eq_false_iff_eq] at differs above
  have bits : low.toNat.testBit top = false ∧ high.toNat.testBit top = true := by
    cases first : low.toNat.testBit top <;> cases second : high.toNat.testBit top <;>
      simp only [first, second, not_true_eq_false] at differs
    · exact ⟨rfl, rfl⟩
    · exact absurd (Nat.lt_of_testBit top second first fun j later => (above j later).symm)
        (UInt32.lt_iff_toNat_lt.mp less).not_gt
  refine UInt64.lt_iff_toNat_lt.mpr (Nat.lt_of_testBit (2 * top) ?_ ?_ fun j later => ?_)
  · rw [← Bool.not_eq_true, spread_testBit, Nat.mul_div_cancel_left top (by decide), bits.1]
    simp
  · rw [spread_testBit, Nat.mul_div_cancel_left top (by decide)]
    exact ⟨by omega, bits.2⟩
  · rw [Bool.eq_iff_iff, spread_testBit, spread_testBit]
    refine and_congr_right fun even => ?_
    rw [above (j / 2) (by omega)]

theorem unspread_interleave (lat lon : UInt32) : unspread (interleave lat lon) = lat ∧
    unspread (interleave lat lon >>> 1) = lon := by
  refine ⟨unspread_eq (testBit_even lat lon), unspread_eq fun i => ?_⟩
  rw [UInt64.toNat_shiftRight, Nat.testBit_shiftRight, Nat.add_comm]
  exact testBit_odd lat lon i

/-- Both cells are read back from their code, whose even bits are those of the first and
whose odd bits are those of the second; and spreading keeps the order. -/
theorem interleave_faithful :
    (∀ lat lon : UInt32, unspread (spread lat ||| (spread lon <<< 1)) = lat ∧
      unspread ((spread lat ||| (spread lon <<< 1)) >>> 1) = lon ∧
      ∀ i, (spread lat ||| (spread lon <<< 1)).toNat.testBit (2 * i) = lat.toNat.testBit i ∧
        (spread lat ||| (spread lon <<< 1)).toNat.testBit (2 * i + 1) = lon.toNat.testBit i) ∧
      ∀ low high : UInt32, low < high → spread low < spread high :=
  ⟨fun lat lon => ⟨(unspread_interleave lat lon).1, (unspread_interleave lat lon).2,
    fun i => ⟨testBit_even lat lon i, testBit_odd lat lon i⟩⟩, fun _ _ => spread_lt⟩

theorem interleave_faithful_small :
    (2 : UInt32) < 3 ∧ spread 2 < spread 3 :=
  ⟨by decide, interleave_faithful.2 2 3 (by decide)⟩

theorem interleave_lt {lat lon : UInt32} (first : lat.toNat < 2 ^ (width - width / 2))
    (second : lon.toNat < 2 ^ (width / 2)) : (interleave lat lon).toNat < 2 ^ width := by
  refine Nat.lt_pow_two_of_testBit _ fun j high => ?_
  rw [interleave_testBit]
  split
  · exact testBit_high first (by omega)
  · exact testBit_high second (by omega)

/-- A pair of cells survives the score exactly if its code has at most 53 bits or ends in
a zero. -/
theorem cells_survive_score_iff (lat lon : UInt32) (north : lat.toNat ≤ 2 ^ 26)
    (east : lon.toNat ≤ 2 ^ 26) :
    (unspread (spread lat ||| (spread lon <<< 1)).toFloat.toUInt64 = lat ∧
        unspread ((spread lat ||| (spread lon <<< 1)).toFloat.toUInt64 >>> 1) = lon) ↔
      lon.toNat < 2 ^ 26 ∨ lat.toNat % 2 = 0 := by
  change unspread (interleave lat lon).toFloat.toUInt64 = lat ∧
    unspread ((interleave lat lon).toFloat.toUInt64 >>> 1) = lon ↔ _
  have precise : (interleave lat lon).toFloat.toUInt64 = interleave lat lon →
      (unspread (interleave lat lon).toFloat.toUInt64 = lat ∧
        unspread ((interleave lat lon).toFloat.toUInt64 >>> 1) = lon) := by
    intro same
    rw [same]
    exact unspread_interleave lat lon
  by_cases edge : lon.toNat < 2 ^ 26
  · have small : (interleave lat lon).toNat < 2 ^ 53 := interleave_lt (by omega) edge
    exact iff_of_true (precise (Double.toUInt64_toFloat small.le (show _ = _ * 2 ^ 0 by omega)))
      (.inl edge)
  have last : (interleave lat lon).toNat.testBit 0 = lat.toNat.testBit 0 := testBit_even lat lon 0
  rw [Nat.testBit_zero, Nat.testBit_zero, decide_eq_decide] at last
  have below : (interleave lat lon).toNat < 2 ^ 54 := interleave_lt (by omega) (by omega)
  rw [or_iff_right edge]
  constructor
  · rintro ⟨same, -⟩
    have top : (interleave lat lon).toNat.testBit (2 * 26 + 1) = true := by
      rw [testBit_odd, show lon.toNat = 2 ^ 26 by omega, Nat.testBit_two_pow_self]
    have even := Double.toUInt64_toFloat_even (Nat.ge_two_pow_of_testBit top) below
    by_contra odd
    have set := (unspread_testBit (interleave lat lon).toFloat.toUInt64 0).mp
      (by rw [same, Nat.testBit_zero, decide_eq_true_eq]; omega)
    rw [Nat.mul_zero, Nat.testBit_zero, decide_eq_true_eq] at set
    omega
  · intro even
    exact precise (Double.toUInt64_toFloat
      (show (interleave lat lon).toNat / 2 ≤ 2 ^ 53 by omega)
      (show _ = _ / 2 * 2 ^ 1 by omega))

theorem corner_survives_score :
    (1 : UInt32).toNat ≤ 2 ^ 26 ∧
      unspread (spread 1 ||| (spread 67108863 <<< 1)).toFloat.toUInt64 = 1 ∧
        unspread ((spread 1 ||| (spread 67108863 <<< 1)).toFloat.toUInt64 >>> 1) = 67108863 :=
  ⟨by decide, (cells_survive_score_iff 1 67108863 (by decide) (by decide)).mpr (.inl (by decide))⟩

/-- A position on the line of 180 degrees east is read back a cell to the south. -/
theorem edge_is_shifted :
    (180 ≤ lonMax ∧ unspread (encode 0.00001 180) = 33554435 ∧
        unspread (encode 0.00001 180 >>> 1) = 67108864) ∧
      unspread (encode 0.00001 180).toFloat.toUInt64 = 33554434 := by
  decide +kernel

end Geo

end Credis
