import Mathlib.Algebra.Order.Group.Nat
import RelQuery.Proofs.Value.Order

/-!
# RelQuery.Proofs.Ieee.Widening

**Widening keeps the order of numbers.**

A number of 32 bits is compared by its own bits, and the same number in 64 bits gives the same
answers (`Binary32.order_toBinary64`). What this rests on is that a number with a short significand
is rounded to itself (`Format.nearest_of_short`): its magnitude in the wider format can be read off
the position of its leading bit and the significand below it, and grows with the magnitude that it
has in the narrower one (`Binary32.widen_lt`).
-/

namespace RelQuery

/-! ### Rounding a number that can be represented -/

theorem roundDiv_mul (q : Nat) {den : Nat} (h : 0 < den) : roundDiv (q * den) den = q := by
  have hlt : Ord.compare (2 * (q * den % den)) den = .lt := by
    rw [Nat.mul_mod_left]
    exact Nat.compare_eq_lt.mpr (by omega)
  rw [roundDiv]
  simp only [hlt]
  exact Nat.mul_div_cancel q h

theorem log2_mul_pow {s : Nat} (hs : s ≠ 0) (n : Nat) : (s * 2 ^ n).log2 = s.log2 + n := by
  have hpos : 0 < 2 ^ n := Nat.two_pow_pos n
  have hle := Nat.mul_le_mul_right (2 ^ n) (Nat.log2_self_le hs)
  have hlt := Nat.mul_lt_mul_of_pos_right (@Nat.lt_log2_self s) hpos
  rw [← Nat.pow_add] at hle hlt
  rw [Nat.log2_eq_iff (Nat.mul_ne_zero hs hpos.ne')]
  exact ⟨hle, by rwa [Nat.add_right_comm]⟩

theorem log2_mono {m n : Nat} (h : m ≤ n) : m.log2 ≤ n.log2 := by
  rcases Nat.eq_zero_or_pos m with rfl | hm
  · simp
  · exact (Nat.le_log2 (by omega)).mpr (Nat.le_trans (Nat.log2_self_le (by omega)) h)

/-- The leading bit of a significand, with the power of two that it counts. -/
theorem floorLogTwo_scaleByTwo {s : Nat} (hs : s ≠ 0) (u : Int) :
    floorLogTwo (scaleByTwo s 1 u).1 (scaleByTwo s 1 u).2 = s.log2 + u := by
  have he : ((scaleByTwo s 1 u).1.log2 : Int) - ((scaleByTwo s 1 u).2.log2 : Int) = s.log2 + u := by
    simp only [scaleByTwo, Nat.pow_eq, Nat.one_mul, log2_mul_pow hs, Nat.log2_two_pow]
    omega
  rw [floorLogTwo]
  simp only [he]
  rw [if_pos]
  simp only [scaleByTwo, Nat.pow_eq, Nat.one_mul]
  -- Both sides are a power of two times `2 ^ s.log2` and `s`, with the same exponents.
  have hexp : (-u).toNat + (- -(s.log2 + u)).toNat =
      s.log2 + (u.toNat + (-(s.log2 + u)).toNat) := by
    omega
  rw [← Nat.pow_add, hexp, Nat.mul_assoc, ← Nat.pow_add 2 u.toNat, Nat.pow_add 2 s.log2]
  exact Nat.mul_le_mul_right _ (Nat.log2_self_le hs)

namespace Format

/-- A number whose significand is not longer than those of the format is rounded to itself. -/
theorem nearest_of_short {f : Format} {s : Nat} (hs : s ≠ 0) {u : Int}
    (hshort : s.log2 ≤ f.fractionBits) (hu : f.lowestExponent ≤ s.log2 + u - f.fractionBits) :
    f.nearest (scaleByTwo s 1 u).1 (scaleByTwo s 1 u).2 =
      min ((s.log2 + u - f.fractionBits - f.lowestExponent).toNat * f.fractions +
        s * 2 ^ (f.fractionBits - s.log2)) f.infinity := by
  have hnum : (scaleByTwo s 1 u).1 ≠ 0 := by
    simp only [scaleByTwo, Nat.pow_eq]
    exact Nat.mul_ne_zero hs (Nat.two_pow_pos _).ne'
  rw [nearest, if_neg hnum, floorLogTwo_scaleByTwo hs, max_eq_left hu]
  simp only [scaleByTwo, Nat.pow_eq, Nat.one_mul]
  have hexp : u.toNat + (-(s.log2 + u - f.fractionBits)).toNat =
      (f.fractionBits - s.log2) + ((-u).toNat + (- -(s.log2 + u - f.fractionBits)).toNat) := by
    omega
  rw [Nat.mul_assoc, ← Nat.pow_add, ← Nat.pow_add, hexp, Nat.pow_add, ← Nat.mul_assoc,
    roundDiv_mul _ (Nat.two_pow_pos _)]

/-- Rounding does not go beyond infinity. -/
theorem nearest_le (f : Format) (num den : Nat) : f.nearest num den ≤ f.infinity := by
  unfold nearest
  split
  · exact Nat.zero_le _
  · exact Nat.min_le_right _ _

end Format

namespace Ieee

variable {f : Format} {negative : Bool} {m : Nat}

theorem toNat_ofParts (h : m < f.signWeight) :
    (ofParts f negative m).bits.toNat = m + if negative then f.signWeight else 0 := by
  rw [ofParts, BitVec.toNat_ofNat, Nat.mod_eq_of_lt]
  rw [Nat.pow_succ, ← Nat.pow_eq, ← Format.signWeight]
  split <;> omega

theorem magnitude_ofParts (h : m < f.signWeight) : (ofParts f negative m).magnitude = m := by
  rw [magnitude, toNat_ofParts h]
  split
  · rw [Nat.add_mod_right, Nat.mod_eq_of_lt h]
  · rw [Nat.add_zero, Nat.mod_eq_of_lt h]

theorem isNegative_ofParts (h : m < f.signWeight) :
    (ofParts f negative m).isNegative = negative := by
  rw [isNegative, toNat_ofParts h]
  cases negative <;> simp [h]

/-- The place of a number made from its parts. -/
theorem rank_ofParts (h : m ≤ f.infinity) (hinfinity : f.infinity < f.signWeight) :
    (ofParts f negative m).rank = if negative then -(m : Int) else m := by
  have hlt : m < f.signWeight := Nat.lt_of_le_of_lt h hinfinity
  rw [rank, isNaN, magnitude_ofParts hlt, isNegative_ofParts hlt]
  simp [Nat.not_lt.mpr h]

end Ieee

namespace Binary32

/-- The magnitude in 64 bits of a number with this magnitude. -/
def widen (m : Nat) : Nat :=
  if m < Format.single.infinity then
    Format.double.nearest
      (scaleByTwo (Format.single.significand m) 1 (Format.single.unitExponent m)).1
      (scaleByTwo (Format.single.significand m) 1 (Format.single.unitExponent m)).2
  else Format.double.infinity

theorem toBinary64_eq {x : Binary32} (h : x.isNaN = false) :
    toBinary64 x = Ieee.ofParts .double x.isNegative (widen x.magnitude) := by
  simp only [toBinary64, Ieee.convert, h, Bool.false_eq_true, if_false, Ieee.isFinite,
    decide_eq_true_eq, widen]
  split <;> rfl

theorem widen_zero : widen 0 = 0 := by decide

theorem fractions_single : Format.single.fractions = 2 ^ 23 := rfl

theorem fractions_double : Format.double.fractions = 2 ^ 52 := rfl

theorem infinity_single : Format.single.infinity = 255 * 2 ^ 23 := rfl

theorem infinity_double : Format.double.infinity = 2047 * 2 ^ 52 := rfl

/-- A significand moved to the front of the wider one. -/
theorem shifted_bounds {s : Nat} (hs : s ≠ 0) (hshort : s.log2 ≤ 52) :
    2 ^ 52 ≤ s * 2 ^ (52 - s.log2) ∧ s * 2 ^ (52 - s.log2) < 2 ^ 53 := by
  have hle := Nat.mul_le_mul_right (2 ^ (52 - s.log2)) (Nat.log2_self_le hs)
  have hlt := Nat.mul_lt_mul_of_pos_right (@Nat.lt_log2_self s) (Nat.two_pow_pos (52 - s.log2))
  rw [← Nat.pow_add] at hle hlt
  rw [show s.log2 + (52 - s.log2) = 52 by omega] at hle
  rw [show s.log2 + 1 + (52 - s.log2) = 53 by omega] at hlt
  exact ⟨hle, hlt⟩

/-- The magnitude in 64 bits of a number with a significand and the power of two that it counts. -/
theorem widen_of_significand {m s : Nat} {u : Int} (hlt : m < Format.single.infinity)
    (hsignificand : Format.single.significand m = s) (hunit : Format.single.unitExponent m = u)
    (hs : s ≠ 0) (hshort : s.log2 ≤ 23) (hlow : -149 ≤ u) (hhigh : u ≤ 104) :
    widen m = (s.log2 + u + 1022).toNat * 2 ^ 52 + s * 2 ^ (52 - s.log2) := by
  have hlowest : Format.double.lowestExponent = -1074 := by decide
  have hbits : Format.double.fractionBits = 52 := rfl
  have hbounds := shifted_bounds hs (by omega)
  rw [widen, if_pos hlt, hsignificand, hunit,
    Format.nearest_of_short hs (by omega) (by omega), fractions_double, infinity_double, hlowest,
    hbits]
  have hexponent : s.log2 + u - (52 : Nat) - -1074 = s.log2 + u + 1022 := by omega
  rw [hexponent]
  exact Nat.min_eq_left (by omega)

/-- A small magnitude is its own significand, and its leading bit tells the exponent. -/
theorem widen_of_subnormal {m : Nat} (hm : m ≠ 0) (hlt : m < 2 ^ 23) :
    widen m = (m.log2 + 873) * 2 ^ 52 + m * 2 ^ (52 - m.log2) := by
  have hlog : m.log2 < 23 := (Nat.log2_lt hm).mpr hlt
  have hsignificand : Format.single.significand m = m := by
    rw [Format.significand, fractions_single, if_pos hlt, Nat.mod_eq_of_lt hlt, Nat.add_zero]
  have hunit : Format.single.unitExponent m = -149 := by
    rw [Format.unitExponent, fractions_single, Nat.div_eq_of_lt hlt]
    decide
  have hinfinity : m < Format.single.infinity := by
    rw [infinity_single]
    omega
  rw [widen_of_significand hinfinity hsignificand hunit hm (by omega) (by omega) (by omega)]
  congr 2
  omega

/-- Any other has its leading bit before the fraction. -/
theorem widen_of_normal {m : Nat} (hle : 2 ^ 23 ≤ m) (hlt : m < Format.single.infinity) :
    widen m = m * 2 ^ 29 + 896 * 2 ^ 52 := by
  have hsignificand : Format.single.significand m = m % 2 ^ 23 + 2 ^ 23 := by
    rw [Format.significand, fractions_single, if_neg (by omega)]
  have hunit : Format.single.unitExponent m = (m / 2 ^ 23 : Nat) - 150 := by
    have hlowest : Format.single.lowestExponent = -149 := by decide
    rw [Format.unitExponent, fractions_single, hlowest]
    omega
  have hlog : (m % 2 ^ 23 + 2 ^ 23).log2 = 23 := by
    rw [Nat.log2_eq_iff (by omega)]
    omega
  rw [infinity_single] at hlt
  rw [widen_of_significand hlt hsignificand hunit (by omega) (by omega) (by omega) (by omega), hlog]
  omega

/-- Of two small magnitudes the larger one has a leading bit that is not behind. -/
theorem widen_lt_of_subnormal {m n : Nat} (hm : m ≠ 0) (hlt : m < n) (hn : n < 2 ^ 23) :
    widen m < widen n := by
  have hlogm : m.log2 < 23 := (Nat.log2_lt hm).mpr (by omega)
  have hlogn : n.log2 < 23 := (Nat.log2_lt (by omega)).mpr hn
  have hlog : m.log2 ≤ n.log2 := log2_mono hlt.le
  have hboundsm := shifted_bounds hm (by omega)
  have hboundsn := @shifted_bounds n (by omega) (by omega)
  rw [widen_of_subnormal hm (by omega), widen_of_subnormal (by omega) hn]
  rcases Nat.lt_or_eq_of_le hlog with hlog | hlog
  · omega
  · have := Nat.mul_lt_mul_of_pos_right hlt (Nat.two_pow_pos (52 - n.log2))
    rw [hlog]
    omega

/-- A small magnitude has its leading bit behind that of any other. -/
theorem widen_subnormal_lt {m : Nat} (hm : m ≠ 0) (hlt : m < 2 ^ 23) :
    0 < widen m ∧ widen m < 897 * 2 ^ 52 := by
  have hlog : m.log2 < 23 := (Nat.log2_lt hm).mpr hlt
  have hbounds := shifted_bounds hm (by omega)
  rw [widen_of_subnormal hm hlt]
  omega

/-- Larger magnitudes are larger in 64 bits, up to infinity. -/
theorem widen_lt {m n : Nat} (hlt : m < n) (hn : n ≤ Format.single.infinity) :
    widen m < widen n := by
  -- Infinity itself is wider than the formula for numbers says.
  have hnormal : 2 ^ 23 ≤ n → n * 2 ^ 29 + 896 * 2 ^ 52 ≤ widen n := by
    intro hle
    rcases Nat.lt_or_eq_of_le hn with hlt | rfl
    · exact Nat.le_of_eq (widen_of_normal hle hlt).symm
    · decide
  rcases Nat.eq_zero_or_pos m with rfl | hm
  · rw [widen_zero]
    by_cases hsmall : n < 2 ^ 23
    · exact (widen_subnormal_lt (by omega) hsmall).1
    · have := hnormal (by omega)
      omega
  · by_cases hsmall : n < 2 ^ 23
    · exact widen_lt_of_subnormal (by omega) hlt hsmall
    · have := hnormal (by omega)
      by_cases hsmallm : m < 2 ^ 23
      · have := (widen_subnormal_lt (by omega) hsmallm).2
        omega
      · rw [widen_of_normal (by omega) (Nat.lt_of_lt_of_le hlt hn)]
        omega

theorem widen_le (m : Nat) : widen m ≤ Format.double.infinity := by
  unfold widen
  split
  · exact Format.nearest_le _ _ _
  · exact Nat.le_refl _

/-! ### Places -/

/-- The place in 64 bits of a number with this place. -/
def widenRank (r : Int) : Int :=
  if r < 0 then -(widen r.natAbs : Int) else widen r.natAbs

theorem widenRank_lt {r r' : Int} (hlt : r < r') (hr : r.natAbs ≤ Format.single.infinity)
    (hr' : r'.natAbs ≤ Format.single.infinity) : widenRank r < widenRank r' := by
  have hpos : ∀ {m}, 0 < m → m ≤ Format.single.infinity → 0 < widen m := by
    intro m hm hle
    have := widen_lt hm hle
    rwa [widen_zero] at this
  unfold widenRank
  by_cases hneg : r < 0
  · rw [if_pos hneg]
    have := hpos (show 0 < r.natAbs by omega) hr
    by_cases hneg' : r' < 0
    · rw [if_pos hneg']
      have := @widen_lt r'.natAbs r.natAbs (by omega) hr
      omega
    · rw [if_neg hneg']
      omega
  · rw [if_neg hneg, if_neg (by omega)]
    have := @widen_lt r.natAbs r'.natAbs (by omega) hr'
    omega

theorem natAbs_rank {x : Binary32} (h : x.isNaN = false) : x.rank.natAbs = x.magnitude := by
  simp only [Ieee.rank, h, Bool.false_eq_true, if_false]
  split <;> omega

theorem rank_toBinary64 {x : Binary32} (h : x.isNaN = false) :
    (toBinary64 x).rank = widenRank x.rank := by
  rw [toBinary64_eq h, Ieee.rank_ofParts (widen_le _) (by decide), widenRank, natAbs_rank h]
  simp only [Ieee.rank, h, Bool.false_eq_true, if_false]
  cases x.isNegative with
  | false => simp
  | true =>
      by_cases hzero : x.magnitude = 0
      · simp [hzero, widen_zero]
      · simp [Nat.pos_of_ne_zero hzero]

theorem rank_toBinary64_of_isNaN {x : Binary32} (h : x.isNaN = true) :
    (toBinary64 x).rank = Format.double.signWeight := by
  have hnan : (Ieee.nan : Binary64).isNaN = true := by decide
  rw [toBinary64, Ieee.convert, if_pos h, Ieee.rank_of_isNaN hnan]

/-- Numbers that are not NaN stay so. -/
theorem rank_toBinary64_lt {x : Binary32} (h : x.isNaN = false) :
    (toBinary64 x).rank < Format.double.signWeight := by
  have hle : (widen x.magnitude : Int) ≤ Format.double.infinity := by
    exact_mod_cast widen_le x.magnitude
  have hinfinity : (Format.double.infinity : Int) < Format.double.signWeight := by decide
  rw [toBinary64_eq h, Ieee.rank_ofParts (widen_le _) (by decide)]
  split <;> omega

/-- **Widening keeps the order of numbers**, NaNs and infinities included. -/
theorem order_toBinary64 (x y : Binary32) : (toBinary64 x).order (toBinary64 y) = x.order y := by
  have hfinite : ∀ {z : Binary32}, z.isNaN = false → z.rank.natAbs ≤ Format.single.infinity := by
    intro z hz
    rw [natAbs_rank hz]
    simpa [Ieee.isNaN] using hz
  unfold Ieee.order
  cases hx : x.isNaN <;> cases hy : y.isNaN
  · rw [rank_toBinary64 hx, rank_toBinary64 hy]
    rcases Int.lt_trichotomy x.rank y.rank with hlt | heq | hgt
    · rw [compare_lt_iff_lt.mpr hlt,
        compare_lt_iff_lt.mpr (widenRank_lt hlt (hfinite hx) (hfinite hy))]
    · rw [heq, compare_eq_iff_eq.mpr rfl, compare_eq_iff_eq.mpr rfl]
    · rw [compare_gt_iff_gt.mpr hgt,
        compare_gt_iff_gt.mpr (widenRank_lt hgt (hfinite hy) (hfinite hx))]
  · rw [rank_toBinary64_of_isNaN hy, Ieee.rank_of_isNaN hy,
      compare_lt_iff_lt.mpr (rank_toBinary64_lt hx),
      compare_lt_iff_lt.mpr (Ieee.rank_lt_signWeight hx)]
  · rw [rank_toBinary64_of_isNaN hx, Ieee.rank_of_isNaN hx,
      compare_gt_iff_gt.mpr (rank_toBinary64_lt hy),
      compare_gt_iff_gt.mpr (Ieee.rank_lt_signWeight hy)]
  · rw [rank_toBinary64_of_isNaN hx, rank_toBinary64_of_isNaN hy, Ieee.rank_of_isNaN hx,
      Ieee.rank_of_isNaN hy, compare_eq_iff_eq.mpr rfl, compare_eq_iff_eq.mpr rfl]

end Binary32

end RelQuery
