import RelQuery.Proofs.Ieee.Widening

/-!
# RelQuery.Proofs.Ieee.Rounding

**Rounding keeps the order of integers, and the difference of small ones.**

An integer is rounded to a number of so many leading bits as the format has. Of two integers with
leading bits at one place, the rounded leading bits are in order because rounding a quotient is
(`roundDiv_mono`); of two with leading bits at different places, the smaller one is rounded up to
the next power of two at most, and the larger one is not rounded below its own
(`Format.rounded_bounds`). So the number nearest to a larger integer is not smaller
(`Ieee.rank_ofInt_le`). An integer that has no more bits than a significand is not rounded at all,
and so stays apart from every other (`Ieee.rank_ofInt_lt`).
-/

namespace RelQuery

/-! ### Quotients -/

theorem div_le_roundDiv (num den : Nat) : num / den ≤ roundDiv num den := by
  simp only [roundDiv]
  split <;> omega

theorem roundDiv_le_succ (num den : Nat) : roundDiv num den ≤ num / den + 1 := by
  simp only [roundDiv]
  split <;> omega

/-- A larger numerator is not rounded to less. -/
theorem roundDiv_mono {m n : Nat} (h : m ≤ n) (den : Nat) : roundDiv m den ≤ roundDiv n den := by
  rcases Nat.lt_or_eq_of_le (@Nat.div_le_div_right m n den h) with hlt | heq
  · exact (roundDiv_le_succ m den).trans (Nat.le_trans hlt (div_le_roundDiv n den))
  · -- The quotients are the same below the point, and behind it they are in order.
    have hmod : 2 * (m % den) ≤ 2 * (n % den) := by
      have hm := Nat.div_add_mod m den
      have hn := Nat.div_add_mod n den
      rw [heq] at hm
      omega
    unfold roundDiv
    rw [heq]
    rcases Nat.lt_trichotomy (2 * (m % den)) den with hm | hm | hm
    · simp only [Nat.compare_eq_lt.mpr hm]
      exact div_le_roundDiv n den
    · rw [hm] at hmod
      rcases Nat.lt_or_eq_of_le hmod with hn | hn
      · simp only [Nat.compare_eq_eq.mpr hm, Nat.compare_eq_gt.mpr hn]
        omega
      · simp only [Nat.compare_eq_eq.mpr hm, Nat.compare_eq_eq.mpr hn.symm, Nat.le_refl]
    · simp only [Nat.compare_eq_gt.mpr hm, Nat.compare_eq_gt.mpr (Nat.lt_of_lt_of_le hm hmod),
        Nat.le_refl]

namespace Format

variable {f : Format} {m n : Nat}

/-! ### Integers -/

/-- The leading bits of an integer, as many as a significand has, and rounded if there are more. -/
def rounded (f : Format) (n : Nat) : Nat :=
  roundDiv (n * 2 ^ (f.fractionBits - n.log2)) (2 ^ (n.log2 - f.fractionBits))

/-- The place of the leading bit of an integer, counted from that of the smallest number. -/
def place (f : Format) (n : Nat) : Nat :=
  (n.log2 - f.fractionBits - f.lowestExponent).toNat

/-- The number nearest to a positive integer, if the format has fractions for its numbers below
one. -/
theorem nearest_whole (hlow : f.lowestExponent ≤ -f.fractionBits) (hn : n ≠ 0) :
    f.nearest n 1 = min (f.place n * f.fractions + f.rounded n) f.infinity := by
  have hlog : floorLogTwo n 1 = n.log2 := by
    simpa [scaleByTwo] using floorLogTwo_scaleByTwo hn 0
  have hup : (-((n.log2 : Int) - f.fractionBits)).toNat = f.fractionBits - n.log2 := by omega
  have hdown : (- -((n.log2 : Int) - f.fractionBits)).toNat = n.log2 - f.fractionBits := by omega
  rw [nearest, if_neg hn, hlog, max_eq_left (by omega)]
  simp only [scaleByTwo, Nat.pow_eq, hup, hdown, Nat.one_mul, place, rounded]

/-- The significand of an integer lies between two powers of two; rounding may end at the upper
one. -/
theorem rounded_bounds (hn : n ≠ 0) :
    2 ^ f.fractionBits ≤ f.rounded n ∧ f.rounded n ≤ 2 ^ (f.fractionBits + 1) := by
  have hden : 0 < 2 ^ (n.log2 - f.fractionBits) := Nat.two_pow_pos _
  have hle := Nat.mul_le_mul_right (2 ^ (f.fractionBits - n.log2)) (Nat.log2_self_le hn)
  have hlt := Nat.mul_le_mul_right (2 ^ (f.fractionBits - n.log2)) (@Nat.lt_log2_self n).le
  have hbits : n.log2 + (f.fractionBits - n.log2) =
      f.fractionBits + (n.log2 - f.fractionBits) := by omega
  rw [← Nat.pow_add, hbits, Nat.pow_add] at hle
  rw [← Nat.pow_add, Nat.add_right_comm, hbits, Nat.add_right_comm, Nat.pow_add] at hlt
  constructor
  · have := roundDiv_mono hle (2 ^ (n.log2 - f.fractionBits))
    rwa [roundDiv_mul _ hden] at this
  · have := roundDiv_mono hlt (2 ^ (n.log2 - f.fractionBits))
    rwa [roundDiv_mul _ hden] at this

/-- An integer that is not longer than a significand keeps all its bits. -/
theorem rounded_of_short (h : n.log2 ≤ f.fractionBits) :
    f.rounded n = n * 2 ^ (f.fractionBits - n.log2) := by
  have hwhole := roundDiv_mul (n * 2 ^ (f.fractionBits - n.log2)) Nat.one_pos
  rw [Nat.mul_one] at hwhole
  rw [rounded, Nat.sub_eq_zero_of_le h, Nat.pow_zero, hwhole]

theorem rounded_mono (h : m ≤ n) (hlog : m.log2 = n.log2) : f.rounded m ≤ f.rounded n := by
  rw [rounded, rounded, hlog]
  exact roundDiv_mono (Nat.mul_le_mul_right _ h) _

/-- A leading bit at a later place outweighs everything behind an earlier one. -/
theorem block_le {a b u v w : Nat} (hab : a < b) (hu : u ≤ 2 * w) (hv : w ≤ v) :
    a * w + u ≤ b * w + v := by
  have := Nat.mul_le_mul_right w (Nat.succ_le_of_lt hab)
  rw [Nat.succ_mul] at this
  omega

/-- **Rounding keeps the order of integers.** -/
theorem nearest_whole_mono (hlow : f.lowestExponent ≤ -f.fractionBits) (h : m ≤ n) :
    f.nearest m 1 ≤ f.nearest n 1 := by
  rcases Nat.eq_zero_or_pos m with rfl | hm
  · exact Nat.zero_le _
  · have hboundsm := @rounded_bounds f m (by omega)
    have hboundsn := @rounded_bounds f n (by omega)
    rw [nearest_whole hlow (by omega), nearest_whole hlow (by omega)]
    refine min_le_min_right _ ?_
    rcases Nat.lt_or_eq_of_le (log2_mono h) with hlog | hlog
    · rw [Nat.pow_succ'] at hboundsm
      exact block_le (by unfold place; omega) hboundsm.2 hboundsn.1
    · have hplace : f.place m = f.place n := by rw [place, place, hlog]
      rw [hplace]
      exact Nat.add_le_add_left (rounded_mono h hlog) _

/-- **A short integer stays apart from larger ones**, unless it is beyond the largest number. -/
theorem nearest_whole_lt (hlow : f.lowestExponent ≤ -f.fractionBits) (h : m < n)
    (hshort : m.log2 ≤ f.fractionBits)
    (hfinite : (f.place m + 2) * f.fractions ≤ f.infinity) :
    f.nearest m 1 < f.nearest n 1 := by
  have hfractions : f.fractions = 2 ^ f.fractionBits := rfl
  have hboundsn := @rounded_bounds f n (by omega)
  have hpos : 0 < 2 ^ f.fractionBits := Nat.two_pow_pos _
  rw [Nat.add_mul] at hfinite
  rw [@nearest_whole f n hlow (by omega)]
  rcases Nat.eq_zero_or_pos m with rfl | hm
  · rw [nearest, if_pos rfl]
    exact lt_min (by omega) (by omega)
  · have hlt := Nat.mul_lt_mul_of_pos_right (@Nat.lt_log2_self m)
      (Nat.two_pow_pos (f.fractionBits - m.log2))
    rw [← Nat.pow_add, show m.log2 + 1 + (f.fractionBits - m.log2) = f.fractionBits + 1 by omega,
      Nat.pow_succ'] at hlt
    rw [nearest_whole hlow (by omega), rounded_of_short hshort]
    refine Nat.lt_of_le_of_lt (Nat.min_le_left _ _) (lt_min ?_ (by omega))
    · rcases Nat.lt_or_eq_of_le (log2_mono h.le) with hlog | hlog
      · have hplace : f.place m < f.place n := by
          unfold place
          omega
        exact Nat.lt_of_lt_of_le (Nat.add_lt_add_left hlt _)
          (block_le hplace (Nat.le_refl _) hboundsn.1)
      · have hplace : f.place m = f.place n := by rw [place, place, hlog]
        rw [hplace, rounded_of_short (hlog ▸ hshort), hlog]
        exact Nat.add_lt_add_left (Nat.mul_lt_mul_of_pos_right h (Nat.two_pow_pos _)) _

end Format

/-- The doubles between zero and two to the power of 53 hold every integer there. -/
theorem nearest_double_lt {m n : Nat} (h : m < n) (hm : m < 2 ^ 53) :
    Format.double.nearest m 1 < Format.double.nearest n 1 := by
  have hlog : m.log2 ≤ 52 := by
    rcases Nat.eq_zero_or_pos m with rfl | hpos
    · decide
    · exact Nat.le_of_lt_succ ((Nat.log2_lt (by omega)).mpr hm)
  have hlowest : Format.double.lowestExponent = -1074 := by decide
  have hbits : Format.double.fractionBits = 52 := rfl
  have hplace : Format.double.place m + 2 ≤ 2047 := by
    unfold Format.place
    omega
  exact Format.nearest_whole_lt (by decide) h hlog (Nat.mul_le_mul_right _ hplace)

namespace Ieee

/-! ### Places in the order -/

theorem rank_ofInt (n : Int) : (ofInt .double n).rank =
    if n < 0 then -(Format.double.nearest n.natAbs 1 : Int)
    else Format.double.nearest n.natAbs 1 := by
  rw [ofInt, rank_ofParts (Format.nearest_le _ _ _) (by decide)]
  simp only [decide_eq_true_eq]

/-- A larger integer is not rounded to a smaller number. -/
theorem rank_ofInt_le {m n : Int} (h : m ≤ n) :
    (ofInt .double m).rank ≤ (ofInt .double n).rank := by
  have hmono : ∀ {a b : Nat}, a ≤ b → Format.double.nearest a 1 ≤ Format.double.nearest b 1 :=
    fun hab => Format.nearest_whole_mono (by decide) hab
  rw [rank_ofInt, rank_ofInt]
  by_cases hm : m < 0
  · by_cases hn : n < 0
    · have := @hmono n.natAbs m.natAbs (by omega)
      rw [if_pos hm, if_pos hn]
      omega
    · rw [if_pos hm, if_neg hn]
      omega
  · have := @hmono m.natAbs n.natAbs (by omega)
    rw [if_neg hm, if_neg (by omega)]
    omega

/-- Integers are told apart, unless both are beyond two to the power of 53, on the same side. -/
theorem rank_ofInt_lt {m n : Int} (h : m < n) (hm : m < 9007199254740992)
    (hn : -9007199254740992 < n) : (ofInt .double m).rank < (ofInt .double n).rank := by
  rw [rank_ofInt, rank_ofInt]
  by_cases hneg : n < 0
  · have := @nearest_double_lt n.natAbs m.natAbs (by omega) (by omega)
    rw [if_pos (by omega), if_pos hneg]
    omega
  · rw [if_neg hneg]
    by_cases hneg' : m < 0
    · have := @nearest_double_lt 0 m.natAbs (by omega) (by decide)
      rw [if_pos hneg']
      omega
    · have := @nearest_double_lt m.natAbs n.natAbs (by omega) (by omega)
      rw [if_neg hneg']
      omega

end Ieee

end RelQuery
