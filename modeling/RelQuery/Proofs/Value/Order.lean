import RelQuery.Value

/-!
# RelQuery.Proofs.Value.Order

The order of values is a **total preorder**, and what a hash is computed from respects it.

Sorting, bisection, joining and grouping all rely on three facts proved here. `Value.order` is
oriented and transitive (an instance of `Std.TransCmp`), so `Value.same` is an equivalence. Values
that are the same have the same `hashInput`, although they need not be equal: the two zeros and all
NaNs have different bits. The heart of the second fact is `Ieee.rank_eq_cases`: two words of one
rank are both NaN, both zero, or equal.
-/

namespace RelQuery

namespace Ieee

variable {f : Format}

theorem signWeight_pos : 0 < f.signWeight := by
  unfold Format.signWeight
  exact Nat.pow_pos (by decide)

theorem magnitude_lt (x : Ieee f) : x.magnitude < f.signWeight :=
  Nat.mod_lt _ signWeight_pos

theorem toNat_lt (x : Ieee f) : x.bits.toNat < 2 * f.signWeight := by
  have h := x.bits.isLt
  rw [Nat.pow_succ, Nat.mul_comm] at h
  exact h

/-- A word is its sign bit above its magnitude. -/
theorem toNat_eq (x : Ieee f) :
    x.bits.toNat = x.magnitude + if x.isNegative then f.signWeight else 0 := by
  have hlt := toNat_lt x
  unfold magnitude isNegative
  by_cases h : f.signWeight ≤ x.bits.toNat
  · rw [Nat.mod_eq_sub_mod h, Nat.mod_eq_of_lt (by omega)]
    simp only [h, decide_true, if_true]
    omega
  · rw [Nat.mod_eq_of_lt (by omega)]
    simp [h]

theorem eq_of_parts {x y : Ieee f} (hs : x.isNegative = y.isNegative)
    (hm : x.magnitude = y.magnitude) : x = y := by
  have h : x.bits = y.bits := BitVec.eq_of_toNat_eq (by rw [toNat_eq x, toNat_eq y, hs, hm])
  cases x
  cases y
  exact congrArg Ieee.mk h

theorem rank_of_isNaN {x : Ieee f} (h : x.isNaN = true) : x.rank = f.signWeight := by
  simp [rank, h]

theorem rank_of_magnitude_eq_zero {x : Ieee f} (h : x.magnitude = 0) : x.rank = 0 := by
  simp [rank, isNaN, h]

/-- A number that is not NaN ranks below every NaN. -/
theorem rank_lt_signWeight {x : Ieee f} (h : x.isNaN = false) : x.rank < f.signWeight := by
  have hlt := magnitude_lt x
  unfold rank
  rw [h]
  simp only [Bool.false_eq_true, if_false]
  split <;> omega

/-- Words of one rank are both NaN, both zero, or equal. -/
theorem rank_eq_cases {x y : Ieee f} (h : x.rank = y.rank) :
    (x.isNaN = true ∧ y.isNaN = true) ∨ (x.magnitude = 0 ∧ y.magnitude = 0) ∨ x = y := by
  cases hx : x.isNaN with
  | true =>
      cases hy : y.isNaN with
      | true => exact Or.inl ⟨rfl, rfl⟩
      | false =>
          have := rank_lt_signWeight hy
          rw [rank_of_isNaN hx] at h
          omega
  | false =>
      cases hy : y.isNaN with
      | true =>
          have := rank_lt_signWeight hx
          rw [rank_of_isNaN hy] at h
          omega
      | false =>
          refine Or.inr ?_
          by_cases hzero : x.magnitude = 0
          · refine Or.inl ⟨hzero, ?_⟩
            rw [rank_of_magnitude_eq_zero hzero] at h
            simp only [rank, hy, Bool.false_eq_true, if_false] at h
            split at h <;> omega
          · -- Away from zero the sign of the rank is the sign of the word.
            refine Or.inr ?_
            simp only [rank, hx, hy, Bool.false_eq_true, if_false] at h
            cases hsx : x.isNegative <;> cases hsy : y.isNegative <;>
              simp only [hsx, hsy, Bool.false_eq_true, if_false, if_true] at h
            · exact eq_of_parts (hsx.trans hsy.symm) (by omega)
            · omega
            · omega
            · exact eq_of_parts (hsx.trans hsy.symm) (by omega)

theorem canonical_eq_of_rank_eq {x y : Ieee f} (h : x.rank = y.rank) :
    x.canonical = y.canonical := by
  rcases rank_eq_cases h with ⟨hx, hy⟩ | ⟨hx, hy⟩ | rfl
  · simp [canonical, hx, hy]
  · simp [canonical, isNaN, hx, hy]
  · rfl

instance : Std.TransCmp (order (f := f)) :=
  inferInstanceAs (Std.TransCmp (compareOn rank))

theorem rank_eq_of_order_eq {x y : Ieee f} (h : x.order y = .eq) : x.rank = y.rank :=
  Std.LawfulEqOrd.eq_of_compare h

end Ieee

namespace Binary32

/-- Zeros of either sign stay zeros in 64 bits. -/
theorem rank_toBinary64_of_magnitude_eq_zero {x : Binary32} (h : x.magnitude = 0) :
    (toBinary64 x).rank = 0 := by
  have hnan : x.isNaN = false := by simp [Ieee.isNaN, h]
  have hfin : x.isFinite = true := by
    simp only [Ieee.isFinite, h]
    decide
  have hsig : Format.single.significand 0 = 0 := by decide
  have hzero : toBinary64 x = Ieee.ofParts .double x.isNegative 0 := by
    simp [toBinary64, Ieee.convert, hnan, hfin, h, hsig, scaleByTwo, Format.nearest]
  rw [hzero]
  cases x.isNegative <;> decide

/-- Numbers of one rank have one canonical form in 64 bits. -/
theorem canonical_toBinary64_eq_of_rank_eq {x y : Binary32} (h : x.rank = y.rank) :
    (toBinary64 x).canonical = (toBinary64 y).canonical := by
  rcases Ieee.rank_eq_cases h with ⟨hx, hy⟩ | ⟨hx, hy⟩ | rfl
  · simp [toBinary64, Ieee.convert, hx, hy]
  · refine Ieee.canonical_eq_of_rank_eq ?_
    rw [rank_toBinary64_of_magnitude_eq_zero hx, rank_toBinary64_of_magnitude_eq_zero hy]
  · rfl

end Binary32

namespace Value

/-! ### The order is a total preorder -/

/-- Values of different types are ordered by the places of their types. -/
theorem order_of_typeRank_ne {a b : Value} (h : a.typeRank ≠ b.typeRank) :
    a.order b = compare a.typeRank b.typeRank := by
  cases a <;> cases b <;> first | rfl | exact absurd rfl h

/-- A value is not above another of a lower type. -/
theorem typeRank_le_of_isLE {a b : Value} (h : (a.order b).isLE) : a.typeRank ≤ b.typeRank := by
  by_cases hr : a.typeRank = b.typeRank
  · exact Nat.le_of_eq hr
  · rw [order_of_typeRank_ne hr] at h
    exact Nat.isLE_compare.mp h

/-- Only null is not above null. -/
theorem eq_null_of_isLE_null {v : Value} (h : (v.order .null).isLE) : v = .null := by
  have hrank : v.typeRank ≤ 0 := typeRank_le_of_isLE h
  cases v <;> simp [typeRank] at hrank ⊢

theorem typeRank_eq_of_order_eq {a b : Value} (h : a.order b = .eq) : a.typeRank = b.typeRank := by
  by_cases hr : a.typeRank = b.typeRank
  · exact hr
  · rw [order_of_typeRank_ne hr] at h
    exact Nat.compare_eq_eq.mp h

theorem order_swap (a b : Value) : a.order b = (b.order a).swap := by
  by_cases hr : a.typeRank = b.typeRank
  · cases a <;> cases b <;> simp [typeRank] at hr <;> simp only [order] <;>
      exact Std.OrientedCmp.eq_swap
  · rw [order_of_typeRank_ne hr, order_of_typeRank_ne (Ne.symm hr)]
    exact Std.OrientedCmp.eq_swap

theorem isLE_order_trans {a b c : Value} (hab : (a.order b).isLE) (hbc : (b.order c).isLE) :
    (a.order c).isLE := by
  have hra := typeRank_le_of_isLE hab
  have hrc := typeRank_le_of_isLE hbc
  by_cases hac : a.typeRank = c.typeRank
  · -- All three have one type, and transitivity is that of the type's own order.
    have hrb : a.typeRank = b.typeRank := by omega
    cases a <;> cases b <;> simp [typeRank] at hrb <;> cases c <;> simp [typeRank] at hac <;>
      simp only [order] at hab hbc ⊢ <;> exact Std.TransCmp.isLE_trans hab hbc
  · rw [order_of_typeRank_ne hac]
    exact Nat.isLE_compare.mpr (by omega)

instance : Std.TransCmp order where
  eq_swap := order_swap _ _
  isLE_trans := isLE_order_trans

/-- Being below, being equal and being above are transitive, each by itself. -/
theorem order_trans {a b c : Value} {o : Ordering} (hab : a.order b = o) (hbc : b.order c = o) :
    a.order c = o := by
  cases o with
  | lt => exact Std.TransCmp.lt_trans hab hbc
  | eq => exact Std.TransCmp.eq_trans hab hbc
  | gt => exact Std.TransCmp.gt_trans hab hbc

/-! ### Sameness is an equivalence -/

theorem same_iff {a b : Value} : a.same b = true ↔ a.order b = .eq := by
  simp [same]

@[simp] theorem same_refl (a : Value) : a.same a = true :=
  same_iff.mpr Std.ReflCmp.compare_self

/-- Null is the same as null only. -/
theorem isNull_eq_of_same {a b : Value} (h : a.same b = true) : a.isNull = b.isNull := by
  have hrank := typeRank_eq_of_order_eq (same_iff.mp h)
  cases a <;> cases b <;> simp [typeRank, isNull] at hrank ⊢

theorem same_comm (a b : Value) : a.same b = b.same a := by
  rw [Bool.eq_iff_iff, same_iff, same_iff]
  exact Std.OrientedCmp.eq_comm

theorem same_trans {a b c : Value} (hab : a.same b = true) (hbc : b.same c = true) :
    a.same c = true :=
  same_iff.mpr (Std.TransCmp.eq_trans (same_iff.mp hab) (same_iff.mp hbc))

@[simp] theorem sameAll_refl : ∀ vs : List Value, sameAll vs vs = true
  | [] => rfl
  | v :: vs => by simp [sameAll, sameAll_refl vs]

theorem sameAll_comm : ∀ as bs : List Value, sameAll as bs = sameAll bs as
  | [], [] => rfl
  | [], _ :: _ => rfl
  | _ :: _, [] => rfl
  | a :: as, b :: bs => by rw [sameAll, sameAll, same_comm a b, sameAll_comm as bs]

theorem sameAll_trans : ∀ {as bs cs : List Value},
    sameAll as bs = true → sameAll bs cs = true → sameAll as cs = true
  | [], [], _, _, h => h
  | [], _ :: _, _, h, _ => by simp [sameAll] at h
  | _ :: _, [], _, h, _ => by simp [sameAll] at h
  | _ :: _, _ :: _, [], _, h => by simp [sameAll] at h
  | _ :: _, _ :: _, _ :: _, hab, hbc => by
      simp only [sameAll, Bool.and_eq_true] at hab hbc ⊢
      exact ⟨same_trans hab.1 hbc.1, sameAll_trans hab.2 hbc.2⟩

theorem sameAll_append : ∀ {as bs cs ds : List Value},
    sameAll as bs = true → sameAll cs ds = true → sameAll (as ++ cs) (bs ++ ds) = true
  | [], [], _, _, _, h => h
  | [], _ :: _, _, _, h, _ => by simp [sameAll] at h
  | _ :: _, [], _, _, h, _ => by simp [sameAll] at h
  | _ :: _, _ :: _, _, _, hab, hcd => by
      simp only [sameAll, Bool.and_eq_true, List.cons_append] at hab ⊢
      exact ⟨hab.1, sameAll_append hab.2 hcd⟩

/-! ### Hashing respects sameness -/

/-- Values that are the same contribute the same bytes to a hash. -/
theorem hashInput_eq_of_same {a b : Value} (h : a.same b = true) : a.hashInput = b.hashInput := by
  have ho := same_iff.mp h
  have hr := typeRank_eq_of_order_eq ho
  cases a <;> cases b <;> simp [typeRank] at hr
  case null.null => rfl
  case bool.bool a b =>
      rw [show a = b from Std.LawfulEqOrd.eq_of_compare ho]
  case int32.int32 a b =>
      rw [show a = b from Int32.toInt_inj.mp (Std.LawfulEqOrd.eq_of_compare ho)]
  case int64.int64 a b =>
      rw [show a = b from Int64.toInt_inj.mp (Std.LawfulEqOrd.eq_of_compare ho)]
  case float32.float32 x y =>
      rw [hashInput, hashInput,
        Binary32.canonical_toBinary64_eq_of_rank_eq (Ieee.rank_eq_of_order_eq ho)]
  case float64.float64 x y =>
      rw [hashInput, hashInput, Ieee.canonical_eq_of_rank_eq (Ieee.rank_eq_of_order_eq ho)]
  case text.text s t =>
      rw [show s = t from Std.LawfulEqOrd.eq_of_compare ho]
  case bytes.bytes as bs =>
      rw [show as = bs from Std.LawfulEqOrd.eq_of_compare ho]

theorem map_hashInput_eq_of_sameAll : ∀ {as bs : List Value}, sameAll as bs = true →
    as.map hashInput = bs.map hashInput
  | [], [], _ => rfl
  | [], _ :: _, h => by simp [sameAll] at h
  | _ :: _, [], h => by simp [sameAll] at h
  | _ :: _, _ :: _, h => by
      simp only [sameAll, Bool.and_eq_true] at h
      rw [List.map_cons, List.map_cons, hashInput_eq_of_same h.1,
        map_hashInput_eq_of_sameAll h.2]

end Value

end RelQuery
