import RelQuery.Proofs.Ieee.Widening

/-!
# RelQuery.Proofs.Value.Laws

**The order of values and their hash are lawful.**

`Value.Laws` collects what sorting, bisection, grouping and counting ask of an order, and of a hash
that is used together with it: one total preorder over all types, with null at its bottom, in which
the numbers of a floating-point type are ordered as `NumberLaws` says, and no two equal values that
are hashed differently. `Value.lawful` proves them of `Value.order` and `Value.hashInput`.

The order that the two floating-point types have is one order: a number of 32 bits stands among its
like as it does in 64 bits (`Laws.widened`), which is where the hash looks at it.
-/

namespace RelQuery

namespace Ieee

variable {f : Format} {x y : Ieee f}

theorem order_of_isNaN (hx : x.isNaN = true) (hy : y.isNaN = true) : x.order y = .eq := by
  rw [order, rank_of_isNaN hx, rank_of_isNaN hy]
  exact Std.ReflCmp.compare_self

theorem order_lt_of_isNaN (hx : x.isNaN = false) (hy : y.isNaN = true) : x.order y = .lt := by
  rw [order, rank_of_isNaN hy]
  exact compare_lt_iff_lt.mpr (rank_lt_signWeight hx)

theorem order_negative_zero (f : Format) : (ofParts f true 0).order zero = .eq := by
  have hnegative : (ofParts f true 0).rank = 0 :=
    rank_of_magnitude_eq_zero (magnitude_ofParts signWeight_pos)
  have hzero : (zero : Ieee f).rank = 0 := rank_of_magnitude_eq_zero (by simp [magnitude, zero])
  rw [order, hnegative, hzero]
  exact Std.ReflCmp.compare_self

end Ieee

namespace Value

/-- What an order of values says about a floating-point type, whose words are values by `ofWord`. -/
structure NumberLaws {f : Format} (ofWord : Ieee f → Value)
    (order : Value → Value → Ordering) : Prop where
  /-- NaNs are equal, whatever their signs and payloads. -/
  nans_eq : ∀ x y, x.isNaN = true → y.isNaN = true → order (ofWord x) (ofWord y) = .eq
  /-- A NaN is above everything else, infinity included. -/
  lt_nan : ∀ x y, x.isNaN = false → y.isNaN = true → order (ofWord x) (ofWord y) = .lt
  /-- The two zeros are equal. -/
  zeros_eq : order (ofWord (.ofParts f true 0)) (ofWord .zero) = .eq

/-- The laws of an order of values and of what is `fed` to a hash for each of them. -/
structure Laws (order : Value → Value → Ordering) (fed : Value → List UInt8) : Prop where
  swap : ∀ a b, order a b = (order b a).swap
  /-- Being below, being above and being equal are transitive, each by itself. -/
  trans : ∀ a b c o, order a b = o → order b c = o → order a c = o
  /-- So is being below or equal. -/
  isLE_trans : ∀ a b c, (order a b).isLE → (order b c).isLE → (order a c).isLE
  /-- Equal values compare alike with every third, from either side. -/
  alike : ∀ a b c, order a b = .eq → order a c = order b c ∧ order c a = order c b
  null_lt : ∀ a, a ≠ .null → order .null a = .lt
  /-- Values of different types are ordered by these alone, and so are never equal. -/
  types : ∀ a b, a.type? ≠ b.type? →
    order a b ≠ .eq ∧ order a b = compare a.typeRank b.typeRank
  float32 : NumberLaws .float32 order
  float64 : NumberLaws .float64 order
  /-- A number of 32 bits is compared as the same number in 64 bits. -/
  widened : ∀ x y : Binary32, order (.float32 x) (.float32 y) =
    order (.float64 x.toBinary64) (.float64 y.toBinary64)
  /-- What is equal is fed to a hash as the same bytes. -/
  fed_eq : ∀ a b, order a b = .eq → fed a = fed b

/-- The place of a type tells the type. -/
theorem type?_eq_of_typeRank_eq {a b : Value} (h : a.typeRank = b.typeRank) :
    a.type? = b.type? := by
  cases a <;> cases b <;> first | rfl | cases h

theorem order_ne_eq_of_type?_ne {a b : Value} (h : a.type? ≠ b.type?) : a.order b ≠ .eq :=
  fun heq => h (type?_eq_of_typeRank_eq (typeRank_eq_of_order_eq heq))

theorem order_null_lt {a : Value} (h : a ≠ .null) : order .null a = .lt := by
  cases a <;> first | rfl | exact absurd rfl h

/-- The order of floating-point values is that of their words. -/
theorem numberLaws_of_order {f : Format} {ofWord : Ieee f → Value}
    (h : ∀ x y, order (ofWord x) (ofWord y) = x.order y) : NumberLaws ofWord order where
  nans_eq x y hx hy := by rw [h, Ieee.order_of_isNaN hx hy]
  lt_nan x y hx hy := by rw [h, Ieee.order_lt_of_isNaN hx hy]
  zeros_eq := by rw [h, Ieee.order_negative_zero]

/-- **The order of values and their hash are lawful**: a total preorder under which values of all
types, NaNs and signed zeros among them, can be sorted, looked up and grouped. -/
theorem lawful : Laws order hashInput where
  swap := order_swap
  trans a b c o hab hbc := by
    cases o with
    | lt => exact Std.TransCmp.lt_trans hab hbc
    | eq => exact Std.TransCmp.eq_trans hab hbc
    | gt => exact Std.TransCmp.gt_trans hab hbc
  isLE_trans a b c := isLE_order_trans
  alike a b c h := ⟨Std.TransCmp.congr_left h, Std.TransCmp.congr_right h⟩
  null_lt a := order_null_lt
  types a b h :=
    ⟨order_ne_eq_of_type?_ne h, order_of_typeRank_ne (mt type?_eq_of_typeRank_eq h)⟩
  float32 := numberLaws_of_order fun _ _ => rfl
  float64 := numberLaws_of_order fun _ _ => rfl
  widened x y := (Binary32.order_toBinary64 x y).symm
  fed_eq a b h := hashInput_eq_of_same (same_iff.mpr h)

end Value

end RelQuery
