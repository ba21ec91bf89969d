import RelQuery.Proofs.Ieee.Rounding
import RelQuery.Proofs.Predicate.Coherent

/-!
# RelQuery.Proofs.Predicate.Numeric

**The integers of a column are compared with a floating-point literal as the numbers nearest to
them.**

Comparing an integer with a literal of 32 or 64 bits comes down to places in the order of numbers of
64 bits (`compareWithLiteral_int64`): that of the integer, rounded, and that of the literal,
widened. Since rounding keeps the order of integers, a larger integer satisfies `>=` with a smaller
one. Whether it also satisfies `>`, as it should, depends on whether the two are rounded to
different numbers (`separates_iff`), which is certain only if they are not both beyond two to the
power of 53 on the same side.
-/

namespace RelQuery

/-- A literal of a floating-point type that is not a NaN. -/
structure Value.IsFloating (v : Value) : Prop where
  type : v.type? = some .float32 ∨ v.type? = some .float64
  not_nan : v.isNaN = false

theorem Value.IsFloating.eq_float {v : Value} (h : v.IsFloating) :
    (∃ x, v = .float32 x) ∨ ∃ x, v = .float64 x := by
  cases v with
  | float32 x => exact .inl ⟨x, rfl⟩
  | float64 x => exact .inr ⟨x, rfl⟩
  | null | bool _ | int32 _ | int64 _ | text _ | bytes _ =>
      rcases h.type with htype | htype <;> simp [type?] at htype

/-- Such a literal stands for a number of 64 bits. -/
theorem Value.IsFloating.exists_toBinary64? {v : Value} (h : v.IsFloating) :
    ∃ x, v.toBinary64? = some x := by
  rcases h.eq_float with ⟨x, rfl⟩ | ⟨x, rfl⟩
  · exact ⟨_, rfl⟩
  · exact ⟨x, rfl⟩

namespace Predicate

variable {row row' : Row} {column : String} {literal : Value} {a b : Int64}

/-- An integer is compared with a literal as the number nearest to it is with the number that the
literal is in 64 bits. -/
theorem compareWithLiteral_int64 (h : literal.IsFloating) {x : Binary64}
    (hx : literal.toBinary64? = some x) (column : String) (n : Int64) :
    compareWithLiteral column (.int64 n) literal =
      .ok (some ((Ieee.ofInt .double n.toInt).order x)) := by
  have hnan : x.isNaN = false := (Value.isNaN_of_toBinary64? hx).trans h.not_nan
  have horder : (Ieee.ofInt .double n.toInt).partialOrder x =
      some ((Ieee.ofInt .double n.toInt).order x) := by
    rw [Ieee.partialOrder, hnan, Ieee.isNaN_ofInt (by decide)]
    rfl
  rw [← horder]
  rcases h.eq_float with ⟨y, rfl⟩ | ⟨y, rfl⟩
  · obtain rfl := Option.some.inj hx
    rfl
  · obtain rfl := Option.some.inj hx
    rfl

theorem holds_ge_iff {m n : Int} : Comparison.ge.holds (Ord.compare m n) = true ↔ n ≤ m := by
  rcases Int.lt_trichotomy m n with h | h | h
  · rw [compare_lt_iff_lt.mpr h]
    exact iff_of_false (by decide) (by omega)
  · rw [compare_eq_iff_eq.mpr h]
    exact iff_of_true (by decide) (by omega)
  · rw [compare_gt_iff_gt.mpr h]
    exact iff_of_true (by decide) (by omega)

theorem holds_gt_iff {m n : Int} : Comparison.gt.holds (Ord.compare m n) = true ↔ n < m := by
  rw [← compare_gt_iff_gt, Comparison.holds, beq_iff_eq]

/-- What two comparisons say about the place of an integer. -/
theorem eval_int64_iff (hrow : row.value column = .ok (.int64 a)) (h : literal.IsFloating)
    {x : Binary64} (hx : literal.toBinary64? = some x) :
    ((compare column .ge literal).eval row = .ok true ↔
      x.rank ≤ (Ieee.ofInt .double a.toInt).rank) ∧
    ((compare column .gt literal).eval row = .ok true ↔
      x.rank < (Ieee.ofInt .double a.toInt).rank) := by
  have heval := eval_compare hrow (compareWithLiteral_int64 h hx column a)
  rw [heval, heval, Except.ok.injEq, Except.ok.injEq]
  exact ⟨holds_ge_iff, holds_gt_iff⟩

/-- The literal of 64 bits that is nearest to an integer. -/
def near (m : Int) : Value :=
  .float64 (.ofInt .double m)

theorem isFloating_near (m : Int) : (near m).IsFloating :=
  ⟨.inr rfl, Ieee.isNaN_ofInt (by decide) _⟩

/-- **Integers are compared with floating-point literals as their nearest numbers.** Of two
integers, whatever literal the smaller one is at least, the larger one is at least, too. It is
greater than each of them, as it is in numbers, if and only if its nearest number is above that of
the smaller one; and so it is unless both are beyond two to the power of 53 on the same side. -/
theorem separates_iff (hrow : row.value column = .ok (.int64 a))
    (hrow' : row'.value column = .ok (.int64 b)) (hlt : a < b) :
    ((∀ literal : Value, literal.IsFloating →
        (compare column .ge literal).eval row = .ok true →
          (compare column .gt literal).eval row' = .ok true) ↔
      (Ieee.ofInt .double a.toInt).order (Ieee.ofInt .double b.toInt) = .lt) ∧
    (a.toInt < 9007199254740992 → -9007199254740992 < b.toInt →
      (Ieee.ofInt .double a.toInt).order (Ieee.ofInt .double b.toInt) = .lt) ∧
    ∀ literal : Value, literal.IsFloating →
      (compare column .ge literal).eval row = .ok true →
        (compare column .ge literal).eval row' = .ok true := by
  have hint : a.toInt < b.toInt := Int64.lt_iff_toInt_lt.mp hlt
  refine ⟨⟨fun h => ?_, fun h literal hliteral hge => ?_⟩, fun ha hb => ?_,
    fun literal hliteral hge => ?_⟩
  · -- The number nearest to the smaller integer is itself a literal.
    have hnearest := isFloating_near a.toInt
    have hge := (eval_int64_iff hrow hnearest rfl).1.mpr (Int.le_refl _)
    exact compare_lt_iff_lt.mpr ((eval_int64_iff hrow' hnearest rfl).2.mp (h _ hnearest hge))
  · obtain ⟨x, hx⟩ := hliteral.exists_toBinary64?
    have hle := (eval_int64_iff hrow hliteral hx).1.mp hge
    exact (eval_int64_iff hrow' hliteral hx).2.mpr
      (Int.lt_of_le_of_lt hle (compare_lt_iff_lt.mp h))
  · exact compare_lt_iff_lt.mpr (Ieee.rank_ofInt_lt hint ha hb)
  · obtain ⟨x, hx⟩ := hliteral.exists_toBinary64?
    have hle := (eval_int64_iff hrow hliteral hx).1.mp hge
    exact (eval_int64_iff hrow' hliteral hx).1.mpr (hle.trans (Ieee.rank_ofInt_le hint.le))

/-- The deed of a house. -/
def deed (number : Int64) : Row :=
  ⟨⟨"deeds", [⟨"town", .text, false, .position 0⟩, ⟨"number", .int64, false, .position 1⟩]⟩,
    [.text "Ulm", .int64 number], rfl⟩

theorem eval_deed {n : Int64} {m : Int} {o : Ordering}
    (h : (Ieee.ofInt .double n.toInt).order (.ofInt .double m) = o) (op : Comparison) :
    (compare "number" op (near m)).eval (deed n) = .ok (op.holds o) := by
  have ho := compareWithLiteral_int64 (isFloating_near m) rfl "number" n
  rw [h] at ho
  exact @eval_compare (deed n) "number" (.int64 n) _ _ rfl ho op

/-- Two to the power of 53 and the integer before it are told apart, also by the literal that is
equal to the smaller one. -/
theorem separates_last_neighbours :
    (9007199254740991 : Int64) < 9007199254740992 ∧
      (compare "number" .ge (near 9007199254740991)).eval (deed 9007199254740991) = .ok true ∧
      (compare "number" .gt (near 9007199254740991)).eval (deed 9007199254740992) = .ok true := by
  have hge := @eval_deed 9007199254740991 9007199254740991 .eq (by decide +kernel) .ge
  have hseparates := @separates_iff (deed 9007199254740991) (deed 9007199254740992) "number"
    9007199254740991 9007199254740992 rfl rfl (by decide)
  have hnearest := hseparates.2.1 (by decide) (by decide)
  exact ⟨by decide, hge, hseparates.1.mpr hnearest _ (isFloating_near _) hge⟩

/-- The integer behind it is rounded to it: two to the power of 53 is a literal that the first is at
least and the second not greater than, because both are equal to it. -/
theorem neighbours_not_separated :
    (near 9007199254740992).IsFloating ∧
      (9007199254740992 : Int64) < 9007199254740993 ∧
      (compare "number" .ge (near 9007199254740992)).eval (deed 9007199254740992) = .ok true ∧
      (compare "number" .gt (near 9007199254740992)).eval (deed 9007199254740993) = .ok false ∧
      (compare "number" .eq (near 9007199254740992)).eval (deed 9007199254740992) = .ok true ∧
      (compare "number" .eq (near 9007199254740992)).eval (deed 9007199254740993) = .ok true := by
  have hsmaller := @eval_deed 9007199254740992 9007199254740992 .eq (by decide +kernel)
  have hlarger := @eval_deed 9007199254740993 9007199254740992 .eq (by decide +kernel)
  exact ⟨isFloating_near _, by decide, hsmaller .ge, hlarger .gt, hsmaller .eq, hlarger .eq⟩

end Predicate

end RelQuery
