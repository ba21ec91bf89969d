import RelQuery.Predicate
import RelQuery.Proofs.Ieee.Widening

/-!
# RelQuery.Proofs.Predicate.Coherent

**The comparisons of a column with a literal agree with each other, unless a NaN is compared across
types.**

A comparison that raises no type error takes one of three ways: through the order of values, through
the integers, or through the numbers of 64 bits. The first two always put the value and the literal
in an order, the third does so for numbers only (`isSome_of_compareWithLiteral`). Where there is an
order, the six operators are read off it, so that exactly one of `<`, `==` and `>` holds and each of
the others negates one of them (`coherent_of_order`). Where there is none, all six fail together,
`!=` like `==`.
-/

namespace RelQuery

/-! ### Numbers that are not NaN -/

namespace Ieee

variable {f : Format}

/-- A number made of a magnitude up to infinity is not a NaN. -/
theorem isNaN_ofParts {negative : Bool} {m : Nat} (h : m ≤ f.infinity)
    (hinfinity : f.infinity < f.signWeight) : (ofParts f negative m).isNaN = false := by
  rw [isNaN, magnitude_ofParts (Nat.lt_of_le_of_lt h hinfinity)]
  exact decide_eq_false (Nat.not_lt.mpr h)

/-- The number nearest to an integer is not a NaN. -/
theorem isNaN_ofInt (hinfinity : f.infinity < f.signWeight) (n : Int) :
    (ofInt f n).isNaN = false :=
  isNaN_ofParts (Format.nearest_le f _ _) hinfinity

theorem isSome_partialOrder (x y : Ieee f) :
    (x.partialOrder y).isSome = (!x.isNaN && !y.isNaN) := by
  unfold partialOrder
  cases x.isNaN <;> cases y.isNaN <;> rfl

end Ieee

/-- Widening makes NaNs of NaNs only. -/
theorem Binary32.isNaN_toBinary64 (x : Binary32) : (toBinary64 x).isNaN = x.isNaN := by
  cases h : x.isNaN with
  | true =>
      rw [toBinary64, Ieee.convert, if_pos h]
      decide
  | false =>
      rw [toBinary64_eq h]
      exact Ieee.isNaN_ofParts (widen_le _) (by decide)

namespace Value

/-- Whether a value is a NaN of either floating-point type. -/
def isNaN : Value → Bool
  | float32 x => x.isNaN
  | float64 x => x.isNaN
  | _ => false

theorem isNaN_of_toInt? {v : Value} {n : Int} (h : v.toInt? = some n) : v.isNaN = false := by
  cases v <;> first | rfl | simp [toInt?] at h

/-- The number nearest to a value is a NaN if the value is. -/
theorem isNaN_of_toBinary64? {v : Value} {x : Binary64} (h : v.toBinary64? = some x) :
    x.isNaN = v.isNaN := by
  cases v with
  | int32 n | int64 n =>
      obtain rfl := Option.some.inj h
      exact Ieee.isNaN_ofInt (by decide) _
  | float32 y =>
      obtain rfl := Option.some.inj h
      exact Binary32.isNaN_toBinary64 y
  | float64 y =>
      obtain rfl := Option.some.inj h
      rfl
  | null | bool _ | text _ | bytes _ => simp [toBinary64?] at h

/-- Two values can be put in an order: they are of one type, or neither is a NaN. -/
def Orderable (v w : Value) : Prop :=
  v.type? = w.type? ∨ v.isNaN = false ∧ w.isNaN = false

end Value

/-- A comparison of values that are not null, if it raises no type error, gives an order exactly if
there is one. -/
theorem isSome_of_compareWithLiteral {column : String} {v literal : Value} {o : Option Ordering}
    (hv : v ≠ .null) (hliteral : literal ≠ .null)
    (h : compareWithLiteral column v literal = .ok o) :
    o.isSome = true ↔ v.Orderable literal := by
  obtain ⟨vt, hvt⟩ := Option.ne_none_iff_exists'.mp (mt Value.type?_eq_none_iff.mp hv)
  obtain ⟨lt, hlt⟩ := Option.ne_none_iff_exists'.mp (mt Value.type?_eq_none_iff.mp hliteral)
  simp only [compareWithLiteral, hvt, hlt] at h
  by_cases htype : vt = lt
  · -- The order of values is total.
    rw [if_pos htype] at h
    obtain rfl := Except.ok.inj h
    simp [Value.Orderable, hvt, hlt, htype]
  · rw [if_neg htype] at h
    have hdiffer : v.type? ≠ literal.type? := by
      rw [hvt, hlt]
      exact fun heq => htype (Option.some.inj heq)
    split at h
    · rename_i a b ha hb
      obtain rfl := Except.ok.inj h
      simp [Value.Orderable, Value.isNaN_of_toInt? ha, Value.isNaN_of_toInt? hb]
    · split at h
      · rename_i x y hx hy
        obtain rfl := Except.ok.inj h
        rw [Ieee.isSome_partialOrder, Value.isNaN_of_toBinary64? hx,
          Value.isNaN_of_toBinary64? hy]
        simp [Value.Orderable, hdiffer]
      · simp at h

namespace Predicate

variable {row : Row} {column : String} {v literal : Value}

/-- The comparisons of a column with a literal on a row agree with each other. -/
structure Coherent (row : Row) (column : String) (literal : Value) : Prop where
  /-- Exactly one of the three holds, and the other two do not. -/
  one : ∃ op ∈ [Comparison.lt, .eq, .gt], ∀ op' ∈ [Comparison.lt, .eq, .gt],
    (compare column op' literal).eval row = .ok (op' == op)
  ne : (compare column .ne literal).eval row = (not (compare column .eq literal)).eval row
  ge : (compare column .ge literal).eval row = (not (compare column .lt literal)).eval row
  le : (compare column .le literal).eval row = (not (compare column .gt literal)).eval row

/-- What a comparison answers, given the order of the column's value and the literal. -/
theorem eval_compare {o : Option Ordering} (hv : row.value column = .ok v)
    (ho : compareWithLiteral column v literal = .ok o) (op : Comparison) :
    (compare column op literal).eval row = .ok (o.any op.holds) := by
  simp only [eval, hv, ho, bind, Except.bind]
  cases o <;> rfl

theorem eval_not {p : Predicate} {b : Bool} (h : p.eval row = .ok b) :
    (not p).eval row = .ok !b := by
  rw [eval, h]
  rfl

/-- Where there is an order, the comparisons are read off it. -/
theorem coherent_of_order {o : Ordering}
    (h : ∀ op, (compare column op literal).eval row = .ok (op.holds o)) :
    Coherent row column literal where
  one := by
    simp only [h]
    cases o with
    | lt => exact ⟨.lt, by decide, by decide⟩
    | eq => exact ⟨.eq, by decide, by decide⟩
    | gt => exact ⟨.gt, by decide, by decide⟩
  ne := by
    rw [h, eval_not (h .eq)]
    rfl
  ge := by
    rw [h, eval_not (h .lt)]
    rfl
  le := by
    rw [h, eval_not (h .gt)]
    rfl

/-- Where no comparison holds, they do not agree. -/
theorem not_coherent_of_none (h : ∀ op, (compare column op literal).eval row = .ok false) :
    ¬Coherent row column literal := by
  intro hcoherent
  obtain ⟨op, hmem, hone⟩ := hcoherent.one
  have hheld := (h op).symm.trans (hone op hmem)
  simp at hheld

/-- A comparison can only fail for the types of what it compares. -/
theorem kind_of_compareWithLiteral {e : Error}
    (h : compareWithLiteral column v literal = .error e) : e.kind = .type := by
  unfold compareWithLiteral at h
  split at h
  · split at h
    · simp at h
    · split at h
      · simp at h
      · split at h
        · simp at h
        · obtain rfl := Except.error.inj h
          rfl
  · simp at h

/-- **Comparisons are coherent where there is an order.** For a value and a literal that are not
null and whose comparison raises no type error, exactly one of `<`, `==` and `>` holds, and `!=`,
`>=` and `<=` are the negations of `==`, `<` and `>`, if and only if both are of one type or neither
is a NaN. Otherwise no comparison holds at all. -/
theorem coherent_iff {op : Comparison} (hv : row.value column = .ok v) (hvalue : v ≠ .null)
    (hliteral : literal ≠ .null)
    (htyped : ∀ e, (compare column op literal).eval row = .error e → e.kind ≠ .type) :
    (Coherent row column literal ↔ v.Orderable literal) ∧
      (¬v.Orderable literal → ∀ op', (compare column op' literal).eval row = .ok false) := by
  obtain ⟨o, ho⟩ : ∃ o, compareWithLiteral column v literal = .ok o := by
    cases ho : compareWithLiteral column v literal with
    | ok o => exact ⟨o, rfl⟩
    | error e =>
        have hfails : (compare column op literal).eval row = .error e := by
          simp only [eval, hv, ho, bind, Except.bind]
        exact absurd (kind_of_compareWithLiteral ho) (htyped e hfails)
  have heval := eval_compare hv ho
  rw [← isSome_of_compareWithLiteral hvalue hliteral ho]
  cases o with
  | none => exact ⟨iff_of_false (not_coherent_of_none heval) (by simp), fun _ => heval⟩
  | some o => exact ⟨iff_of_true (coherent_of_order heval) rfl, fun h => absurd rfl h⟩

/-- The reading of a gauge. -/
def reading (level : Binary32) : Row :=
  ⟨⟨"readings", [⟨"gauge", .text, false, .position 0⟩, ⟨"level", .float32, true, .position 1⟩]⟩,
    [.text "north", .float32 level], rfl⟩

/-- The negative zero of 32 bits is compared with the integer zero, and nothing but equal to it. -/
theorem coherent_at_zero : Coherent (reading (.ofParts .single true 0)) "level" (.int64 0) :=
  (@coherent_iff (reading (.ofParts .single true 0)) "level" (.float32 (.ofParts .single true 0))
    (.int64 0) .lt rfl (by simp) (by simp) (fun e he => by cases he)).1.mpr
      (.inr ⟨by decide, rfl⟩)

/-- A NaN of 32 bits and the number one of 64 bits: neither is null, no comparison raises an error,
and none holds, so that `!=` is not the negation of `==`. A NaN of the literal's own type is above
it. -/
theorem incoherent_at_nan :
    (reading .nan).value "level" = .ok (.float32 .nan) ∧
      (∀ op, (compare "level" op (.float64 (.ofInt .double 1))).eval (reading .nan) =
        .ok false) ∧
      ¬Coherent (reading .nan) "level" (.float64 (.ofInt .double 1)) ∧
      Coherent (reading .nan) "level" (.float32 (.ofInt .single 1)) := by
  have hnone : ∀ op, (compare "level" op (.float64 (.ofInt .double 1))).eval (reading .nan) =
      .ok false := fun op => by cases op <;> rfl
  exact ⟨rfl, hnone, not_coherent_of_none hnone,
    @coherent_of_order _ _ _ .gt fun op => by cases op <;> rfl⟩

end Predicate

end RelQuery
