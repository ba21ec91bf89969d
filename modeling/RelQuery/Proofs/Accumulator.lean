import RelQuery.Accumulator
import RelQuery.Proofs.Row.Conform

/-!
# RelQuery.Proofs.Accumulator

Accumulators are **typed**: what they read and what they yield.

`Accumulator.Yields` says what type the result of a state has, and `Accumulator.Reads` for values of
which type it can be updated. Both are established by a fresh accumulator whose aggregate is
defined for its column (`fresh_yields`, `fresh_reads`) and kept by every update. From them follow
that a result may stand in the output column that was planned for it (`holds_result`) and that a
pass over the values of the column fails only if they are integers that are summed up
(`foldlM_update_error`).

`Adds` says once what an update can do, constructor by constructor; what updates keep is read off
it, here and in the modules on what a state stands for.
-/

namespace RelQuery

namespace Accumulator

/-- The result of the state has this type, or is null if that is allowed. -/
def Yields (type : ColumnType) (nullable : Bool) : Accumulator → Prop
  | rows _ | values _ | distinct _ => type = .int64
  | integerSum _ _ => type = .int64 ∧ nullable = true
  | floatSum _ _ | mean _ _ _ | moments _ _ _ _ _ => type = .float64 ∧ nullable = true
  | extreme o _ best =>
      type = o.type ∧ nullable = true ∧ ∀ v, best = some v → v.type? = some o.type

/-- The state can be updated with values of this type. -/
def Reads (type : ColumnType) : Accumulator → Prop
  | rows _ | values _ | distinct _ => True
  | integerSum o _ => o.type = type ∧ type.isInteger = true
  | floatSum o _ | mean o _ _ | moments o _ _ _ _ => o.type = type ∧ type.isNumeric = true
  | extreme o _ _ => o.type = type

variable {a b : Accumulator} {type : ColumnType} {nullable : Bool}

/-! ### Results -/

/-- A result may stand in a column of the type that the state yields. -/
theorem holds_result {c : Column} (h : a.Yields c.type c.nullable) : c.Holds a.result := by
  obtain ⟨name, type, nullable, origin⟩ := c
  rw [Column.holds_iff]
  cases a with
  | rows n => exact Or.inr (congrArg some h.symm)
  | values n => exact Or.inr (congrArg some h.symm)
  | distinct seen => exact Or.inr (congrArg some h.symm)
  | integerSum o sum =>
      obtain ⟨rfl, rfl⟩ := h
      cases sum <;> simp [result, Value.type?]
  | floatSum o sum =>
      obtain ⟨rfl, rfl⟩ := h
      cases sum <;> simp [result, Value.type?]
  | mean o sum n =>
      obtain ⟨rfl, rfl⟩ := h
      by_cases hn : n = 0 <;> simp [result, Value.type?, hn]
  | extreme o better best =>
      obtain ⟨rfl, rfl, hbest⟩ := h
      cases best with
      | none => exact Or.inl ⟨rfl, rfl⟩
      | some v => exact Or.inr (hbest v rfl)
  | moments o root n centre spread =>
      obtain ⟨rfl, rfl⟩ := h
      by_cases hn : n = 0 <;> simp [result, Value.type?, hn]

/-! ### Fresh accumulators -/

variable {kind : AggregateKind} {column : String} {input : Option ColumnType}

/-- A fresh accumulator yields the type that its aggregate was planned with. -/
theorem fresh_yields (h : fresh kind column input = .ok a)
    (htype : kind.outputType input = .ok type) : a.Yields type (!kind.isCount) := by
  unfold fresh at h
  unfold AggregateKind.outputType at htype
  cases input with
  | none =>
      cases kind <;> simp [AggregateKind.isOverRows, AggregateKind.isCount] at h htype
      obtain rfl := h
      exact htype.symm
  | some t =>
      cases kind <;>
        simp only [AggregateKind.isOverRows, AggregateKind.isCount, Bool.false_eq_true, if_true,
          if_false, Except.ok.injEq] at h htype <;>
        subst h <;> try exact htype.symm
      case sum =>
        split at htype
        · rename_i hint
          rw [if_pos hint]
          exact ⟨(Except.ok.inj htype).symm, rfl⟩
        · rename_i hint
          rw [if_neg hint]
          split at htype
          · exact ⟨(Except.ok.inj htype).symm, rfl⟩
          · simp at htype
      case min => exact ⟨htype.symm, rfl, by simp⟩
      case max => exact ⟨htype.symm, rfl, by simp⟩
      all_goals
        split at htype
        · exact ⟨(Except.ok.inj htype).symm, rfl⟩
        · simp at htype

/-- A fresh accumulator reads the type of its column. -/
theorem fresh_reads {t : ColumnType} (h : fresh kind column (some t) = .ok a)
    (htype : kind.outputType (some t) = .ok type) : a.Reads t := by
  unfold fresh at h
  unfold AggregateKind.outputType at htype
  cases kind <;>
    simp only [AggregateKind.isOverRows, AggregateKind.isCount, Bool.false_eq_true, if_true,
      if_false, Except.ok.injEq] at h htype <;>
    subst h <;> try trivial
  case sum =>
    split at htype
    · rename_i hint
      rw [if_pos hint]
      exact ⟨rfl, hint⟩
    · rename_i hint
      rw [if_neg hint]
      split at htype
      · rename_i hnumeric
        exact ⟨rfl, hnumeric⟩
      · simp at htype
  all_goals
    split at htype
    · rename_i hnumeric
      exact ⟨rfl, hnumeric⟩
    · simp at htype

/-! ### Updates -/

/-- How a state changes when it takes up a value. -/
inductive Adds (v : Value) : Accumulator → Accumulator → Prop
  | rows {n} : Adds v (rows n) (rows (n + 1))
  | values {n} : Adds v (values n) (values (n + 1))
  | distinct {seen} :
      Adds v (distinct seen) (distinct (if seen.contains ⟨v⟩ then seen else seen.insert ⟨v⟩))
  | integerSum {o sum n} (number : o.integer v = .ok n) (fits : fitsInt64 (sum.getD 0 + n) = true) :
      Adds v (integerSum o sum) (integerSum o (some (sum.getD 0 + n)))
  | floatSum {o sum x} (number : o.number v = .ok x) :
      Adds v (floatSum o sum) (floatSum o (some (sum.getD Ieee.zero + x)))
  | mean {o sum n x} (number : o.number v = .ok x) :
      Adds v (mean o sum n) (mean o (sum + x) (n + 1))
  | first {o better} (fits : o.check v = .ok ()) :
      Adds v (extreme o better none) (extreme o better (some v))
  | extreme {o better best} (fits : o.check v = .ok ()) :
      Adds v (extreme o better (some best))
        (extreme o better (some (if v.order best = better then v else best)))
  | moments {o root n centre spread x} (number : o.number v = .ok x) :
      Adds v (moments o root n centre spread)
        (moments o root (n + 1) (centre + (x - centre) / Binary64.ofNat (n + 1))
          (spread + (x - centre) * (x - (centre + (x - centre) / Binary64.ofNat (n + 1)))))

theorem adds_of_add {v : Value} (h : a.add v = .ok b) : Adds v a b := by
  cases a with
  | rows n =>
      obtain rfl := Except.ok.inj h
      exact .rows
  | values n =>
      obtain rfl := Except.ok.inj h
      exact .values
  | distinct seen =>
      obtain rfl := Except.ok.inj h
      exact .distinct
  | integerSum o sum =>
      rw [add, bind_eq_ok_iff] at h
      obtain ⟨n, hn, h⟩ := h
      dsimp only at h
      split at h
      · rename_i hfits
        obtain rfl := pure_eq_ok_iff.mp h
        exact .integerSum hn hfits
      · simp at h
  | floatSum o sum =>
      rw [add, bind_eq_ok_iff] at h
      obtain ⟨x, hx, h⟩ := h
      obtain rfl := pure_eq_ok_iff.mp h
      exact .floatSum hx
  | mean o sum n =>
      rw [add, bind_eq_ok_iff] at h
      obtain ⟨x, hx, h⟩ := h
      obtain rfl := pure_eq_ok_iff.mp h
      exact .mean hx
  | extreme o better best =>
      simp only [add, bind_eq_ok_iff] at h
      obtain ⟨_, hfits, h⟩ := h
      cases best with
      | none =>
          obtain rfl := pure_eq_ok_iff.mp h
          exact .first hfits
      | some best =>
          obtain rfl := pure_eq_ok_iff.mp h
          exact .extreme hfits
  | moments o root n centre spread =>
      rw [add, bind_eq_ok_iff] at h
      obtain ⟨x, hx, h⟩ := h
      obtain rfl := pure_eq_ok_iff.mp h
      exact .moments hx

/-- What is yielded and what is read stay what they are. -/
structure Keeps (a b : Accumulator) : Prop where
  yields : ∀ {type nullable}, a.Yields type nullable → b.Yields type nullable
  reads : ∀ {type}, a.Reads type → b.Reads type

theorem Keeps.refl (a : Accumulator) : Keeps a a := ⟨id, id⟩

theorem type_of_check {o : Operand} {v : Value} (h : o.check v = .ok ()) :
    v.type? = some o.type := by
  unfold Operand.check at h
  split at h
  · assumption
  · simp at h

theorem add_keeps {v : Value} (h : a.add v = .ok b) : Keeps a b := by
  cases adds_of_add h with
  | first hfits =>
      have htype := type_of_check hfits
      exact ⟨fun ⟨ht, hn, _⟩ => ⟨ht, hn, fun w hw => Option.some.inj hw ▸ htype⟩, id⟩
  | extreme hfits =>
      refine ⟨fun ⟨ht, hn, hold⟩ => ⟨ht, hn, fun w hw => ?_⟩, id⟩
      -- The new best value is the new one or the old one.
      obtain rfl := Option.some.inj hw
      split
      · exact type_of_check hfits
      · exact hold _ rfl
  | _ => exact ⟨id, id⟩

theorem update_keeps {v : Value} (h : a.update v = .ok b) : Keeps a b := by
  unfold update at h
  split at h
  · obtain rfl := Except.ok.inj h
    exact Keeps.refl a
  · exact add_keeps h

theorem feed_keeps {position : Option Nat} {row : Row} (h : a.feed position row = .ok b) :
    Keeps a b := by
  unfold feed at h
  split at h
  · obtain rfl := Except.ok.inj h
    exact ⟨id, id⟩
  · exact update_keeps h
  · simp at h

/-- Feeding one row after the other keeps the types. -/
theorem foldlM_feed_keeps {position : Option Nat} : ∀ {rest : List Row} {a b : Accumulator},
    rest.foldlM (fun a row => a.feed position row) a = .ok b → Keeps a b
  | [], a, b, h => by
      obtain rfl := pure_eq_ok_iff.mp h
      exact Keeps.refl a
  | row :: rest, a, b, h => by
      rw [List.foldlM_cons, bind_eq_ok_iff] at h
      obtain ⟨c, hc, h⟩ := h
      have hrow := feed_keeps hc
      have hrest := foldlM_feed_keeps h
      exact ⟨fun hy => hrest.yields (hrow.yields hy), fun hr => hrest.reads (hrow.reads hr)⟩

/-! ### Updates that fail -/

theorem check_of_type {o : Operand} {v : Value} (h : v.type? = some o.type) : o.check v = .ok () :=
  if_pos h

/-- A numeric value is a number. -/
theorem number_of_type {o : Operand} {v : Value} (h : v.type? = some o.type)
    (hnumeric : o.type.isNumeric = true) : ∃ x, o.number v = .ok x := by
  unfold Operand.number
  rw [check_of_type h]
  cases v <;> simp only [Value.type?, Option.some.injEq, reduceCtorEq] at h <;>
    rw [← h] at hnumeric <;> simp only [ColumnType.isNumeric, Bool.false_eq_true] at hnumeric <;>
    exact ⟨_, rfl⟩

/-- A value of an integer type is an integer. -/
theorem integer_of_type {o : Operand} {v : Value} (h : v.type? = some o.type)
    (hinteger : o.type.isInteger = true) : ∃ n, o.integer v = .ok n := by
  unfold Operand.integer
  rw [check_of_type h]
  cases v <;> simp only [Value.type?, Option.some.injEq, reduceCtorEq] at h <;>
    rw [← h] at hinteger <;> simp only [ColumnType.isInteger, Bool.false_eq_true] at hinteger <;>
    exact ⟨_, rfl⟩

/-- What is fed through a position is the cell there. -/
theorem feed_some (a : Accumulator) (i : Nat) (row : Row) :
    a.feed (some i) row = a.update (row.cell i) := by
  cases a with
  | rows n => simp [feed, update, isOverRows, add]
  | _ => rfl

/-- Feeding rows through a position is a pass over the cells there. -/
theorem foldlM_feed_some (a : Accumulator) (i : Nat) (fed : List Row) :
    fed.foldlM (fun a row => a.feed (some i) row) a =
      (fed.map fun row => row.cell i).foldlM update a := by
  simp only [feed_some, List.foldlM_map]

/-- A row counter counts the rows. -/
theorem foldlM_feed_rows (position : Option Nat) (fed : List Row) (n : Nat) :
    fed.foldlM (fun a row => a.feed position row) (rows n) = .ok (rows (n + fed.length)) := by
  induction fed generalizing n with
  | nil => rfl
  | cons row fed ih =>
      have hnext : (rows n).feed position row = .ok (rows (n + 1)) := rfl
      rw [List.foldlM_cons, hnext, List.length_cons, Nat.add_comm fed.length, ← Nat.add_assoc]
      exact ih (n + 1)

/-- An update with a value of the type that is read fails only in a sum of integers. -/
theorem add_error {v : Value} {e : Error} (hreads : a.Reads type) (hv : v.type? = some type)
    (h : a.add v = .error e) : ∃ o sum, a = integerSum o sum := by
  cases a with
  | rows n => simp [add] at h
  | values n => simp [add] at h
  | distinct seen => simp [add] at h
  | integerSum o sum => exact ⟨o, sum, rfl⟩
  | floatSum o sum =>
      obtain ⟨rfl, hnumeric⟩ := hreads
      obtain ⟨x, hx⟩ := number_of_type hv hnumeric
      simp [add, hx, bind, Except.bind, pure, Except.pure] at h
  | mean o sum n =>
      obtain ⟨rfl, hnumeric⟩ := hreads
      obtain ⟨x, hx⟩ := number_of_type hv hnumeric
      simp [add, hx, bind, Except.bind, pure, Except.pure] at h
  | extreme o better best =>
      obtain rfl := hreads
      cases best <;> simp [add, check_of_type hv, bind, Except.bind, pure, Except.pure] at h
  | moments o root n centre spread =>
      obtain ⟨rfl, hnumeric⟩ := hreads
      obtain ⟨x, hx⟩ := number_of_type hv hnumeric
      simp [add, hx, bind, Except.bind, pure, Except.pure] at h

/-- So does an update with a value that may be null. -/
theorem update_error {v : Value} {e : Error} (hreads : a.Reads type)
    (hv : v = .null ∨ v.type? = some type) (h : a.update v = .error e) :
    ∃ o sum, a = integerSum o sum := by
  unfold update at h
  split at h
  · simp at h
  · rename_i hnull
    rcases hv with rfl | hv
    · -- Only a row counter looks at null, and counting does not fail.
      cases a <;> simp [isOverRows, Value.isNull] at hnull
      simp [add] at h
    · exact add_error hreads hv h

/-- What an update leaves a sum of integers has been one. -/
theorem eq_integerSum_of_update {v : Value} {o : Operand} {sum : Option Int}
    (h : a.update v = .ok (integerSum o sum)) : ∃ sum', a = integerSum o sum' := by
  unfold update at h
  split at h
  · exact ⟨sum, Except.ok.inj h⟩
  · cases adds_of_add h with
    | integerSum _ _ => exact ⟨_, rfl⟩

/-- A pass over values of the type that is read fails only in a sum of integers. -/
theorem foldlM_update_error {e : Error} : ∀ {vs : List Value} {a : Accumulator}, a.Reads type →
    (∀ v ∈ vs, v = .null ∨ v.type? = some type) → vs.foldlM update a = .error e →
      ∃ o sum, a = integerSum o sum
  | [], a, _, _, h => by simp [pure, Except.pure] at h
  | v :: vs, a, hreads, hvs, h => by
      rw [List.forall_mem_cons] at hvs
      rw [List.foldlM_cons, bind_eq_error_iff] at h
      rcases h with hupdate | ⟨b, hupdate, h⟩
      · exact update_error hreads hvs.1 hupdate
      · obtain ⟨o, sum, rfl⟩ := foldlM_update_error ((update_keeps hupdate).reads hreads) hvs.2 h
        obtain ⟨sum', rfl⟩ := eq_integerSum_of_update hupdate
        exact ⟨o, sum', rfl⟩

end Accumulator

end RelQuery
