import RelQuery.Proofs.Accumulator.Summary

/-!
# RelQuery.Proofs.Accumulator.Sum

**Sums of integers are exact or refused.**

A sum is kept as an unbounded integer that is let in only if it fits 64 bits, so its result does not
wrap (`toInt_ofInt_of_fits`). `update_integerSum_error_iff` says which values it refuses, in
whatever state it is; that the state is the total of the values accepted before is what `Summarises`
carries along, refused values in between or not.
-/

namespace RelQuery

namespace Accumulator

variable {a : Accumulator} {o : Operand} {v : Value} {e : Error} {sum : Option Int}

theorem fitsInt64_iff {n : Int} :
    fitsInt64 n = true ↔ Int64.minValue.toInt ≤ n ∧ n ≤ Int64.maxValue.toInt := by
  simp [fitsInt64]

/-- What fits 64 bits is kept as it is. -/
theorem toInt_ofInt_of_fits {n : Int} (h : fitsInt64 n = true) : (Int64.ofInt n).toInt = n := by
  obtain ⟨hlow, hhigh⟩ := fitsInt64_iff.mp h
  exact Int64.toInt_ofInt_of_le hlow (Int.lt_add_one_of_le hhigh)

/-- An offer fails as the update does. -/
theorem offer_error_iff : (a.offer v).1 = .error e ↔ a.update v = .error e := by
  rw [offer_eq]
  exact map_eq_error_iff

/-- A sum refuses values of another type, and those with which it would not fit. -/
theorem update_integerSum_error_iff (htype : o.type.isInteger = true) :
    (integerSum o sum).update v = .error e ↔ v ≠ .null ∧
      (v.type? ≠ some o.type ∧ e = o.mismatch v ∨
        v.type? = some o.type ∧ fitsInt64 (sum.getD 0 + v.toInt?.getD 0) = false ∧
          e = .sumOverflow o.column) := by
  by_cases hnull : v = .null
  · subst hnull
    simp [update, isOverRows, Value.isNull]
  · rw [update_eq_add hnull, add]
    by_cases hv : v.type? = some o.type
    · obtain ⟨n, hn⟩ := integer_of_type hv htype
      have hvalue : v.toInt? = some n := (integer_eq_ok_iff.mp hn).2
      by_cases hfits : fitsInt64 (sum.getD 0 + n)
      · simp [hn, hvalue, bind, Except.bind, pure, Except.pure, hfits, hv]
      · simp only [hn, hvalue, bind, Except.bind, hfits, Bool.false_eq_true, if_false]
        simp [hfits, hv, hnull, eq_comm]
    · have hrefused : o.integer v = .error (o.mismatch v) := by
        simp [Operand.integer, Operand.check, hv, bind, Except.bind]
      rw [hrefused]
      constructor
      · intro h
        exact ⟨hnull, .inl ⟨hv, (Except.error.inj h).symm⟩⟩
      · rintro ⟨-, ⟨-, rfl⟩ | ⟨htyped, -⟩⟩
        · rfl
        · exact absurd htyped hv

/-- A pass of a sum over a column of integers fails if a total on the way does not fit, and only
then. -/
theorem foldlM_integerSum_error_iff (htype : o.type.isInteger = true) :
    ∀ {vs : List Value} {sum : Option Int}, (∀ v ∈ vs, v = .null ∨ v.type? = some o.type) →
      fitsInt64 (sum.getD 0) = true →
      (vs.foldlM update (integerSum o sum) = .error e ↔ e = .sumOverflow o.column ∧
        ∃ taken, taken <+: vs ∧ fitsInt64 (sum.getD 0 + total taken) = false)
  | [], sum, _, hsum => by simp [pure, Except.pure, total, hsum]
  | v :: vs, sum, hvs, hsum => by
      rw [List.forall_mem_cons] at hvs
      have hshift : (∃ taken, taken <+: v :: vs ∧
          fitsInt64 (sum.getD 0 + total taken) = false) ↔ ∃ taken, taken <+: vs ∧
            fitsInt64 (sum.getD 0 + v.toInt?.getD 0 + total taken) = false := by
        simp [List.prefix_cons_iff, or_and_right, exists_or, total, hsum, Int.add_assoc]
      rw [hshift, List.foldlM_cons]
      by_cases hfits : fitsInt64 (sum.getD 0 + v.toInt?.getD 0) = true
      · obtain ⟨sum', hupdate, hsum'⟩ : ∃ sum',
            (integerSum o sum).update v = .ok (integerSum o sum') ∧
              sum'.getD 0 = sum.getD 0 + v.toInt?.getD 0 := by
          rcases hvs.1 with rfl | hv
          · exact ⟨sum, rfl, (Int.add_zero _).symm⟩
          · obtain ⟨n, hn⟩ := integer_of_type hv htype
            rw [(integer_eq_ok_iff.mp hn).2] at hfits ⊢
            have hnull : v ≠ .null := by
              rintro rfl
              simp [Value.type?] at hv
            refine ⟨some (sum.getD 0 + n), ?_, rfl⟩
            rw [update_eq_add hnull, add, hn]
            exact if_pos hfits
        rw [hupdate, ← hsum']
        exact foldlM_integerSum_error_iff htype hvs.2 (hsum' ▸ hfits)
      · rw [Bool.not_eq_true] at hfits
        have hv : v.type? = some o.type := by
          refine hvs.1.resolve_left ?_
          rintro rfl
          simp [Value.toInt?, hsum] at hfits
        have hnull : v ≠ .null := by
          rintro rfl
          simp [Value.type?] at hv
        have hupdate : (integerSum o sum).update v = .error (.sumOverflow o.column) :=
          (update_integerSum_error_iff htype).mpr ⟨hnull, .inr ⟨hv, hfits, rfl⟩⟩
        rw [hupdate]
        refine ⟨fun h => ⟨(Except.error.inj h).symm, [], List.nil_prefix, ?_⟩, fun h => ?_⟩
        · rw [total, Int.add_zero]
          exact hfits
        · rw [h.1]
          rfl

/-- **A sum of integers is exact, and never wraps.** An update of the accumulator over an integer
column fails if the value is not null and either has another type than the column or would take the
total of the values accepted so far out of the range of 64 bits, and only then; the result is null
before the first accepted value and that total afterwards. This is so after any values, and in
particular after any that were refused. -/
theorem sum_exact (column : String) {type : ColumnType} (htype : type.isInteger = true) :
    ∃ a, fresh .sum column (some type) = .ok a ∧ ∀ vs,
      (a.accepted vs = [] → (a.after vs).result = .null) ∧
      (a.accepted vs ≠ [] →
        ∃ n : Int64, (a.after vs).result = .int64 n ∧ n.toInt = total (a.accepted vs)) ∧
      ∀ v e, ((a.after vs).offer v).1 = .error e ↔ v ≠ .null ∧
        (v.type? ≠ some type ∧ e = .typeMismatch column type v.typeName ∨
          v.type? = some type ∧
            ¬(Int64.minValue.toInt ≤ total (a.accepted vs ++ [v]) ∧
              total (a.accepted vs ++ [v]) ≤ Int64.maxValue.toInt) ∧
            e = .sumOverflow column) := by
  obtain ⟨a, hfresh, hsummary⟩ := @summarises_fresh _ column type (.inr ⟨rfl, htype⟩)
  refine ⟨a, hfresh, fun vs => ?_⟩
  have hstate := hsummary.after vs
  rw [List.nil_append] at hstate
  generalize a.accepted vs = taken at hstate ⊢
  generalize a.after vs = b at hstate ⊢
  cases hstate with
  | sum hfits =>
      refine ⟨?_, ?_, fun v e => ?_⟩
      · rintro rfl
        rfl
      · intro htaken
        refine ⟨Int64.ofInt (total taken), ?_, toInt_ofInt_of_fits hfits⟩
        simp [result, htaken]
      · rw [offer_error_iff, update_integerSum_error_iff htype, getD_total, ← total_append,
          ← fitsInt64_iff, Bool.not_eq_true]
        rfl

/-- At the upper limit one more is refused, and so is a text; one less is still taken. -/
theorem sum_exact_at_limit :
    ∃ a, fresh .sum "cents" (some .int64) = .ok a ∧
      a.accepted [.int64 Int64.maxValue, .text "7", .int64 1, .null] = [.int64 Int64.maxValue] ∧
      ((a.after [.int64 Int64.maxValue, .text "7", .int64 1, .null]).offer (.int64 1)).1 =
        .error (.sumOverflow "cents") ∧
      ∃ n : Int64,
        (a.after [.int64 Int64.maxValue, .text "7", .int64 1, .null, .int64 (-1)]).result =
          .int64 n ∧ n.toInt = Int64.maxValue.toInt - 1 := by
  obtain ⟨a, hfresh, hsum⟩ := @sum_exact "cents" .int64 rfl
  have hrefuse := (hsum [.int64 Int64.maxValue, .text "7", .int64 1, .null]).2.2
    (.int64 1) (.sumOverflow "cents")
  have hresult := (hsum [.int64 Int64.maxValue, .text "7", .int64 1, .null, .int64 (-1)]).2.1
  cases hfresh
  refine ⟨_, rfl, by decide, hrefuse.mpr (by decide), ?_⟩
  obtain ⟨n, hn, htotal⟩ := hresult (by decide)
  exact ⟨n, hn, htotal.trans (by decide)⟩

end Accumulator

end RelQuery
