import Mathlib.Order.Bounds.Basic
import RelQuery.Proofs.Accumulator.InPlace
import RelQuery.Proofs.Repetitions
import RelQuery.Proofs.Value.Laws

/-!
# RelQuery.Proofs.Accumulator.Summary

**What a state says about the values it has taken up.**

Counts, extremes and sums of integers have definitions that speak of all values at once
(`AggregateKind.Reports`): how many there are, how many can be picked of which no two are the same,
and which is the first that no other is better than. `Summarises` is the invariant that ties a state
to them. It holds of a fresh accumulator and is carried over by every update (`Summarises.add`), so
after any offers it speaks of the values that have been accepted (`Summarises.after`), and over a
column of the right type these are all that are not null (`Summarises.exists_foldlM`).

Two values can be the same without being equal, as the two zeros are. That is why an extreme is the
*earliest* of the best, and why different values are counted by a hash set that is asked for
sameness (`EquivBEq Value.Member`, `LawfulHashable Value.Member`).
-/

namespace RelQuery

namespace Value

instance : EquivBEq Member where
  rfl := same_refl _
  symm := fun {a b} h => (same_comm b.value a.value).trans h
  trans := same_trans

instance : LawfulHashable Member where
  hash_eq := fun a b h =>
    show hash a.value.hashInput = hash b.value.hashInput from
      congrArg hash (hashInput_eq_of_same h)

/-- The values that are not null. -/
def present (vs : List Value) : List Value :=
  vs.filter fun v => !v.isNull

@[simp] theorem present_nil : present [] = [] := rfl

theorem present_cons_null (vs : List Value) : present (.null :: vs) = present vs := rfl

theorem present_cons {v : Value} (h : v ≠ .null) (vs : List Value) :
    present (v :: vs) = v :: present vs := by
  refine List.filter_cons_of_pos ?_
  simpa [← Bool.not_eq_true, isNull_iff] using h

/-- Some of the values, of which no two are the same. -/
def Unlike (vs picked : List Value) : Prop :=
  (∀ v ∈ picked, v ∈ vs) ∧ picked.Pairwise fun v w => v.order w ≠ .eq

/-- The first of the values that no other stands better to in the order. -/
structure Leads (better : Ordering) (vs : List Value) (best : Value) : Prop where
  unbeaten : ∀ v ∈ vs, v.order best ≠ better
  /-- All that stand before it are beaten. -/
  earliest : ∃ earlier later, vs = earlier ++ best :: later ∧
    ∀ v ∈ earlier, ∃ w ∈ vs, w.order v = better

/-- What a least or greatest value is defined to be: the first of the best, and null if there are
none. -/
inductive Extreme (better : Ordering) : List Value → Value → Prop
  | none : Extreme better [] .null
  | leads {vs best} (leads : Leads better vs best) : Extreme better vs best

/-! ### Different values -/

/-- The largest choice of values of which no two are the same takes one of each. -/
theorem isGreatest_unlike (vs : List Value) :
    IsGreatest {n | ∃ picked, Unlike vs picked ∧ picked.length = n}
      (vs.map Member.mk).eraseDups.length := by
  constructor
  · refine ⟨(vs.map Member.mk).eraseDups.map Member.value, ⟨?_, ?_⟩, List.length_map _⟩
    · intro v hv
      obtain ⟨m, hm, rfl⟩ := List.mem_map.mp hv
      obtain ⟨w, hw, rfl⟩ := List.mem_map.mp (mem_of_mem_eraseDups hm)
      exact hw
    · rw [List.pairwise_map]
      refine (pairwise_eraseDups _).imp fun {a b} h heq => ?_
      exact Bool.eq_false_iff.mp h (same_iff.mpr heq)
  · rintro _ ⟨picked, ⟨hmem, hunlike⟩, rfl⟩
    rw [← List.length_map (f := Member.mk)]
    refine length_le_of_occur ?_ ?_
    · rw [List.pairwise_map]
      exact hunlike.imp fun {v w} h => Bool.eq_false_iff.mpr (mt same_iff.mp h)
    · intro m hm
      obtain ⟨v, hv, rfl⟩ := List.mem_map.mp hm
      rw [any_eraseDups, List.any_eq_true]
      exact ⟨_, List.mem_map_of_mem (hmem v hv), BEq.rfl⟩

/-- A hash set has one member for each of the values and for those that are the same. -/
structure Collects (seen : Std.HashSet Member) (vs : List Value) : Prop where
  contains : ∀ m, seen.contains m = (vs.map Member.mk).any (· == m)
  size : seen.size = (vs.map Member.mk).eraseDups.length

theorem collects_nil : Collects ∅ [] where
  contains m := by simp
  size := by simp

/-- A further value becomes a member if it is not the same as one before. -/
theorem Collects.append {seen : Std.HashSet Member} {vs : List Value} (h : Collects seen vs)
    (v : Value) :
    Collects (if seen.contains ⟨v⟩ then seen else seen.insert ⟨v⟩) (vs ++ [v]) := by
  have hmap : (vs ++ [v]).map Member.mk = vs.map Member.mk ++ [⟨v⟩] := List.map_append
  by_cases hv : seen.contains ⟨v⟩
  · rw [if_pos hv]
    rw [h.contains] at hv
    constructor
    · intro m
      rw [hmap, List.any_append, h.contains]
      cases hm : (⟨v⟩ : Member) == m with
      | false => simp [hm]
      | true =>
          -- What equals the new value equals the one that it is the same as.
          simp only [BEq.congr_right hm] at hv
          simp [hv]
    · rw [hmap, eraseDups_append_singleton, if_pos hv, h.size]
  · rw [if_neg hv]
    constructor
    · intro m
      rw [hmap, List.any_append, Std.HashSet.contains_insert, h.contains, Bool.or_comm]
      simp
    · have hnew : ¬ ⟨v⟩ ∈ seen := by rwa [Std.HashSet.mem_iff_contains]
      rw [h.contains] at hv
      rw [hmap, eraseDups_append_singleton, if_neg hv, Std.HashSet.size_insert, if_neg hnew, h.size,
        List.length_append, List.length_singleton]

/-! ### Extremes -/

section Leads

variable {better : Ordering} {vs ws : List Value} {best u v w : Value}

/-- What is better than a value is better than all that are not. -/
theorem order_of_not_better (hstrict : better ≠ .eq) (hw : w.order v = better)
    (hu : u.order v ≠ better) : w.order u = better := by
  cases better with
  | eq => exact absurd rfl hstrict
  | lt =>
      have hvu : (v.order u).isLE := by
        rw [← Std.OrientedCmp.isGE_iff_isLE, Ordering.isGE_iff_ne_lt]
        exact hu
      exact Std.TransCmp.lt_of_lt_of_isLE hw hvu
  | gt =>
      have hvu : (v.order u).isGE := by
        rw [Std.OrientedCmp.isGE_iff_isLE, Ordering.isLE_iff_ne_gt]
        exact hu
      exact Std.TransCmp.gt_of_gt_of_isGE hw hvu

theorem not_better_self (hstrict : better ≠ .eq) (v : Value) : v.order v ≠ better := by
  rw [same_iff.mp (same_refl v)]
  exact hstrict.symm

theorem Leads.mem (h : Leads better vs best) : best ∈ vs := by
  obtain ⟨earlier, later, rfl, -⟩ := h.earliest
  exact List.mem_append_right _ List.mem_cons_self

theorem leads_singleton (hstrict : better ≠ .eq) (v : Value) : Leads better [v] v where
  unbeaten w hw := by
    rw [List.mem_singleton.mp hw]
    exact not_better_self hstrict v
  earliest := ⟨[], [], rfl, by simp⟩

/-- A further value takes the lead if it is better, and only then. -/
theorem Leads.append (hstrict : better ≠ .eq) (h : Leads better vs best) (v : Value) :
    Leads better (vs ++ [v]) (if v.order best = better then v else best) := by
  by_cases hv : v.order best = better
  · rw [if_pos hv]
    have hbeaten : ∀ w ∈ vs, v.order w = better := fun w hw =>
      order_of_not_better hstrict hv (h.unbeaten w hw)
    constructor
    · intro w hw hwv
      rcases List.mem_append.mp hw with hw | hw
      · -- What is better than the new value is better than the old best.
        exact h.unbeaten w hw (order_trans hwv hv)
      · rw [List.mem_singleton.mp hw] at hwv
        exact not_better_self hstrict v hwv
    · have hv : v ∈ vs ++ [v] := List.mem_append_right vs List.mem_cons_self
      exact ⟨vs, [], rfl, fun w hw => ⟨v, hv, hbeaten w hw⟩⟩
  · rw [if_neg hv]
    constructor
    · intro w hw
      rcases List.mem_append.mp hw with hw | hw
      · exact h.unbeaten w hw
      · rw [List.mem_singleton.mp hw]
        exact hv
    · obtain ⟨earlier, later, hvs, hearlier⟩ := h.earliest
      refine ⟨earlier, later ++ [v], by rw [hvs]; simp, fun w hw => ?_⟩
      obtain ⟨u, hu, huw⟩ := hearlier w hw
      exact ⟨u, List.mem_append_left _ hu, huw⟩

/-- In whatever order the values come, the best of them are the same. -/
theorem Leads.same_of_perm (hstrict : better ≠ .eq) (hv : Leads better vs v)
    (hw : Leads better ws w) (hperm : vs.Perm ws) : v.same w = true := by
  have hvw := hw.unbeaten v (hperm.subset hv.mem)
  have hwv := hv.unbeaten w (hperm.symm.subset hw.mem)
  rw [same_iff]
  rw [order_swap] at hwv
  cases better <;> cases horder : v.order w <;> simp_all

theorem Extreme.same_of_perm (hstrict : better ≠ .eq) (hv : Extreme better vs v)
    (hw : Extreme better ws w) (hperm : vs.Perm ws) : v.same w = true := by
  cases hv with
  | none =>
      obtain rfl := hperm.nil_eq
      cases hw with
      | none => exact same_refl _
      | leads hw => exact absurd hw.mem List.not_mem_nil
  | leads hv =>
      cases hw with
      | none => exact absurd (hperm.subset hv.mem) List.not_mem_nil
      | leads hw => exact hv.same_of_perm hstrict hw hperm

end Leads

end Value

open Value

namespace AggregateKind

/-- What counts and extremes are defined to be over some values, none of which is null. Different
values are as many as can be picked of which no two are the same. -/
def Reports : AggregateKind → List Value → Value → Prop
  | count, vs, r => r = Accumulator.countValue vs.length
  | countDistinct, vs, r => ∃ n, r = Accumulator.countValue n ∧
      IsGreatest {n | ∃ picked, Unlike vs picked ∧ picked.length = n} n
  | min, vs, r => Extreme .lt vs r
  | max, vs, r => Extreme .gt vs r
  | _, _, _ => False

/-- In whatever order the values come, what is reported about them is the same. -/
theorem Reports.same_of_perm {kind : AggregateKind} {vs ws : List Value} {v w : Value}
    (hv : kind.Reports vs v) (hw : kind.Reports ws w) (hperm : vs.Perm ws) : v.same w = true := by
  cases kind with
  | count =>
      obtain rfl := hv
      obtain rfl := hw
      rw [hperm.length_eq, same_refl]
  | countDistinct =>
      obtain ⟨m, rfl, hm⟩ := hv
      obtain ⟨n, rfl, hn⟩ := hw
      have hunlike : ∀ picked, Unlike vs picked ↔ Unlike ws picked := by
        intro picked
        simp [Unlike, hperm.mem_iff]
      simp only [hunlike] at hm
      rw [hm.unique hn, same_refl]
  | min => exact Extreme.same_of_perm (by decide) hv hw hperm
  | max => exact Extreme.same_of_perm (by decide) hv hw hperm
  | _ => exact hv.elim

end AggregateKind

namespace Accumulator

variable {a b : Accumulator} {o : Operand} {kind : AggregateKind} {vs : List Value} {v : Value}

/-- The sum of the integers that values stand for. -/
def total : List Value → Int
  | [] => 0
  | v :: vs => v.toInt?.getD 0 + total vs

theorem total_append (vs : List Value) (v : Value) :
    total (vs ++ [v]) = total vs + v.toInt?.getD 0 := by
  induction vs with
  | nil => simp [total]
  | cons w vs ih => simp [total, ih, Int.add_assoc]

/-- A sum that has not begun counts as zero. -/
theorem getD_total (taken : List Value) :
    (if taken.isEmpty then none else some (total taken)).getD 0 = total taken := by
  cases taken <;> rfl

/-- A column takes the integers of its type. -/
theorem integer_eq_ok_iff {n : Int} :
    o.integer v = .ok n ↔ v.type? = some o.type ∧ v.toInt? = some n := by
  unfold Operand.integer Operand.check
  by_cases h : v.type? = some o.type
  · cases hn : v.toInt? <;> simp [h, bind, Except.bind, pure, Except.pure]
  · simp [h, bind, Except.bind]

/-- What the state of an aggregate over a column says about the values that it has taken up. -/
inductive Summarises (o : Operand) (taken : List Value) : AggregateKind → Accumulator → Prop
  | count : Summarises o taken .count (values taken.length)
  | countDistinct {seen} (collects : Collects seen taken) :
      Summarises o taken .countDistinct (distinct seen)
  | sum (fits : fitsInt64 (total taken) = true) :
      Summarises o taken .sum (integerSum o (if taken.isEmpty then none else some (total taken)))
  | noMin (hnone : taken = []) : Summarises o taken .min (extreme o .lt none)
  | min {best} (leads : Leads .lt taken best) : Summarises o taken .min (extreme o .lt (some best))
  | noMax (hnone : taken = []) : Summarises o taken .max (extreme o .gt none)
  | max {best} (leads : Leads .gt taken best) : Summarises o taken .max (extreme o .gt (some best))

/-- A fresh accumulator has taken up nothing. -/
theorem summarises_fresh (column : String) {type : ColumnType}
    (hkind : kind ∈ [.count, .countDistinct, .min, .max] ∨ kind = .sum ∧ type.isInteger = true) :
    ∃ a, fresh kind column (some type) = .ok a ∧ Summarises ⟨column, type⟩ [] kind a := by
  rcases hkind with hkind | ⟨rfl, hinteger⟩
  · simp only [List.mem_cons, List.not_mem_nil, or_false] at hkind
    rcases hkind with rfl | rfl | rfl | rfl
    · exact ⟨_, rfl, .count⟩
    · exact ⟨_, rfl, .countDistinct collects_nil⟩
    · exact ⟨_, rfl, .noMin rfl⟩
    · exact ⟨_, rfl, .noMax rfl⟩
  · refine ⟨_, rfl, ?_⟩
    simp only [hinteger, if_true]
    exact .sum (by decide)

section Summarises

variable {taken : List Value}

/-- What is said about the values taken up so far is said about one more after an update. -/
theorem Summarises.add (h : Summarises o taken kind a) (hadd : Adds v a b) :
    Summarises o (taken ++ [v]) kind b := by
  cases h with
  | count =>
      cases hadd
      have hlength : taken.length + 1 = (taken ++ [v]).length := by simp
      rw [hlength]
      exact .count
  | countDistinct hcollects =>
      cases hadd
      exact .countDistinct (hcollects.append v)
  | sum _ =>
      cases hadd with
      | @integerSum _ _ n hn hfits =>
          have htotal : total (taken ++ [v]) = total taken + n := by
            rw [total_append, (integer_eq_ok_iff.mp hn).2]
            rfl
          rw [getD_total, ← htotal] at hfits ⊢
          have hadded := Summarises.sum (o := o) hfits
          simpa using hadded
  | noMin hnone =>
      subst hnone
      cases hadd
      exact .min (leads_singleton (by decide) v)
  | min hleads =>
      cases hadd
      exact .min (hleads.append (by decide) v)
  | noMax hnone =>
      subst hnone
      cases hadd
      exact .max (leads_singleton (by decide) v)
  | max hleads =>
      cases hadd
      exact .max (hleads.append (by decide) v)

/-- No rows are counted here. -/
theorem Summarises.isOverRows (h : Summarises o taken kind a) : a.isOverRows = false := by
  cases h <;> rfl

/-- After any offers the state speaks of the values that have been accepted. -/
theorem Summarises.after (h : Summarises o taken kind a) (vs : List Value) :
    Summarises o (taken ++ a.accepted vs) kind (a.after vs) := by
  induction vs generalizing a taken with
  | nil => simpa [accepted] using h
  | cons v vs ih =>
      rw [accepted, after_cons]
      split
      · rename_i hv
        rw [Bool.and_eq_true, Bool.not_eq_true'] at hv
        obtain ⟨hnull, haccepted⟩ := hv
        cases hupdate : a.update v with
        | error e => simp [offer_of_update_error hupdate, Except.isOk, Except.toBool] at haccepted
        | ok b =>
            have hpresent : v ≠ .null := by
              rintro rfl
              exact Bool.noConfusion hnull
            rw [offer_of_update hupdate]
            rw [update_eq_add hpresent] at hupdate
            have hnext := ih (h.add (adds_of_add hupdate))
            rwa [List.append_assoc] at hnext
      · rename_i hnot
        rw [offer_of_not_accepted h.isOverRows (Bool.eq_false_iff.mpr hnot)]
        exact ih h

/-- Values of the column's type can be taken up. -/
theorem Summarises.exists_add (h : Summarises o taken kind a) (hkind : kind ≠ .sum)
    (hv : v.type? = some o.type) : ∃ b, a.add v = .ok b := by
  cases h with
  | count => exact ⟨_, rfl⟩
  | countDistinct _ => exact ⟨_, rfl⟩
  | sum _ => exact absurd rfl hkind
  | noMin _ | min _ | noMax _ | max _ =>
      simp only [Accumulator.add, check_of_type hv]
      exact ⟨_, rfl⟩

/-- A pass over a column of the right type takes up all values that are not null. -/
theorem Summarises.exists_foldlM (h : Summarises o taken kind a) (hkind : kind ≠ .sum)
    (hvs : ∀ v ∈ vs, v = .null ∨ v.type? = some o.type) :
    ∃ b, vs.foldlM update a = .ok b ∧ Summarises o (taken ++ present vs) kind b := by
  induction vs generalizing a taken with
  | nil => exact ⟨a, rfl, by simpa using h⟩
  | cons v vs ih =>
      rw [List.forall_mem_cons] at hvs
      by_cases hnull : v = .null
      · subst hnull
        have hupdate : a.update .null = .ok a := by simp [update, h.isOverRows]
        obtain ⟨b, hb, hsummary⟩ := ih h hvs.2
        refine ⟨b, by rw [List.foldlM_cons, hupdate]; exact hb, ?_⟩
        rwa [present_cons_null]
      · obtain ⟨b, hadd⟩ := h.exists_add hkind (hvs.1.resolve_left hnull)
        have hupdate : a.update v = .ok b := (update_eq_add hnull a).trans hadd
        obtain ⟨c, hc, hsummary⟩ := ih (h.add (adds_of_add hadd)) hvs.2
        refine ⟨c, by rw [List.foldlM_cons, hupdate]; exact hc, ?_⟩
        rwa [present_cons hnull, List.append_cons]

/-- The result of a count or an extreme is what it is defined to be. -/
theorem Summarises.reports (h : Summarises o taken kind a) (hkind : kind ≠ .sum) :
    kind.Reports taken a.result := by
  cases h with
  | count => rfl
  | countDistinct hcollects => exact ⟨_, rfl, hcollects.size ▸ isGreatest_unlike taken⟩
  | sum _ => exact absurd rfl hkind
  | noMin hnone => exact hnone ▸ Extreme.none
  | noMax hnone => exact hnone ▸ Extreme.none
  | min hleads => exact .leads hleads
  | max hleads => exact .leads hleads

end Summarises

/-! ### Counts and extremes -/

/-- A pass over a column of the right type ends without an error, and a count or an extreme is then
what it is defined to be. -/
theorem exists_foldlM_fresh (hkind : kind ∈ [.count, .countDistinct, .min, .max]) (column : String)
    {type : ColumnType} (hvs : ∀ v ∈ vs, v = .null ∨ v.type? = some type) :
    ∃ a b, fresh kind column (some type) = .ok a ∧ vs.foldlM update a = .ok b ∧
      kind.Reports (present vs) b.result := by
  have hsum : kind ≠ .sum := by
    rintro rfl
    simp at hkind
  obtain ⟨a, hfresh, hsummary⟩ := summarises_fresh column (.inl hkind)
  obtain ⟨b, hpass, hsummary⟩ := hsummary.exists_foldlM hsum hvs
  exact ⟨a, b, hfresh, hpass, hsummary.reports hsum⟩

/-- A pass without an error leaves what is left by offering the values, none of which is refused. -/
theorem after_of_foldlM (h : vs.foldlM update a = .ok b) :
    a.after vs = b ∧ ∀ r ∈ a.reports vs, r.isOk = true := by
  induction vs generalizing a with
  | nil =>
      obtain rfl := pure_eq_ok_iff.mp h
      exact ⟨rfl, by simp [Accumulator.reports]⟩
  | cons v vs ih =>
      rw [List.foldlM_cons, bind_eq_ok_iff] at h
      obtain ⟨c, hupdate, h⟩ := h
      obtain ⟨hafter, hreports⟩ := ih h
      rw [after_cons, Accumulator.reports, offer_of_update hupdate]
      exact ⟨hafter, List.forall_mem_cons.mpr ⟨rfl, hreports⟩⟩

/-- A count is read back as what has been counted, as long as it is below 2 ^ 63. -/
theorem toInt?_countValue {n : Nat} (h : n < 2 ^ 63) : (countValue n).toInt? = some (n : Int) :=
  congrArg some (Int64.toInt_ofNat_of_lt h)

/-- **Counts and extremes are what they are defined to be.** Over a column of the type that an
accumulator has been made for, where null may stand too, no update is refused, and the result in the
end is the one defined for all values that are not null. In the order that decides what is best and
what is the same, a NaN is above all other numbers and the two zeros are one number. -/
theorem reports_of_typed {kind : AggregateKind}
    (hkind : kind ∈ [.count, .countDistinct, .min, .max]) (column : String) {type : ColumnType}
    {vs : List Value}
    (hvs : ∀ v ∈ vs, v = .null ∨ v.type? = some type) :
    (∃ a, fresh kind column (some type) = .ok a ∧ (∀ r ∈ a.reports vs, r.isOk = true) ∧
      kind.Reports (present vs) (a.after vs).result) ∧
      (∀ n < 2 ^ 63, (countValue n).toInt? = some (n : Int)) ∧
      NumberLaws .float32 order ∧ NumberLaws .float64 order := by
  obtain ⟨a, b, hfresh, hpass, hresult⟩ := exists_foldlM_fresh hkind column hvs
  obtain ⟨rfl, haccepted⟩ := after_of_foldlM hpass
  refine ⟨⟨a, hfresh, haccepted, hresult⟩, fun n hn => toInt?_countValue hn, ?_, ?_⟩
  · exact numberLaws_of_order fun _ _ => rfl
  · exact numberLaws_of_order fun _ _ => rfl

/-- Of two zeros the first is the least number, whatever its sign, and a NaN is above them. -/
theorem reports_of_typed_levels :
    ∃ a, fresh .min "level" (some .float64) = .ok a ∧
      (a.after [.null, .float64 .nan, .float64 ⟨0x8000000000000000⟩, .float64 ⟨0⟩]).result =
        .float64 ⟨0x8000000000000000⟩ ∧
      AggregateKind.min.Reports [.float64 .nan, .float64 ⟨0x8000000000000000⟩, .float64 ⟨0⟩]
        (.float64 ⟨0x8000000000000000⟩) := by
  obtain ⟨⟨a, hfresh, -, hreports⟩, -⟩ := @reports_of_typed .min (by decide)
    "level" .float64 [.null, .float64 .nan, .float64 ⟨0x8000000000000000⟩, .float64 ⟨0⟩]
    (by simp [Value.type?])
  cases hfresh
  exact ⟨_, rfl, by decide, hreports⟩

end Accumulator

end RelQuery
