import RelQuery.Proofs.Accumulator.Summary
import RelQuery.Proofs.Grouping.Run

/-!
# RelQuery.Proofs.Grouping.Permuted

**Counts and extremes of groups do not depend on the order of the rows.**

With another order the groups are found in another order, a group can get its key from another row,
and an extreme its value from another row: the key and the value are then the same, but need not be
equal. Three facts say that this is all. An aggregate reports what is defined by the values of its
column, whatever their order (`Reports`, `exists_accumulate`); groups whose keys are the same have
the same members up to their order (`Planned.exists_groupRow`); and the keys of both runs, of which
no two are the same, can be matched one to one (`exists_groupKeys_matching`).
-/

namespace RelQuery

/-- The same rows up to their order, and up to what is the same value. -/
def Row.Alike (rows rows' : List Row) : Prop :=
  ∃ reordered, rows'.Perm reordered ∧
    List.Forall₂ (fun r s : Row => Value.sameAll r.values s.values = true) rows reordered

namespace Grouping

open Value

variable {g : Grouping} {keyColumns : List (Column × Nat)} {outputs : List (Column × Option Nat)}
  {rows rows' : List Row} {a : Aggregate} {p : Column × Option Nat}

/-! ### One aggregate -/

/-- What an aggregate that reads this position is defined to be over some rows: a count of them if
it reads none, and else a count or an extreme of the cells that are not null. -/
def Reports (kind : AggregateKind) (rows : List Row) : Option Nat → Value → Prop
  | none, r => r = Accumulator.countValue rows.length
  | some i, r => kind.Reports (present (rows.map fun row => row.cell i)) r

theorem Reports.same_of_perm {kind : AggregateKind} {position : Option Nat} {r s : Value}
    (hr : Reports kind rows position r) (hs : Reports kind rows' position s)
    (hperm : rows.Perm rows') : r.same s = true := by
  cases position with
  | none =>
      obtain rfl := hr
      obtain rfl := hs
      rw [hperm.length_eq, same_refl]
  | some i => exact AggregateKind.Reports.same_of_perm hr hs ((hperm.map _).filter _)

/-- A count or an extreme does not fail over rows that conform to the input, and reports what it is
defined to be. -/
theorem exists_accumulate (hplan : planAggregate g.source a = .ok p)
    (hkind : a.kind ∈ [.countRows, .count, .countDistinct, .min, .max])
    (hrows : ∀ row ∈ rows, g.source.Holds row.values) :
    ∃ acc, g.accumulate rows (a, p.2) = .ok acc ∧ Reports a.kind rows p.2 acc.result := by
  rcases planAggregate_eq_ok hplan with ⟨hover, hp⟩ | ⟨hcolumn, i, c, hp, -, -, hc⟩
  · rw [hp]
    exact ⟨_, accumulate_over_rows hover rows, rfl⟩
  · have hkind : a.kind ∈ [.count, .countDistinct, .min, .max] := by
      refine (List.mem_cons.mp hkind).resolve_left fun hcountRows => ?_
      rw [hcountRows] at hcolumn
      exact Bool.noConfusion hcolumn
    obtain ⟨fresh, acc, hfresh, hpass, hreports⟩ :=
      Accumulator.exists_foldlM_fresh hkind (a.input.getD "*") (cells_typed hc hrows)
    rw [hp, accumulate_over_column hc, hfresh]
    exact ⟨acc, hpass, hreports⟩

/-! ### One group -/

namespace Planned

variable (h : g.Planned keyColumns outputs)
  (hkinds : ∀ a ∈ g.aggregates, a.kind ∈ [.countRows, .count, .countDistinct, .min, .max])

include h hkinds

/-- The aggregates of some rows and of the same rows in another order have the same results. -/
theorem exists_accumulators (hrows : ∀ row ∈ rows, g.source.Holds row.values)
    (hperm : rows.Perm rows') :
    ∃ block block', g.accumulators rows = .ok block ∧ g.accumulators rows' = .ok block' ∧
      sameAll (block.map Accumulator.result) (block'.map Accumulator.result) = true := by
  have hrows' : ∀ row ∈ rows', g.source.Holds row.values := fun row hrow =>
    hrows row (hperm.mem_iff.mpr hrow)
  have haggregates := h.aggregates
  rw [accumulators, accumulators, columns, h.inputPositions]
  generalize g.aggregates = aggregates at hkinds haggregates
  clear h
  induction haggregates with
  | nil => exact ⟨[], [], rfl, rfl, rfl⟩
  | cons hplan _ ih =>
      rw [List.forall_mem_cons] at hkinds
      obtain ⟨acc, hacc, hreports⟩ := exists_accumulate hplan hkinds.1 hrows
      obtain ⟨acc', hacc', hreports'⟩ := exists_accumulate hplan hkinds.1 hrows'
      obtain ⟨block, block', hblock, hblock', hsame⟩ := ih hkinds.2
      refine ⟨acc :: block, acc' :: block', ?_, ?_, ?_⟩
      · rw [List.map_cons, List.zip_cons_cons, List.mapM_cons, hacc, hblock]
        rfl
      · rw [List.map_cons, List.zip_cons_cons, List.mapM_cons, hacc', hblock']
        rfl
      · rw [List.map_cons, List.map_cons, sameAll, hsame, Bool.and_true]
        exact hreports.same_of_perm hreports' hperm

/-- Groups whose keys are the same have output rows that are. -/
theorem exists_groupRow (hrows : ∀ row ∈ rows, g.source.Holds row.values)
    (hperm : rows.Perm rows') {key key' : GroupKey} (hkey : (key == key') = true) :
    ∃ vs vs', g.groupRow rows key = .ok vs ∧ g.groupRow rows' key' = .ok vs' ∧
      sameAll vs vs' = true := by
  have hmembers : (g.members rows key).Perm (g.members rows' key') := by
    rw [members_congr hkey]
    exact hperm.filter _
  have hholds : ∀ row ∈ g.members rows key, g.source.Holds row.values := fun row hrow =>
    hrows row (mem_of_mem_members hrow)
  obtain ⟨block, block', hblock, hblock', hsame⟩ := h.exists_accumulators hkinds hholds hmembers
  refine ⟨_, _, ?_, ?_, sameAll_append hkey hsame⟩
  · rw [groupRow, hblock]
    rfl
  · rw [groupRow, hblock']
    rfl

/-- So a pass over rows that conform to the input does not fail. -/
theorem firstFailure_eq_none {earlier : List Row}
    (hrows : ∀ row ∈ earlier ++ rows, g.source.Holds row.values) :
    g.firstFailure earlier (rows.map .ok) = none := by
  induction rows generalizing earlier with
  | nil => rfl
  | cons row rows ih =>
      rw [List.append_cons] at hrows
      have hmembers : ∀ r ∈ g.members (earlier ++ [row]) (g.keyOf row), g.source.Holds r.values :=
        fun r hr => hrows r (List.mem_append_left rows (mem_of_mem_members hr))
      obtain ⟨block, -, hblock, -⟩ := h.exists_accumulators hkinds hmembers (List.Perm.refl _)
      have hfailure : g.failureAt earlier row = none := by rw [failureAt, hblock]
      rw [List.map_cons, firstFailure, hfailure]
      exact ih hrows

end Planned

/-! ### All groups -/

/-- The groups of some rows and of the same rows in another order have the same keys. -/
theorem exists_groupKeys_matching (hperm : rows.Perm rows') :
    ∃ matched, (g.groupKeys rows').Perm matched ∧
      List.Forall₂ (fun key key' => (key == key') = true) (g.groupKeys rows) matched := by
  unfold groupKeys
  rw [hperm.isEmpty_eq]
  split
  · exact ⟨[⟨[]⟩], List.Perm.refl _, List.Forall₂.cons rfl List.Forall₂.nil⟩
  · refine exists_perm_matching pairwise_keysOf pairwise_keysOf fun key => ?_
    rw [any_keysOf, any_keysOf, hperm.any_eq]

/-- **Grouping does not depend on the order of its input**, as long as rows are counted, or values
of a column, or its different values, or its least or greatest value is taken. Over rows that
conform to the input schema such a grouping succeeds, and over the same rows in any other order it
gives the same rows: in another order perhaps, and with values that are the same as the others
without having to be equal to them. -/
theorem run_alike_of_perm {source : Schema} {keys : List String} {aggregates : List Aggregate}
    (hplan : plan source keys aggregates = .ok g)
    (hkinds : ∀ a ∈ aggregates, a.kind ∈ [.countRows, .count, .countDistinct, .min, .max])
    (hrows : ∀ row ∈ rows, source.Holds row.values) (hperm : rows.Perm rows') :
    ∃ t t', g.run (rows.map .ok) = .ok t ∧ g.run (rows'.map .ok) = .ok t' ∧
      t.schema = t'.schema ∧ Row.Alike t.rows t'.rows := by
  rw [← aggregates_of_plan hplan] at hkinds
  obtain ⟨rfl, keyColumns, outputs, hplanned⟩ := plan_planned hplan
  have hrows' : ∀ row ∈ rows', g.source.Holds row.values := fun row hrow =>
    hrows row (hperm.mem_iff.mpr hrow)
  have hrun := @run_eq g _ _ hplanned (rows.map .ok) (by rwa [okRows_map_ok])
  have hrun' := @run_eq g _ _ hplanned (rows'.map .ok) (by rwa [okRows_map_ok])
  rw [hplanned.firstFailure_eq_none hkinds hrows, okRows_map_ok] at hrun
  rw [hplanned.firstFailure_eq_none hkinds hrows', okRows_map_ok] at hrun'
  obtain ⟨t, ht, hschema, hvalues⟩ := hrun
  obtain ⟨t', ht', hschema', hvalues'⟩ := hrun'
  refine ⟨t, t', ht, ht', hschema.trans hschema'.symm, ?_⟩
  rw [mapM_eq_ok_iff, List.forall₂_map_right_iff] at hvalues hvalues'
  obtain ⟨matched, hkeys, hmatched⟩ := exists_groupKeys_matching (g := g) hperm
  -- The rows of the second run, in the order of the keys that match those of the first.
  obtain ⟨reordered, hreordered, hrowsPerm⟩ := List.perm_comp_forall₂ hkeys.symm hvalues'
  refine ⟨reordered, hrowsPerm.symm, forall₂_of_matching ?_ hmatched hvalues hreordered⟩
  intro key key' r s hkey hr hs
  obtain ⟨vs, vs', hvs, hvs', hsame⟩ := hplanned.exists_groupRow hkinds hrows hperm hkey
  obtain rfl := Except.ok.inj (hr.symm.trans hvs)
  obtain rfl := Except.ok.inj (hs.symm.trans hvs')
  exact hsame

/-- The two zeros are one group under either of its keys, and the least of them is the first. -/
theorem run_alike_of_zeros :
    ∃ g t t',
      plan measurements ["level"] [.countRows, .ofColumn .countDistinct "weight",
        .ofColumn .min "level"] = .ok g ∧
      g.run [
        .ok ⟨measurements, [.float64 ⟨0x8000000000000000⟩, .int64 5], rfl⟩,
        .ok ⟨measurements, [.null, .int64 1], rfl⟩,
        .ok ⟨measurements, [.float64 ⟨0⟩, .int64 7], rfl⟩] = .ok t ∧
      t.rows.map Row.values = [
        [.float64 ⟨0x8000000000000000⟩, .int64 2, .int64 2, .float64 ⟨0x8000000000000000⟩],
        [.null, .int64 1, .int64 1, .null]] ∧
      g.run [
        .ok ⟨measurements, [.float64 ⟨0⟩, .int64 7], rfl⟩,
        .ok ⟨measurements, [.float64 ⟨0x8000000000000000⟩, .int64 5], rfl⟩,
        .ok ⟨measurements, [.null, .int64 1], rfl⟩] = .ok t' ∧
      t'.rows.map Row.values = [
        [.float64 ⟨0⟩, .int64 2, .int64 2, .float64 ⟨0⟩],
        [.null, .int64 1, .int64 1, .null]] ∧
      Row.Alike t.rows t'.rows := by
  obtain ⟨g, hplan⟩ : ∃ g, plan measurements ["level"] [.countRows,
      .ofColumn .countDistinct "weight", .ofColumn .min "level"] = .ok g := ⟨_, rfl⟩
  have hperm : List.Perm [
        ⟨measurements, [.float64 ⟨0x8000000000000000⟩, .int64 5], rfl⟩,
        ⟨measurements, [.null, .int64 1], rfl⟩,
        ⟨measurements, [.float64 ⟨0⟩, .int64 7], rfl⟩] [
        ⟨measurements, [.float64 ⟨0⟩, .int64 7], rfl⟩,
        ⟨measurements, [.float64 ⟨0x8000000000000000⟩, .int64 5], rfl⟩,
        (⟨measurements, [.null, .int64 1], rfl⟩ : Row)] :=
    @List.perm_append_comm _ [_, _] [_]
  have hrows : ∀ row ∈ ([
        ⟨measurements, [.float64 ⟨0x8000000000000000⟩, .int64 5], rfl⟩,
        ⟨measurements, [.null, .int64 1], rfl⟩,
        ⟨measurements, [.float64 ⟨0⟩, .int64 7], rfl⟩] : List Row),
      measurements.Holds row.values := by
    intro row hrow
    simp only [List.mem_cons, List.not_mem_nil, or_false] at hrow
    rcases hrow with rfl | rfl | rfl <;> exact (Row.checkAll_eq_ok_iff rfl).mp rfl
  obtain ⟨t, t', hrun, hrun', -, halike⟩ := run_alike_of_perm hplan (by decide) hrows hperm
  have hvalues := values_of_run hplan hrows hrun
  have hvalues' := values_of_run hplan (fun row hrow => hrows row (hperm.mem_iff.mpr hrow)) hrun'
  cases hplan
  -- The hash sets of the weights do not reduce; their sizes come from what they collect.
  have hnull := (collects_nil.append (.int64 1)).size
  have hzeros := ((collects_nil.append (.int64 5)).append (.int64 7)).size
  have hzeros' := ((collects_nil.append (.int64 7)).append (.int64 5)).size
  refine ⟨_, t, t', rfl, hrun, ?_, hrun', ?_, halike⟩
  · refine (Except.ok.inj hvalues).symm.trans ?_
    exact congrArg₂ (fun m n => ([
      [.float64 ⟨0x8000000000000000⟩, .int64 2, Accumulator.countValue m,
        .float64 ⟨0x8000000000000000⟩],
      [.null, .int64 1, Accumulator.countValue n, .null]] : List (List Value))) hzeros hnull
  · refine (Except.ok.inj hvalues').symm.trans ?_
    exact congrArg₂ (fun m n => ([
      [.float64 ⟨0⟩, .int64 2, Accumulator.countValue m, .float64 ⟨0⟩],
      [.null, .int64 1, Accumulator.countValue n, .null]] : List (List Value))) hzeros' hnull

end Grouping

end RelQuery
