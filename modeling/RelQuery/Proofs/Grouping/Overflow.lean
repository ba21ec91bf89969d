import RelQuery.Proofs.Accumulator.Sum
import RelQuery.Proofs.Grouping.Run

/-!
# RelQuery.Proofs.Grouping.Overflow

**All that can fail in a grouping is a sum.**

An accumulator that was planned for its column reads that column in every row that suits the input,
and a pass over such values fails only in a sum of integers, at the first row that takes the exact
total out of the range of 64 bits (`accumulate_error_iff`). `Grouping.Overflows` says of a grouping
and its input that this happens in one of its groups. Over rows that suit its input, a planned
grouping overflows or gives rows that suit its output, and never both (`exists_run`).
-/

namespace RelQuery

theorem Accumulator.integerSum_of_fresh {kind : AggregateKind} {column : String}
    {type : ColumnType} {o : Operand} {sum : Option Int}
    (h : fresh kind column (some type) = .ok (integerSum o sum)) :
    kind = .sum ∧ type.isInteger = true ∧ o = ⟨column, type⟩ ∧ sum = none := by
  unfold fresh at h
  cases kind <;> simp [AggregateKind.isOverRows] at h
  split at h
  · rename_i hinteger
    obtain ⟨rfl, rfl⟩ := Accumulator.integerSum.inj h
    exact ⟨rfl, hinteger, rfl, rfl⟩
  · simp at h

namespace Grouping

open Accumulator

/-- The aggregate sums up a column of integers that stands at this position. -/
structure SumsIntegers (source : Schema) (a : Aggregate) (column : String) (i : Nat) : Prop where
  kind : a.kind = .sum
  input : a.input = some column
  position : source.require column = .ok i
  /-- Other numbers are summed up in floating point. -/
  integers : ∃ c, source.columns[i]? = some c ∧ c.type.isInteger = true

/-- The total of a column of integers over some rows is out of the range of 64 bits. -/
def Exceeds (rows : List Row) (i : Nat) : Prop :=
  ¬(Int64.minValue.toInt ≤ total (rows.map fun row => row.cell i) ∧
    total (rows.map fun row => row.cell i) ≤ Int64.maxValue.toInt)

/-- A sum of integers over the column overflows in a pass over some rows: in one of the groups, its
total up to some row is out of range. -/
def Overflows (g : Grouping) (rows : List Row) (column : String) : Prop :=
  ∃ a ∈ g.aggregates, ∃ i, SumsIntegers g.source a column i ∧
    ∃ key first, first <+: rows ∧ Exceeds (g.members first key) i

variable {g : Grouping} {keyColumns : List (Column × Nat)} {outputs : List (Column × Option Nat)}
  {rows : List Row} {a : Aggregate} {p : Column × Option Nat} {e : Error}

/-! ### One aggregate -/

theorem exceeds_iff {i : Nat} :
    Exceeds rows i ↔ fitsInt64 (total (rows.map fun row => row.cell i)) = false := by
  rw [Exceeds, ← fitsInt64_iff, Bool.not_eq_true]

/-- A sum over a column of integers fails if its total up to some row is out of range, and only
then. -/
theorem foldlM_sum_error_iff {c : Column} {i : Nat} (hinteger : c.type.isInteger = true)
    (hcells : ∀ v ∈ rows.map fun row => row.cell i, v = .null ∨ v.type? = some c.type) :
    (rows.map fun row => row.cell i).foldlM update (integerSum ⟨c.name, c.type⟩ none) = .error e ↔
      e = .sumOverflow c.name ∧ ∃ first, first <+: rows ∧ Exceeds first i := by
  rw [foldlM_integerSum_error_iff hinteger hcells rfl]
  simp only [Option.getD_none, Int.zero_add]
  refine and_congr_right fun _ => ⟨?_, ?_⟩
  · rintro ⟨taken, htaken, hexceeds⟩
    obtain ⟨first, hfirst, rfl⟩ := List.prefix_map_iff.mp htaken
    exact ⟨first, hfirst, exceeds_iff.mpr hexceeds⟩
  · rintro ⟨first, hfirst, hexceeds⟩
    exact ⟨_, hfirst.map _, exceeds_iff.mp hexceeds⟩

/-- A planned aggregate has one column to sum up. -/
theorem SumsIntegers.position_eq {column : String} {i : Nat}
    (h : SumsIntegers g.source a column i) (hplan : planAggregate g.source a = .ok p) :
    p.2 = some i := by
  rcases planAggregate_eq_ok hplan with ⟨hover, -⟩ | ⟨-, j, c, hp, hname, hj, -⟩
  · rw [h.kind] at hover
    exact Bool.noConfusion hover
  · obtain rfl := Option.some.inj (hname.symm.trans h.input)
    rw [hp, Except.ok.inj (hj.symm.trans h.position)]

/-- A planned aggregate fails over rows that conform to the input if it is a sum of integers whose
total over the first of them, up to some row, is out of range. Nothing else makes it fail. -/
theorem accumulate_error_iff (hplan : planAggregate g.source a = .ok p)
    (hrows : ∀ row ∈ rows, g.source.Holds row.values) :
    g.accumulate rows (a, p.2) = .error e ↔
      ∃ column i, e = .sumOverflow column ∧ SumsIntegers g.source a column i ∧
        ∃ first, first <+: rows ∧ Exceeds first i := by
  rcases planAggregate_eq_ok hplan with ⟨hover, hp⟩ | ⟨-, i, c, hp, hname, hi, hc⟩
  · rw [hp, accumulate_over_rows hover]
    refine ⟨fun h => by simp at h, ?_⟩
    rintro ⟨_, _, -, hsum, -⟩
    rw [hsum.kind] at hover
    exact Bool.noConfusion hover
  · obtain ⟨fresh, hfresh⟩ := (fresh_of_planAggregate hplan c.name).1
    have htype := (type_of_planAggregate hplan).1
    rw [hp, Option.bind_some, Schema.column?, hc, Option.map_some] at hfresh htype
    have hcells := cells_typed hc hrows
    rw [hp, accumulate_over_column hc, hname, Option.getD_some, hfresh]
    show (rows.map fun row => row.cell i).foldlM update fresh = .error e ↔ _
    constructor
    · intro he
      obtain ⟨o, sum, rfl⟩ := foldlM_update_error (fresh_reads hfresh htype) hcells he
      obtain ⟨hkind, hinteger, rfl, rfl⟩ := integerSum_of_fresh hfresh
      obtain ⟨rfl, hexceeds⟩ := (foldlM_sum_error_iff hinteger hcells).mp he
      exact ⟨c.name, i, rfl, ⟨hkind, hname, hi, c, hc, hinteger⟩, hexceeds⟩
    · rintro ⟨column, j, rfl, hsum, hexceeds⟩
      obtain rfl := Option.some.inj (hname.symm.trans hsum.input)
      obtain rfl := Option.some.inj (hp.symm.trans (hsum.position_eq hplan))
      obtain ⟨c', hc', hinteger⟩ := hsum.integers
      obtain rfl := Option.some.inj (hc.symm.trans hc')
      rw [hsum.kind] at hfresh
      obtain rfl : integerSum ⟨c.name, c.type⟩ none = fresh := by
        simpa [Accumulator.fresh, AggregateKind.isOverRows, hinteger] using hfresh
      exact (foldlM_sum_error_iff hinteger hcells).mpr ⟨rfl, hexceeds⟩

/-! ### All aggregates -/

namespace Planned

/-- The columns of a planned grouping are its aggregates with the positions that were found. -/
theorem exists_of_mem_columns (h : g.Planned keyColumns outputs) {column : Aggregate × Option Nat}
    (hcolumn : column ∈ g.columns) :
    ∃ a ∈ g.aggregates, ∃ p, planAggregate g.source a = .ok p ∧ column = (a, p.2) := by
  rw [columns, h.inputPositions, List.zip_map_right] at hcolumn
  obtain ⟨⟨a, p⟩, hmem, rfl⟩ := List.mem_map.mp hcolumn
  exact ⟨a, (List.of_mem_zip hmem).1, p, (List.forall₂_iff_zip.mp h.aggregates).2 hmem, rfl⟩

theorem exists_mem_columns (h : g.Planned keyColumns outputs) (ha : a ∈ g.aggregates) :
    ∃ p, planAggregate g.source a = .ok p ∧ (a, p.2) ∈ g.columns := by
  rw [columns, h.inputPositions, List.zip_map_right]
  obtain ⟨n, hn, rfl⟩ := List.getElem_of_mem ha
  have hn' : n < outputs.length := List.Forall₂.length_eq h.aggregates ▸ hn
  refine ⟨outputs[n], List.Forall₂.get h.aggregates hn hn', List.mem_map.mpr
    ⟨(g.aggregates[n], outputs[n]), ?_, rfl⟩⟩
  rw [← List.getElem_zip (h := by simp [hn, hn'])]
  exact List.getElem_mem _

/-- The accumulators of the members of a group fail only if a sum over them overflows. -/
theorem overflows_of_accumulators (h : g.Planned keyColumns outputs)
    (hrows : ∀ row ∈ rows, g.source.Holds row.values) {key : GroupKey}
    (he : g.accumulators (g.members rows key) = .error e) :
    ∃ column, e = .sumOverflow column ∧ g.Overflows rows column := by
  obtain ⟨_, hmem, he⟩ := exists_of_mapM_eq_error he
  obtain ⟨a, ha, p, hplan, rfl⟩ := h.exists_of_mem_columns hmem
  obtain ⟨column, i, rfl, hsum, first, hfirst, hexceeds⟩ :=
    (accumulate_error_iff hplan fun row hrow => hrows row (mem_of_mem_members hrow)).mp he
  -- The first members of the group are the members among the first rows.
  obtain ⟨earlier, hearlier, rfl⟩ := List.prefix_filter_iff.mp hfirst
  exact ⟨column, rfl, a, ha, i, hsum, key, earlier, hearlier, hexceeds⟩

/-- The first failure of a pass over rows that conform to the input is the overflow of a sum. -/
theorem overflows_of_firstFailure (h : g.Planned keyColumns outputs)
    (hrows : ∀ row ∈ rows, g.source.Holds row.values)
    (he : g.firstFailure [] (rows.map .ok) = some e) :
    ∃ column, e = .sumOverflow column ∧ g.Overflows rows column := by
  obtain ⟨key, first, hfirst, he⟩ := exists_of_firstFailure he
  obtain ⟨column, rfl, a, ha, i, hsum, key, first', hfirst', hexceeds⟩ :=
    h.overflows_of_accumulators (fun row hrow => hrows row (hfirst.subset hrow)) he
  exact ⟨column, rfl, a, ha, i, hsum, key, first', hfirst'.trans hfirst, hexceeds⟩

/-- A pass without a failure has no sum that overflows. -/
theorem not_overflows_of_firstFailure (h : g.Planned keyColumns outputs)
    (hrows : ∀ row ∈ rows, g.source.Holds row.values)
    (hnone : g.firstFailure [] (rows.map .ok) = none) (column : String) :
    ¬g.Overflows rows column := by
  rintro ⟨a, ha, i, hsum, key, first, hfirst, hexceeds⟩
  obtain ⟨fresh, hfresh⟩ := h.ready.fresh
  obtain ⟨block, hblock⟩ := exists_accumulators_of_firstFailure
    (fun _ => ⟨fresh, accumulators_nil.trans hfresh⟩) hnone hfirst key
  obtain ⟨p, hplan, hmem⟩ := h.exists_mem_columns ha
  have hmembers : ∀ row ∈ g.members first key, g.source.Holds row.values := fun row hrow =>
    hrows row (hfirst.subset (mem_of_mem_members hrow))
  have he := (accumulate_error_iff hplan hmembers).mpr
    ⟨column, i, rfl, hsum, _, List.prefix_refl _, hexceeds⟩
  obtain ⟨acc, hacc⟩ := exists_ok_of_mapM hblock _ hmem
  rw [List.nil_append, he] at hacc
  simp at hacc

end Planned

/-- The rows of a run suit the output schema. -/
theorem suits_of_run {items : List Item} {t : Table} (h : g.run items = .ok t) :
    t.schema = g.schema ∧ ∀ row ∈ t.rows, row.Suits g.schema := by
  obtain ⟨arena, -, h⟩ := bind_eq_ok_iff.mp h
  obtain ⟨arena', -, h⟩ := bind_eq_ok_iff.mp h
  obtain ⟨rows, hrows, h⟩ := bind_eq_ok_iff.mp h
  refine ⟨Table.schema_of_ofRows h, ?_⟩
  rw [Table.rows_of_ofRows h]
  intro row hrow
  obtain ⟨p, -, hrow⟩ := exists_of_mem_mapM hrows hrow
  exact Row.suits_of_ofValues hrow

/-- **A planned grouping fails exactly if a sum of integers overflows**, over rows that suit its
input. Otherwise it gives rows that suit its output. -/
theorem exists_run {source : Schema} {keys : List String} {aggregates : List Aggregate}
    (hplan : plan source keys aggregates = .ok g) (hrows : ∀ row ∈ rows, row.Suits source) :
    (∃ column, g.run (rows.map .ok) = .error (.sumOverflow column) ∧ g.Overflows rows column) ∨
      ∃ t, g.run (rows.map .ok) = .ok t ∧ (∀ column, ¬g.Overflows rows column) ∧
        t.schema = g.schema ∧ ∀ row ∈ t.rows, row.Suits g.schema := by
  obtain ⟨rfl, keyColumns, outputs, hplanned⟩ := plan_planned hplan
  have hholds : ∀ row ∈ rows, g.source.Holds row.values := fun row hrow => (hrows row hrow).holds
  have hrun := @run_eq g _ _ hplanned (rows.map .ok) (by rwa [okRows_map_ok])
  cases hfailure : g.firstFailure [] (rows.map .ok) with
  | some e =>
      rw [hfailure] at hrun
      obtain ⟨column, rfl, hoverflows⟩ := hplanned.overflows_of_firstFailure hholds hfailure
      exact Or.inl ⟨column, hrun, hoverflows⟩
  | none =>
      rw [hfailure] at hrun
      obtain ⟨t, ht, -⟩ := hrun
      exact Or.inr
        ⟨t, ht, hplanned.not_overflows_of_firstFailure hholds hfailure, suits_of_run ht⟩

end Grouping

end RelQuery
