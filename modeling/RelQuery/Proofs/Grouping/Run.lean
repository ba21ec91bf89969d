import RelQuery.Proofs.Grouping.Arena

/-!
# RelQuery.Proofs.Grouping.Run

**A planned grouping computes its groups.**

`Grouping.Planned` records what planning has found out: where the grouping columns stand in the
input, and for each aggregate the position it reads and the type of its result. A planned grouping
can be run (`Planned.ready`), and the values of its output rows may stand in the output columns
(`Planned.holds_results`), so the run fails only where `Grouping.firstFailure` says
(`run_eq`).
-/

namespace RelQuery

namespace Grouping

/-- What planning has found out: the output columns with the positions they are read from. -/
structure Planned (g : Grouping) (keyColumns : List (Column × Nat))
    (outputs : List (Column × Option Nat)) : Prop where
  keys : List.Forall₂ (fun name p => planKey g.source name = .ok p) g.keys keyColumns
  aggregates : List.Forall₂ (fun a p => planAggregate g.source a = .ok p) g.aggregates outputs
  /-- The output columns are those of the keys, then those of the aggregates. -/
  schema : g.schema.columns = keyColumns.map Prod.fst ++ outputs.map Prod.fst
  /-- The key of a row is read at these positions. -/
  keyPositions : g.keyPositions = keyColumns.map Prod.snd
  /-- The aggregates read these positions. -/
  inputPositions : g.inputPositions = outputs.map Prod.snd

/-- A grouping that has been planned is one. -/
theorem plan_planned {source : Schema} {keys : List String} {aggregates : List Aggregate}
    {g : Grouping} (h : plan source keys aggregates = .ok g) :
    g.source = source ∧ ∃ keyColumns outputs, g.Planned keyColumns outputs := by
  unfold plan at h
  obtain ⟨keyColumns, hkeys, h⟩ := bind_eq_ok_iff.mp h
  obtain ⟨outputs, houtputs, h⟩ := bind_eq_ok_iff.mp h
  obtain ⟨schema, hschema, h⟩ := bind_eq_ok_iff.mp h
  obtain rfl := pure_eq_ok_iff.mp h
  refine ⟨rfl, keyColumns, outputs, mapM_eq_ok_iff.mp hkeys, mapM_eq_ok_iff.mp houtputs, ?_,
    rfl, rfl⟩
  rw [Schema.ofColumns_eq_ok hschema]

theorem aggregates_of_plan {source : Schema} {keys : List String} {aggregates : List Aggregate}
    (hplan : plan source keys aggregates = .ok g) : g.aggregates = aggregates := by
  obtain ⟨keyColumns, -, h⟩ := bind_eq_ok_iff.mp hplan
  obtain ⟨outputs, -, h⟩ := bind_eq_ok_iff.mp h
  obtain ⟨schema, -, h⟩ := bind_eq_ok_iff.mp h
  obtain rfl := pure_eq_ok_iff.mp h
  rfl

/-- The output columns of a planned grouping have different names. -/
theorem nodup_of_plan {source : Schema} {keys : List String} {aggregates : List Aggregate}
    (hplan : plan source keys aggregates = .ok g) : g.schema.names.Nodup := by
  obtain ⟨keyColumns, -, h⟩ := bind_eq_ok_iff.mp hplan
  obtain ⟨outputs, -, h⟩ := bind_eq_ok_iff.mp h
  obtain ⟨schema, hschema, h⟩ := bind_eq_ok_iff.mp h
  obtain rfl := pure_eq_ok_iff.mp h
  exact Schema.nodup_of_ofColumns hschema

/-! ### Aggregates -/

variable {source : Schema} {a : Aggregate} {p : Column × Option Nat}

/-- What is found for the input of an aggregate: nothing if it is over rows, and otherwise the
position of the column it names, with the type there. -/
theorem planInput_eq_ok {input : Option (Nat × ColumnType)}
    (h : planInput source a = .ok input) :
    a.kind.isOverRows = true ∧ input = none ∨
      a.kind.isOverRows = false ∧ ∃ i c, input = some (i, c.type) ∧ a.input = some c.name ∧
        source.require c.name = .ok i ∧ source.columns[i]? = some c := by
  unfold planInput at h
  split at h
  · rename_i hrows
    exact .inl ⟨hrows, (Except.ok.inj h).symm⟩
  · rename_i hcolumn
    split at h
    · simp at h
    · rename_i name hname
      obtain ⟨i, hi, h⟩ := bind_eq_ok_iff.mp h
      obtain ⟨c, hc, h⟩ := bind_eq_ok_iff.mp h
      obtain rfl := pure_eq_ok_iff.mp h
      obtain ⟨hcolumns, rfl⟩ := Schema.column_of_require hi hc
      exact .inr ⟨Bool.eq_false_iff.mpr hcolumn, i, c, rfl, hname, hi, hcolumns⟩

/-- An aggregate is planned over rows without a position, or over a column with its position. -/
theorem planAggregate_eq_ok (h : planAggregate source a = .ok p) :
    a.kind.isOverRows = true ∧ p.2 = none ∨
      a.kind.isOverRows = false ∧ ∃ i c, p.2 = some i ∧ a.input = some c.name ∧
        source.require c.name = .ok i ∧ source.columns[i]? = some c := by
  obtain ⟨input, hinput, h⟩ := bind_eq_ok_iff.mp h
  obtain ⟨type, -, h⟩ := bind_eq_ok_iff.mp h
  obtain rfl := pure_eq_ok_iff.mp h
  obtain ⟨hrows, rfl⟩ | ⟨hcolumn, i, c, rfl, hread⟩ := planInput_eq_ok hinput
  · exact .inl ⟨hrows, rfl⟩
  · exact .inr ⟨hcolumn, i, c, rfl, hread⟩

/-- The column of an aggregate has the type of its results over the column it reads. -/
theorem type_of_planAggregate (h : planAggregate source a = .ok p) :
    a.kind.outputType ((p.2.bind source.column?).map Column.type) = .ok p.1.type ∧
      p.1.nullable = !a.kind.isCount := by
  obtain ⟨input, hinput, h⟩ := bind_eq_ok_iff.mp h
  obtain ⟨type, htype, h⟩ := bind_eq_ok_iff.mp h
  obtain rfl := pure_eq_ok_iff.mp h
  refine ⟨?_, rfl⟩
  obtain ⟨-, rfl⟩ | ⟨-, i, c, rfl, -, -, hc⟩ := planInput_eq_ok hinput
  · exact htype
  · simpa [Schema.column?, hc] using htype

/-- An aggregate over rows counts them. -/
theorem accumulate_over_rows {g : Grouping} (hover : a.kind.isOverRows = true) (rows : List Row) :
    g.accumulate rows (a, none) = .ok (.rows rows.length) := by
  have hfresh : Accumulator.fresh a.kind (a.input.getD "*") none = .ok (.rows 0) := if_pos hover
  have hpass := Accumulator.foldlM_feed_rows none rows 0
  rw [Nat.zero_add] at hpass
  rw [accumulate, Option.bind_none, Option.map_none, hfresh]
  exact hpass

/-- Another aggregate is fresh for the type of its column, and passes over the cells there. -/
theorem accumulate_over_column {g : Grouping} {i : Nat} {c : Column}
    (hc : g.source.columns[i]? = some c) (rows : List Row) :
    g.accumulate rows (a, some i) =
      (Accumulator.fresh a.kind (a.input.getD "*") (some c.type) >>= fun acc =>
        (rows.map fun row => row.cell i).foldlM Accumulator.update acc) := by
  unfold accumulate
  simp only [Option.bind_some, Schema.column?, hc, Option.map_some, Accumulator.foldlM_feed_some]

/-- The cells of a column hold its type or null. -/
theorem cells_typed {i : Nat} {c : Column} (hc : source.columns[i]? = some c) {rows : List Row}
    (hrows : ∀ row ∈ rows, source.Holds row.values) :
    ∀ v ∈ rows.map fun row => row.cell i, v = .null ∨ v.type? = some c.type := by
  intro v hv
  obtain ⟨row, hrow, rfl⟩ := List.mem_map.mp hv
  exact (Column.holds_iff.mp ((hrows row hrow).cell hc)).imp_left And.left

/-- A planned aggregate has a fresh accumulator, and any that it has yields the planned type. -/
theorem fresh_of_planAggregate (h : planAggregate source a = .ok p) (column : String) :
    (∃ fresh, Accumulator.fresh a.kind column ((p.2.bind source.column?).map Column.type) =
        .ok fresh) ∧
      ∀ fresh, Accumulator.fresh a.kind column ((p.2.bind source.column?).map Column.type) =
        .ok fresh → fresh.Yields p.1.type p.1.nullable := by
  obtain ⟨htype, hnullable⟩ := type_of_planAggregate h
  refine ⟨?_, fun fresh hfresh => hnullable ▸ Accumulator.fresh_yields hfresh htype⟩
  unfold Accumulator.fresh
  obtain ⟨hrows, -⟩ | ⟨hcolumn, i, c, hp, -, -, hc⟩ := planAggregate_eq_ok h
  · exact ⟨_, if_pos hrows⟩
  · rw [hp, Option.bind_some, Schema.column?, hc]
    exact ⟨_, if_neg (Bool.eq_false_iff.mp hcolumn)⟩

theorem accumulate_yields {g : Grouping} {rows : List Row} {acc : Accumulator}
    (h : planAggregate g.source a = .ok p) (hacc : g.accumulate rows (a, p.2) = .ok acc) :
    acc.Yields p.1.type p.1.nullable := by
  unfold accumulate at hacc
  obtain ⟨fresh, hfresh, hacc⟩ := bind_eq_ok_iff.mp hacc
  exact (Accumulator.foldlM_feed_keeps hacc).yields
    ((fresh_of_planAggregate h _).2 fresh hfresh)

namespace Planned

variable {g : Grouping} {keyColumns : List (Column × Nat)} {outputs : List (Column × Option Nat)}

/-- A planned grouping can be run. -/
theorem ready (h : g.Planned keyColumns outputs) : g.Ready where
  positions := by
    rw [h.inputPositions, List.length_map, List.Forall₂.length_eq h.aggregates]
  fresh := by
    unfold freshAccumulators
    rw [h.inputPositions, List.zip_map_right]
    refine exists_mapM_eq_ok fun x hx => ?_
    obtain ⟨⟨a, p⟩, hmem, rfl⟩ := List.mem_map.mp hx
    exact (fresh_of_planAggregate ((List.forall₂_iff_zip.mp h.aggregates).2 hmem) _).1

/-- The results of the aggregates may stand in the columns planned for them. -/
theorem holds_results (h : g.Planned keyColumns outputs) {rows : List Row}
    {block : List Accumulator} (hblock : g.accumulators rows = .ok block) :
    List.Forall₂ Column.Holds (outputs.map Prod.fst) (block.map Accumulator.result) := by
  have hcolumns : g.columns = g.aggregates.zip (outputs.map Prod.snd) := by
    rw [columns, h.inputPositions]
  have haggregates := h.aggregates
  rw [accumulators, hcolumns, mapM_eq_ok_iff] at hblock
  generalize g.aggregates = aggregates at haggregates hblock
  clear h hcolumns
  induction haggregates generalizing block with
  | nil =>
      cases hblock
      exact List.Forall₂.nil
  | cons hplan _ ih =>
      cases hblock with
      | cons hacc hrest =>
          have hresult := Accumulator.holds_result (accumulate_yields hplan hacc)
          exact List.Forall₂.cons hresult (ih hrest)

/-- The key of a row that conforms to the input may stand in the grouping columns. -/
theorem holds_keyOf (h : g.Planned keyColumns outputs) {row : Row}
    (hrow : g.source.Holds row.values) :
    List.Forall₂ Column.Holds (keyColumns.map Prod.fst) (g.keyOf row).values := by
  have hkeys := h.keys
  simp only [keyOf, Row.pick, h.keyPositions]
  generalize g.keys = keys at hkeys
  clear h
  induction hkeys with
  | nil => exact List.Forall₂.nil
  | cons hkey _ ih =>
      unfold planKey at hkey
      obtain ⟨i, hi, hkey⟩ := bind_eq_ok_iff.mp hkey
      obtain ⟨c, hc, hkey⟩ := bind_eq_ok_iff.mp hkey
      obtain rfl := pure_eq_ok_iff.mp hkey
      have hcell := Column.holds_iff.mp (hrow.cell (Schema.column_of_require hi hc).1)
      exact List.Forall₂.cons (Column.holds_iff.mpr hcell) ih

/-- So may the key of a group. -/
theorem holds_groupKeys (h : g.Planned keyColumns outputs) {rows : List Row}
    (hrows : ∀ row ∈ rows, g.source.Holds row.values) {key : GroupKey}
    (hkey : key ∈ g.groupKeys rows) :
    List.Forall₂ Column.Holds (keyColumns.map Prod.fst) key.values := by
  unfold groupKeys at hkey
  split at hkey
  · rename_i hempty
    obtain rfl := List.mem_singleton.mp hkey
    have hnil : g.keys = [] := by simp_all
    have hkeys := h.keys
    rw [hnil, List.forall₂_nil_left_iff] at hkeys
    rw [hkeys]
    exact List.Forall₂.nil
  · obtain ⟨row, hrow, rfl⟩ := List.mem_map.mp (mem_of_mem_eraseDups hkey)
    exact h.holds_keyOf (hrows row hrow)

end Planned

/-! ### The output -/

variable {g : Grouping} {rows : List Row} {arena : Arena} {keys : List GroupKey}

/-- After the pass the groups are those of the keys, the global group included. -/
theorem withGlobalGroup_tracks (hready : g.Ready) (h : arena.Tracks g rows (g.keysOf rows)) :
    ∃ arena', g.withGlobalGroup arena = .ok arena' ∧
      arena'.Tracks g rows (g.groupKeys rows) := by
  have hkeys : arena.keys.isEmpty = rows.isEmpty := by
    rw [← Array.isEmpty_toList, h.keys_eq]
    cases rows <;> simp [keysOf, List.eraseDups_cons]
  unfold withGlobalGroup groupKeys
  rw [hkeys, Bool.and_comm]
  split
  · rename_i hempty
    obtain rfl : rows = [] := by simp_all
    obtain ⟨fresh, hfresh⟩ := hready.fresh
    exact openGroup_tracks h rfl rfl hfresh
  · exact ⟨arena, rfl, h⟩

/-- The slots of a group are its block. -/
theorem slotsOf_eq (hready : g.Ready) (h : arena.Tracks g rows keys) {n : Nat} {key : GroupKey}
    (hn : keys[n]? = some key) :
    g.accumulators (g.members rows key) = .ok (g.slotsOf arena n) := by
  obtain ⟨blocks, hslots, hblocks⟩ := h.slots
  have hlength := List.Forall₂.length_eq hblocks
  obtain ⟨hlt, rfl⟩ := List.getElem?_eq_some_iff.mp hn
  have hlt' : n < blocks.length := hlength ▸ hlt
  have hwidth := hready.width_of_blocks hblocks
  have hbefore := length_flatten_take hwidth (Nat.le_of_lt hlt')
  have hblock : blocks[n].length = g.slotsPerGroup := hwidth _ (List.getElem_mem hlt')
  refine (List.Forall₂.get hblocks hlt hlt').trans (congrArg Except.ok ?_)
  rw [slotsOf, Array.toList_extract, hslots, List.extract_eq_take_drop,
    flatten_eq_of_getElem? (List.getElem?_eq_getElem hlt'), List.append_assoc,
    List.drop_append_of_le_length (Nat.le_of_eq hbefore.symm),
    List.drop_eq_nil_of_le (Nat.le_of_eq hbefore), List.nil_append, Nat.succ_mul,
    Nat.add_sub_cancel_left, List.take_append_of_le_length (Nat.le_of_eq hblock.symm),
    List.take_of_length_le (Nat.le_of_eq hblock)]
  rfl

/-- The output row of a group has the values that are due for it. -/
theorem outputRow_eq {keyColumns : List (Column × Nat)} {outputs : List (Column × Option Nat)}
    (hplanned : g.Planned keyColumns outputs)
    (hrows : ∀ row ∈ rows, g.source.Holds row.values)
    (h : arena.Tracks g rows (g.groupKeys rows)) {n : Nat} {key : GroupKey}
    (hn : (g.groupKeys rows)[n]? = some key) :
    ∃ out, g.outputRow arena key n = .ok out ∧ g.groupRow rows key = .ok out.values ∧
      out.schema = g.schema := by
  have hslots := slotsOf_eq hplanned.ready h hn
  have hkey := hplanned.holds_groupKeys hrows (List.mem_of_getElem? hn)
  have hholds : g.schema.Holds (key.values ++ (g.slotsOf arena n).map Accumulator.result) := by
    unfold Schema.Holds
    rw [hplanned.schema]
    exact List.rel_append hkey (hplanned.holds_results hslots)
  refine ⟨_, Row.ofValues_of_holds hholds, ?_, rfl⟩
  unfold groupRow
  rw [hslots]
  rfl

/-- The run of a planned grouping over rows that conform to its input: it fails with the first
failure, and otherwise its rows are those of the groups. -/
theorem run_eq {keyColumns : List (Column × Nat)} {outputs : List (Column × Option Nat)}
    (hplanned : g.Planned keyColumns outputs) {items : List Item}
    (hrows : ∀ row ∈ okRows items, g.source.Holds row.values) :
    match g.firstFailure [] items with
    | some e => g.run items = .error e
    | none => ∃ t, g.run items = .ok t ∧ t.schema = g.schema ∧
        (g.groupKeys (okRows items)).mapM (g.groupRow (okRows items)) =
          .ok (t.rows.map Row.values) := by
  have hitems := addItems_tracks hplanned.ready items (tracks_empty g)
  unfold run
  cases hfailure : g.firstFailure [] items with
  | some e =>
      simp only [hfailure] at hitems
      simp only [hitems]
      rfl
  | none =>
      simp only [hfailure, List.nil_append] at hitems
      obtain ⟨arena, hadd, htracks⟩ := hitems
      obtain ⟨arena', hglobal, htracks'⟩ := withGlobalGroup_tracks hplanned.ready htracks
      have houtput : ∀ p ∈ (g.groupKeys (okRows items)).zipIdx,
          ∃ out, g.outputRow arena' p.1 p.2 = .ok out ∧
            g.groupRow (okRows items) p.1 = .ok out.values ∧ out.schema = g.schema :=
        fun p hp => outputRow_eq hplanned hrows htracks' (List.mem_zipIdx_iff_getElem?.mp hp)
      obtain ⟨out, hout, hgroups, hschema⟩ := exists_mapM_eq_ok_map houtput
      have hfit : ∀ row ∈ out, row.schema.fits g.schema = true := fun row hrow => by
        rw [hschema row hrow]
        exact Schema.fits_refl _
      refine ⟨⟨g.schema, out, hfit⟩, ?_, rfl, ?_⟩
      · simp only [hadd, hglobal, htracks'.keys_eq, bind, Except.bind]
        rw [hout]
        exact Table.ofRows_of_fit hfit
      · rw [← List.zipIdx_map_fst 0 (g.groupKeys (okRows items)), List.mapM_map]
        exact hgroups

/-- The rows of a run that succeeds are those of the groups. -/
theorem values_of_run {source : Schema} {keys : List String} {aggregates : List Aggregate}
    (hplan : plan source keys aggregates = .ok g) (hrows : ∀ row ∈ rows, source.Holds row.values)
    {t : Table} (hrun : g.run (rows.map .ok) = .ok t) :
    (g.groupKeys rows).mapM (g.groupRow rows) = .ok (t.rows.map Row.values) := by
  obtain ⟨rfl, keyColumns, outputs, hplanned⟩ := plan_planned hplan
  have hgroups := @run_eq g _ _ hplanned (rows.map .ok) (by rwa [okRows_map_ok])
  rw [hrun, okRows_map_ok] at hgroups
  split at hgroups
  · simp at hgroups
  · obtain ⟨_, ht, -, hvalues⟩ := hgroups
    obtain rfl := Except.ok.inj ht
    exact hvalues

/-- **Grouping computes the groups of its input.** Over rows that conform to the input schema, a
planned grouping fails with the first failure of the pass, if there is one; otherwise it gives a
table with one row for each key in the order of first occurrences: the key, then the results of the
aggregates over the rows of the group. -/
theorem run_groups {source : Schema} {keys : List String} {aggregates : List Aggregate}
    {g : Grouping} (hplan : plan source keys aggregates = .ok g) {items : List Item}
    (hrows : ∀ row, .ok row ∈ items → source.Holds row.values) :
    (∀ e, g.firstFailure [] items = some e → g.run items = .error e) ∧
      (g.firstFailure [] items = none → ∃ t, g.run items = .ok t ∧ t.schema = g.schema ∧
        (g.groupKeys (okRows items)).mapM (g.groupRow (okRows items)) =
          .ok (t.rows.map Row.values)) := by
  obtain ⟨rfl, keyColumns, outputs, hplanned⟩ := plan_planned hplan
  have hrun := run_eq hplanned fun row hrow => hrows row (mem_okRows.mp hrow)
  constructor
  · intro e hfailure
    rw [hfailure] at hrun
    exact hrun
  · intro hfailure
    rw [hfailure] at hrun
    exact hrun

/-- A nullable column to group by and a column to add up. -/
def measurements : Schema :=
  ⟨"measurements", [⟨"level", .float64, true, .position 0⟩, ⟨"weight", .int64, false, .position 1⟩]⟩

/-- The two zeros are one group, which keeps the key of its first row; null is another. -/
theorem run_groups_of_zeros :
    ∃ g t, plan measurements ["level"] [.countRows, .ofColumn .sum "weight"] = .ok g ∧
      g.run [
        .ok ⟨measurements, [.float64 ⟨0x8000000000000000⟩, .int64 5], rfl⟩,
        .ok ⟨measurements, [.null, .int64 1], rfl⟩,
        .ok ⟨measurements, [.float64 ⟨0⟩, .int64 7], rfl⟩] = .ok t ∧
      t.rows.map Row.values = [
        [.float64 ⟨0x8000000000000000⟩, .int64 2, .int64 12],
        [.null, .int64 1, .int64 1]] := by
  obtain ⟨g, hplan⟩ : ∃ g, plan measurements ["level"] [.countRows, .ofColumn .sum "weight"] =
      .ok g := ⟨_, rfl⟩
  have hrows : ∀ row : Row, Except.ok row ∈ ([
        .ok ⟨measurements, [.float64 ⟨0x8000000000000000⟩, .int64 5], rfl⟩,
        .ok ⟨measurements, [.null, .int64 1], rfl⟩,
        .ok ⟨measurements, [.float64 ⟨0⟩, .int64 7], rfl⟩] : List Item) →
      measurements.Holds row.values := by
    intro row hrow
    simp only [List.mem_cons, Except.ok.injEq, List.not_mem_nil, or_false] at hrow
    rcases hrow with rfl | rfl | rfl <;> exact (Row.checkAll_eq_ok_iff rfl).mp rfl
  obtain ⟨t, hrun, -, hvalues⟩ := (run_groups hplan hrows).2 (by cases hplan; rfl)
  refine ⟨g, t, hplan, hrun, ?_⟩
  cases hplan
  exact (Except.ok.inj hvalues).symm

end Grouping

end RelQuery
