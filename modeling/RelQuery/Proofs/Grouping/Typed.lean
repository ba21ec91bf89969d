import RelQuery.Proofs.Accumulator.InPlace
import RelQuery.Proofs.Grouping.Run

/-!
# RelQuery.Proofs.Grouping.Typed

**Planned types are those of the results.**

`AggregateKind.outputType` and `Accumulator.fresh` look at the same aggregate and column for
different ends: the one says of what type the results are, the other makes what computes them. They
agree, and whatever the accumulator is offered afterwards, values that it refuses included, does not
change what it yields (`after_keeps`). So the results of a group have a place in the output row that
was planned for them (`Planned.exists_outputRow`).

They differ in one point. A count has a type over whatever column, also if none is given, but only
the count of rows does without one.
-/

namespace RelQuery

namespace Accumulator

variable {kind : AggregateKind} {column : String} {input : Option ColumnType} {type : ColumnType}
variable {a : Accumulator} {nullable : Bool}

/-! ### Fresh accumulators -/

/-- There is a fresh accumulator exactly if the column has a type or is not looked at. -/
theorem exists_fresh_iff : (∃ a, fresh kind column input = .ok a) ↔
    (input = none → kind.isOverRows = true) := by
  unfold fresh
  cases hrows : kind.isOverRows with
  | true => exact iff_of_true ⟨_, rfl⟩ fun _ => rfl
  | false =>
      cases input with
      | none => simp
      | some type => exact iff_of_true ⟨_, rfl⟩ fun h => nomatch h

/-! ### Any updates -/

/-- An offer keeps the types, whether it is taken or refused. -/
theorem offer_keeps (a : Accumulator) (v : Value) : Keeps a (a.offer v).2 := by
  cases hupdate : a.update v with
  | error e =>
      rw [offer_of_update_error hupdate]
      exact Keeps.refl a
  | ok b =>
      rw [offer_of_update hupdate]
      exact update_keeps hupdate

/-- So do any offers one after the other. -/
theorem after_keeps (a : Accumulator) (vs : List Value) : Keeps a (a.after vs) := by
  induction vs generalizing a with
  | nil => exact Keeps.refl a
  | cons v vs ih =>
      have hoffer := offer_keeps a v
      have hrest := ih (a.offer v).2
      exact ⟨fun h => hrest.yields (hoffer.yields h), fun h => hrest.reads (hoffer.reads h)⟩

/-- A result is of the type that is yielded, or null where that is allowed. -/
theorem type?_result (h : a.Yields type nullable) :
    a.result.type? = some type ∨ (a.result = .null ∧ nullable = true) := by
  have hholds := holds_result (c := ⟨"", type, nullable, .derived⟩) h
  exact (Column.holds_iff.mp hholds).symm

end Accumulator

namespace Grouping

variable {g : Grouping} {keyColumns : List (Column × Nat)} {outputs : List (Column × Option Nat)}

/-- What the accumulators of a group yield after any offers may stand in the columns planned for
them. -/
theorem Planned.holds_after (h : g.Planned keyColumns outputs) {fresh : List Accumulator}
    (hfresh : g.freshAccumulators = .ok fresh) {offered : List (List Value)}
    (hlength : offered.length = fresh.length) :
    List.Forall₂ Column.Holds (outputs.map Prod.fst)
      ((fresh.zipWith Accumulator.after offered).map Accumulator.result) := by
  have haggregates := h.aggregates
  rw [freshAccumulators, h.inputPositions, mapM_eq_ok_iff] at hfresh
  -- The induction is on the planned aggregates, with the columns that they plan. What else is known
  -- of the grouping would tie them to all of its columns.
  generalize g.aggregates = aggregates at haggregates hfresh
  clear h
  induction haggregates generalizing fresh offered with
  | nil =>
      cases hfresh
      exact .nil
  | cons hplan _ ih =>
      cases hfresh with
      | @cons _ a _ fresh ha hrest =>
          obtain ⟨vs, offered, rfl⟩ := List.exists_cons_of_length_eq_add_one hlength
          have hyields := (a.after_keeps vs).yields ((fresh_of_planAggregate hplan _).2 a ha)
          exact .cons (Accumulator.holds_result hyields) (ih (Nat.succ.inj hlength) hrest)

/-- The values of a key may stand in the grouping columns of the output. -/
def KeyFits (g : Grouping) (key : GroupKey) : Prop :=
  List.Forall₂ Column.Holds (g.schema.columns.take g.keys.length) key.values

/-- The grouping columns of the output come first. -/
theorem Planned.take_columns (h : g.Planned keyColumns outputs) :
    g.schema.columns.take g.keys.length = keyColumns.map Prod.fst := by
  rw [h.schema, List.take_left' (by rw [List.length_map, h.keys.length_eq])]

/-- The key of a row that conforms to the input fits. -/
theorem Planned.keyFits_keyOf (h : g.Planned keyColumns outputs) {row : Row}
    (hrow : g.source.Holds row.values) : g.KeyFits (g.keyOf row) := by
  rw [KeyFits, h.take_columns]
  exact h.holds_keyOf hrow

/-- The results of a group make a row of the planned schema, if its key fits. -/
theorem Planned.exists_outputRow (h : g.Planned keyColumns outputs) {fresh : List Accumulator}
    (hfresh : g.freshAccumulators = .ok fresh) {offered : List (List Value)}
    (hlength : offered.length = fresh.length) {arena : Arena} {n : Nat}
    (hslots : g.slotsOf arena n = fresh.zipWith Accumulator.after offered) {key : GroupKey}
    (hkey : g.KeyFits key) : ∃ row, g.outputRow arena key n = .ok row := by
  rw [KeyFits, h.take_columns] at hkey
  refine ⟨_, Row.ofValues_of_holds ?_⟩
  rw [Schema.Holds, h.schema, hslots]
  exact List.rel_append hkey (h.holds_after hfresh hlength)

/-- **Planned types are those of the results.** Let an aggregate have a type over a column. It has
an accumulator exactly if the column has a type or is not looked at, and after any values, those
that are refused included, the result is of that type, or null, and the latter not if it is a count.
So whatever the accumulators of a group of a planned grouping have been offered, their results make
an output row with every key that fits, and the key of a row that conforms to the input does. -/
theorem results_typed :
    (∀ kind column input type, AggregateKind.outputType kind input = .ok type →
      ((∃ a, Accumulator.fresh kind column input = .ok a) ↔
        (input = none → kind.isOverRows = true)) ∧
      ∀ a, Accumulator.fresh kind column input = .ok a → ∀ vs,
        (a.after vs).result.type? = some type ∨
          ((a.after vs).result = .null ∧ kind.isCount = false)) ∧
    ∀ source keys aggregates g, plan source keys aggregates = .ok g →
      ∃ fresh, g.freshAccumulators = .ok fresh ∧
        (∀ offered arena key n, offered.length = fresh.length →
          g.slotsOf arena n = fresh.zipWith Accumulator.after offered → g.KeyFits key →
          ∃ row, g.outputRow arena key n = .ok row) ∧
        ∀ row, source.Holds row.values → g.KeyFits (g.keyOf row) := by
  constructor
  · intro kind column input type htype
    refine ⟨Accumulator.exists_fresh_iff, fun a ha vs => ?_⟩
    have hyields := (a.after_keeps vs).yields (Accumulator.fresh_yields ha htype)
    simpa using Accumulator.type?_result hyields
  · intro source keys aggregates g hplan
    obtain ⟨rfl, keyColumns, outputs, hplanned⟩ := plan_planned hplan
    obtain ⟨fresh, hfresh⟩ := hplanned.ready.fresh
    exact ⟨fresh, hfresh,
      fun _ _ _ _ hlength hslots hkey => hplanned.exists_outputRow hfresh hlength hslots hkey,
      fun _ hrow => hplanned.keyFits_keyOf hrow⟩

/-- If there is one group, its accumulators are all there are. -/
theorem slotsOf_toArray {block : List Accumulator} (hlength : block.length = g.slotsPerGroup)
    (index : Std.HashMap GroupKey Nat) (keys : Array GroupKey) :
    g.slotsOf ⟨index, keys, block.toArray⟩ 0 = block := by
  rw [slotsOf, Nat.zero_mul, Nat.zero_add, Nat.one_mul, ← hlength]
  simp

/-- The level of the sea at the stations of a coast. -/
def tides : Schema :=
  ⟨"tides", [⟨"station", .text, false, .position 0⟩, ⟨"level", .int32, true, .position 1⟩]⟩

/-- How often a level was read at a station, and the sum and the highest of the levels. -/
def levelsRead : List Aggregate :=
  [.ofColumn .count "level", .ofColumn .sum "level", .ofColumn .max "level"]

/-- What they are offered at a station: some of the values are of another type or null. -/
def misread : List (List Value) :=
  [[.text "high", .null], [.text "high", .null], [.int32 4, .float64 .nan, .int32 7]]

/-- Whatever was read, there is a row for the station. -/
theorem results_typed_tides :
    (∀ vs, ∃ a, Accumulator.fresh .max "level" (some .int32) = .ok a ∧
      ((a.after vs).result.type? = some .int32 ∨ (a.after vs).result = .null)) ∧
    ∃ g fresh row, plan tides ["station"] levelsRead = .ok g ∧ g.freshAccumulators = .ok fresh ∧
      g.outputRow ⟨∅, #[⟨[.text "pier"]⟩], (fresh.zipWith Accumulator.after misread).toArray⟩
        ⟨[.text "pier"]⟩ 0 = .ok row := by
  obtain ⟨hkinds, hplans⟩ := results_typed
  constructor
  · intro vs
    obtain ⟨hfresh, hresult⟩ := hkinds .max "level" (some .int32) .int32 rfl
    obtain ⟨a, ha⟩ := hfresh.mpr (by simp)
    exact ⟨a, ha, (hresult a ha vs).imp_right And.left⟩
  · obtain ⟨fresh, hfresh, hrow, hkey⟩ := hplans tides ["station"] levelsRead _ rfl
    have hlength : misread.length = fresh.length := by
      cases hfresh
      rfl
    have hblock : (fresh.zipWith Accumulator.after misread).length = 3 := by
      rw [List.length_zipWith, ← hlength]
      rfl
    obtain ⟨row, hrow⟩ := hrow misread
      ⟨∅, #[⟨[.text "pier"]⟩], (fresh.zipWith Accumulator.after misread).toArray⟩
      ⟨[.text "pier"]⟩ 0 hlength (slotsOf_toArray hblock _ _)
      (hkey ⟨tides, [.text "pier", .null], rfl⟩ ((Row.checkAll_eq_ok_iff rfl).mp rfl))
    exact ⟨_, fresh, row, rfl, hfresh, hrow⟩

/-- A count of the values of a column has a type also if there is no column, but then there is
nothing that counts them. -/
theorem count_of_no_column : AggregateKind.count.outputType none = .ok .int64 ∧
    ¬∃ a, Accumulator.fresh .count "v" none = .ok a := by
  refine ⟨rfl, ?_⟩
  rintro ⟨a, ha⟩
  simp [Accumulator.fresh, AggregateKind.isOverRows] at ha

end Grouping

end RelQuery
