import RelQuery.Accumulator
import RelQuery.Relation
import Std.Data.HashMap

/-!
# RelQuery.Algebra.Grouping

Grouping: rows that agree in the grouping columns become one row of aggregates.

`Grouping.plan` checks the columns and finds the positions they are read from; `Grouping.run` is the
evaluation, a fold over what a pass over the input yields. Its state is an `Arena`: groups are
numbered in the order in which their keys first occur, a hash map finds the number of a key, and the
accumulators of all groups stand one behind the other in a single array. Keys are compared as tuples
of values (`Value.sameAll`), and a group keeps the key of its first row. Without grouping columns
there is exactly one group, even if there are no rows.
-/

namespace RelQuery

/-- A planned grouping. -/
structure Grouping where
  keys : List String
  aggregates : List Aggregate
  source : Schema
  /-- What the output rows look like: the grouping columns, then the aggregates. -/
  schema : Schema
  /-- The input positions of the grouping columns. -/
  keyPositions : List Nat
  /-- The input position that each aggregate reads; none for an aggregate over rows. -/
  inputPositions : List (Option Nat)

/-- The values of the grouping columns in a row. Two keys are equal if their values are the same,
position by position. -/
structure GroupKey where
  /-- The values in the order of the grouping columns. -/
  values : List Value
deriving Repr, Inhabited

instance : BEq GroupKey := ⟨fun a b => Value.sameAll a.values b.values⟩

instance : Hashable GroupKey := ⟨fun k => hash (k.values.map Value.hashInput)⟩

/-- The groups of the rows seen so far. -/
structure Arena where
  /-- The number of the group of a key. -/
  index : Std.HashMap GroupKey Nat
  /-- The key of each group, as it stood in the group's first row. -/
  keys : Array GroupKey
  /-- The accumulators: one for each aggregate of group zero, then those of the next group. -/
  slots : Array Accumulator

/-- The arena before the first row. -/
def Arena.empty : Arena := ⟨∅, #[], #[]⟩

namespace Grouping

/-- The output column of a grouping column, and the position it is read from. -/
def planKey (source : Schema) (name : String) : Except Error (Column × Nat) := do
  let i ← source.require name
  let c ← source.columnNamed name
  return (Column.ofName name c.type c.nullable, i)

/-- Finds the input column of an aggregate: its position and type. -/
def planInput (source : Schema) (a : Aggregate) : Except Error (Option (Nat × ColumnType)) :=
  if a.kind.isOverRows then .ok none
  else
    match a.input with
    | none => .error (.missingInput a.output)
    | some name => do
      let i ← source.require name
      let c ← source.columnNamed name
      return some (i, c.type)

/-- The output column of an aggregate and the position it reads. -/
def planAggregate (source : Schema) (a : Aggregate) : Except Error (Column × Option Nat) := do
  let input ← planInput source a
  let type ← a.kind.outputType (input.map Prod.snd)
  return (⟨a.output, type, !a.kind.isCount, .derived⟩, input.map Prod.fst)

/-- A grouping of the rows of a schema, whose columns are the keys and then the aggregates. -/
def plan (source : Schema) (keys : List String) (aggregates : List Aggregate) :
    Except Error Grouping := do
  let keyColumns ← keys.mapM (planKey source)
  let outputs ← aggregates.mapM (planAggregate source)
  let schema ← Schema.ofColumns source.name (keyColumns.map Prod.fst ++ outputs.map Prod.fst)
  return {
    keys, aggregates, source, schema
    keyPositions := keyColumns.map Prod.snd
    inputPositions := outputs.map Prod.snd }

/-- A fresh accumulator for each aggregate, whose column has the type it has in the input. -/
def freshAccumulators (g : Grouping) : Except Error (List Accumulator) :=
  (g.aggregates.zip g.inputPositions).mapM fun (a, position) =>
    Accumulator.fresh a.kind (a.input.getD "*")
      ((position.bind g.source.column?).map Column.type)

/-- The number of aggregates, which is the number of slots of a group. -/
def slotsPerGroup (g : Grouping) : Nat :=
  g.aggregates.length

/-- The key of the group that a row belongs to. -/
def keyOf (g : Grouping) (row : Row) : GroupKey :=
  ⟨row.pick g.keyPositions⟩

/-- Opens a group at the end of an arena, with fresh accumulators. -/
def openGroup (g : Grouping) (arena : Arena) (key : GroupKey) : Except Error Arena := do
  let fresh ← g.freshAccumulators
  return {
    index := arena.index.insert key arena.keys.size
    keys := arena.keys.push key
    slots := arena.slots ++ fresh }

/-- The number of the group of a key, which is opened if the key is new. -/
def groupFor (g : Grouping) (arena : Arena) (key : GroupKey) : Except Error (Nat × Arena) :=
  match arena.index[key]? with
  | some n => .ok (n, arena)
  | none => do return (arena.keys.size, ← g.openGroup arena key)

/-- Feeds a row to the accumulators from a slot on, one for each input position. -/
def feedSlots (row : Row) (slot : Nat) :
    List (Option Nat) → Array Accumulator → Except Error (Array Accumulator)
  | [], slots => .ok slots
  | position :: positions, slots =>
    match slots[slot]? with
    | none => .ok slots
    | some a => do
      let a ← a.feed position row
      feedSlots row (slot + 1) positions (slots.setIfInBounds slot a)

/-- The arena after a row, which has gone to the accumulators of its group. -/
def addRow (g : Grouping) (arena : Arena) (row : Row) : Except Error Arena := do
  let (n, arena) ← g.groupFor arena (g.keyOf row)
  let slots ← feedSlots row (n * g.slotsPerGroup) g.inputPositions arena.slots
  return { arena with slots }

/-- The arena after what a pass over the input yields, up to the first error: an item of the input
that is one, or an update that fails. -/
def addItems (g : Grouping) (arena : Arena) : List Item → Except Error Arena
  | [] => .ok arena
  | .error e :: _ => .error e
  | .ok row :: items => do g.addItems (← g.addRow arena row) items

/-- Opens the one group there is without grouping columns, if no row has done so. -/
def withGlobalGroup (g : Grouping) (arena : Arena) : Except Error Arena :=
  if arena.keys.isEmpty && g.keys.isEmpty then g.openGroup arena ⟨[]⟩ else .ok arena

/-- The accumulators of a group, in the order of the aggregates. -/
def slotsOf (g : Grouping) (arena : Arena) (n : Nat) : List Accumulator :=
  (arena.slots.extract (n * g.slotsPerGroup) ((n + 1) * g.slotsPerGroup)).toList

/-- The output row of a group: its key, then the results of its accumulators. -/
def outputRow (g : Grouping) (arena : Arena) (key : GroupKey) (n : Nat) : Except Error Row :=
  Row.ofValues g.schema (key.values ++ (g.slotsOf arena n).map Accumulator.result)

/-- The table of the groups of an input. -/
def run (g : Grouping) (items : List Item) : Except Error Table := do
  let arena ← g.withGlobalGroup (← g.addItems .empty items)
  Table.ofRows g.schema (← arena.keys.toList.zipIdx.mapM fun (key, n) => g.outputRow arena key n)

/-- The text of a grouping: its keys, if there are any, and its aggregates. -/
def render (g : Grouping) : String :=
  let aggregates := ", ".intercalate (g.aggregates.map Aggregate.render)
  if g.keys.isEmpty then s!"Aggregation[{aggregates}]"
  else "Aggregation[group by " ++ ", ".intercalate g.keys ++ s!"; {aggregates}]"

end Grouping

end RelQuery
