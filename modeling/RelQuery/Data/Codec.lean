import RelQuery.Algebra.Join
import RelQuery.Aggregate
import RelQuery.Data
import RelQuery.Settings
import RelQuery.SortKey

/-!
# RelQuery.Data.Codec

The data forms of the types of the library.

Each type has `toData`, which writes it, and `ofData?`, which reads it back. Records are maps with
one entry for each field, and variants are texts, or maps with one entry, under the names that the
tables of this module give. Reading is more generous than writing: see `Data.record?` and
`Data.unit?`. It checks types and ranges, and nothing else; a schema read from data may have columns
of the same name.
-/

namespace RelQuery

namespace Value

/-- The data form of a value: null is a name, and any other value stands under the name of its
type. -/
def toData : Value → Data
  | null => .text "Null"
  | bool b => .object [("Bool", .bool b)]
  | int32 n => .object [("I32", .int n.toInt)]
  | int64 n => .object [("I64", .int n.toInt)]
  | float32 x => .object [("F32", floatData (Binary32.toBinary64 x))]
  | float64 x => .object [("F64", floatData x)]
  | text s => .object [("Str", .text s)]
  | bytes bs => .object [("Bin", .list (bs.map fun b => .int b.toNat))]
where
  /-- A number that is not finite has no data form of its own. -/
  floatData (x : Binary64) : Data :=
    if x.isFinite then .float x else .null

/-- The number nearest to the number that data stands for. -/
def ieeeOfData? (f : Format) : Data → Option (Ieee f)
  | .int n => some (Ieee.ofInt f n)
  | .float x => some (x.convert f)
  | _ => none

/-- A byte is an integer up to 255. -/
def byteOfData? (d : Data) : Option UInt8 :=
  (d.intWithin? 0 255).map fun n => UInt8.ofNat n.toNat

/-- The value of a variant with this name. -/
def ofVariant? : String → Option Data → Option Value
  | "Null", none | "Null", some .null => some null
  | "Bool", some d => d.bool?.map bool
  | "I32", some d => (d.intWithin? Int32.minValue.toInt Int32.maxValue.toInt).map fun n =>
    int32 (Int32.ofInt n)
  | "I64", some d => (d.intWithin? Int64.minValue.toInt Int64.maxValue.toInt).map fun n =>
    int64 (Int64.ofInt n)
  | "F32", some d => (ieeeOfData? .single d).map float32
  | "F64", some d => (ieeeOfData? .double d).map float64
  | "Str", some d => d.text?.map text
  | "Bin", some d => (d.list?.bind fun xs => xs.mapM byteOfData?).map bytes
  | _, _ => none

/-- The value with this data form. -/
def ofData? (d : Data) : Option Value := do
  let (name, held) ← d.variant?
  ofVariant? name held

end Value

namespace ColumnType

/-- The column types by name. -/
def dataNames : List (String × ColumnType) :=
  all.map fun t => (t.name, t)

/-- A column type is its name. -/
def toData : ColumnType → Data := Data.ofUnit dataNames

/-- The column type with this data form. -/
def ofData? : Data → Option ColumnType := Data.unit? dataNames

end ColumnType

namespace Origin

/-- The data form of an origin. -/
def toData : Origin → Data
  | position i => .object [("Ordinal", .int i)]
  | named name => .object [("Name", .text name)]
  | derived => .text "Derived"

/-- The origin with this data form. -/
def ofData? (d : Data) : Option Origin := do
  match ← d.variant? with
  | ("Ordinal", some d) => return position (← d.count?)
  | ("Name", some d) => return named (← d.text?)
  | ("Derived", none) | ("Derived", some .null) => return derived
  | _ => none

end Origin

namespace Column

/-- The data form of a column. -/
def toData (c : Column) : Data :=
  .object [("name", .text c.name), ("data_type", c.type.toData), ("nullable", .bool c.nullable),
    ("accessor", c.origin.toData)]

/-- The column with this data form. -/
def ofData? (d : Data) : Option Column := do
  match ← d.record? ["name", "data_type", "nullable", "accessor"] with
  | [some name, some type, some nullable, some origin] =>
    return ⟨← name.text?, ← ColumnType.ofData? type, ← nullable.bool?, ← Origin.ofData? origin⟩
  | _ => none

end Column

namespace Schema

/-- The data form of a schema. -/
def toData (s : Schema) : Data :=
  .object [("name", .text s.name), ("fields", .list (s.columns.map Column.toData))]

/-- The schema with this data form. Its columns are not checked. -/
def ofData? (d : Data) : Option Schema := do
  match ← d.record? ["name", "fields"] with
  | [some name, some columns] =>
    return ⟨← name.text?, ← (← columns.list?).mapM Column.ofData?⟩
  | _ => none

end Schema

namespace SortKey

/-- The data form of a sort key. -/
def toData (k : SortKey) : Data :=
  .object [("column", .text k.column), ("descending", .bool k.descending)]

/-- The sort key with this data form. -/
def ofData? (d : Data) : Option SortKey := do
  match ← d.record? ["column", "descending"] with
  | [some column, some descending] => return ⟨← column.text?, ← descending.bool?⟩
  | _ => none

end SortKey

namespace Comparison

/-- The comparisons by name. -/
def dataNames : List (String × Comparison) :=
  [("Eq", eq), ("Ne", ne), ("Lt", lt), ("Le", le), ("Gt", gt), ("Ge", ge)]

/-- A comparison is its name. -/
def toData : Comparison → Data := Data.ofUnit dataNames

/-- The comparison with this data form. -/
def ofData? : Data → Option Comparison := Data.unit? dataNames

end Comparison

namespace JoinType

/-- The join types by name. -/
def dataNames : List (String × JoinType) :=
  [("inner", inner), ("left_outer", leftOuter), ("right_outer", rightOuter),
    ("full_outer", fullOuter)]

/-- A join type is its name. -/
def toData : JoinType → Data := Data.ofUnit dataNames

/-- The join type with this data form. -/
def ofData? : Data → Option JoinType := Data.unit? dataNames

end JoinType

namespace AggregateKind

/-- The kinds of aggregates by name. -/
def dataNames : List (String × AggregateKind) :=
  [("count_rows", countRows), ("count", count), ("count_distinct", countDistinct), ("sum", sum),
    ("avg", avg), ("min", min), ("max", max), ("var_pop", varPop), ("stddev_pop", stddevPop)]

/-- A kind of aggregate is its name. -/
def toData : AggregateKind → Data := Data.ofUnit dataNames

/-- The kind of aggregate with this data form. -/
def ofData? : Data → Option AggregateKind := Data.unit? dataNames

end AggregateKind

namespace Aggregate

/-- The data form of an aggregate. -/
def toData (a : Aggregate) : Data :=
  .object [("kind", a.kind.toData), ("input", Data.ofOption .text a.input),
    ("output", .text a.output)]

/-- The aggregate with this data form; its column may be missing. -/
def ofData? (d : Data) : Option Aggregate := do
  match ← d.record? ["kind", "input", "output"] with
  | [some kind, input, some output] =>
    return ⟨← AggregateKind.ofData? kind, ← Data.optional? none (Data.option? Data.text?) input,
      ← output.text?⟩
  | _ => none

end Aggregate

namespace JoinStrategy

/-- The join strategies by name. -/
def dataNames : List (String × JoinStrategy) :=
  [("sorted_lookup", sortedLookup), ("nested_loop", nestedLoop)]

/-- A join strategy is its name. -/
def toData : JoinStrategy → Data := Data.ofUnit dataNames

/-- The join strategy with this data form. -/
def ofData? : Data → Option JoinStrategy := Data.unit? dataNames

end JoinStrategy

namespace Settings

/-- The data form of settings, with every setting written out. -/
def toData (s : Settings) : Data :=
  .object [("progress_interval_rows", .int s.progressInterval),
    ("equi_join_strategy", s.strategy.toData), ("verify_sorted_inputs", .bool s.verifySorted),
    ("default_limit", Data.ofOption (fun n : Nat => .int n) s.defaultLimit)]

/-- The settings with this data form; a setting that is missing has its default. -/
def ofData? (d : Data) : Option Settings := do
  match ← d.record? ["progress_interval_rows", "equi_join_strategy", "verify_sorted_inputs",
      "default_limit"] with
  | [interval, strategy, verify, limit] =>
    return ⟨← Data.optional? default.progressInterval Data.count? interval,
      ← Data.optional? default.strategy JoinStrategy.ofData? strategy,
      ← Data.optional? default.verifySorted Data.bool? verify,
      ← Data.optional? default.defaultLimit (Data.option? Data.count?) limit⟩
  | _ => none

end Settings

end RelQuery
