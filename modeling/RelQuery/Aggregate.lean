import RelQuery.Error
import RelQuery.Text

/-!
# RelQuery.Aggregate

Aggregates as a query names them: what is computed, over which column, and under which name.

`AggregateKind.outputType` is the planner's side of an aggregate: the type of its result for a
column type, or the reason why there is none. What is computed from the rows of a group is in
`RelQuery.Accumulator`.
-/

namespace RelQuery

/-- What an aggregate computes from the rows of a group. -/
inductive AggregateKind where
  | countRows
  | count
  /-- The number of different values that are not null. -/
  | countDistinct
  | sum
  | avg
  | min
  | max
  /-- The variance of the whole group. -/
  | varPop
  /-- The standard deviation of the whole group. -/
  | stddevPop
deriving DecidableEq, Repr, Inhabited

namespace AggregateKind

/-- The name of a kind in texts; counting rows and counting values share one. -/
def name : AggregateKind → String
  | countRows | count => "count"
  | countDistinct => "count_distinct"
  | sum => "sum"
  | avg => "avg"
  | min => "min"
  | max => "max"
  | varPop => "var_pop"
  | stddevPop => "stddev_pop"

/-- The aggregate with this name, in any letter case and with blanks around it. -/
def ofName? (s : String) : Option AggregateKind :=
  match String.ofList (Text.lowerCase (Text.trim s.toList)) with
  | "count(*)" | "count_rows" | "count_star" => some countRows
  | "count" => some count
  | "count_distinct" => some countDistinct
  | "sum" => some sum
  | "avg" | "mean" => some avg
  | "min" => some min
  | "max" => some max
  | "var_pop" | "variance" => some varPop
  | "stddev_pop" | "stddev" => some stddevPop
  | _ => none

/-- Whether the aggregate looks at whole rows and has no input column. -/
def isOverRows : AggregateKind → Bool
  | countRows => true
  | _ => false

/-- Whether the aggregate counts, so that its result is never null. -/
def isCount : AggregateKind → Bool
  | countRows | count | countDistinct => true
  | _ => false

/-- The type of the result over a column of this type; aggregates over rows have no column. -/
def outputType (k : AggregateKind) (input : Option ColumnType) : Except Error ColumnType :=
  if k.isCount then .ok .int64
  else
    match input with
    | none => .error (.noInputType k.name)
    | some t =>
      match k with
      | min | max => .ok t
      | sum =>
        if t.isInteger then .ok .int64
        else if t.isNumeric then .ok .float64
        else .error (.undefinedAggregate k.name t)
      | _ => if t.isNumeric then .ok .float64 else .error (.undefinedAggregate k.name t)

end AggregateKind

/-- An aggregate of a query. -/
structure Aggregate where
  kind : AggregateKind
  /-- The input column; none for an aggregate over rows. -/
  input : Option String
  output : String
deriving DecidableEq, Repr, Inhabited

namespace Aggregate

/-- The count of all rows. -/
def countRows : Aggregate := ⟨.countRows, none, "count(*)"⟩

/-- An aggregate over a column, named after both. An aggregate over rows ignores the column. -/
def ofColumn (kind : AggregateKind) (column : String) : Aggregate :=
  if kind.isOverRows then countRows
  else ⟨kind, some column, s!"{kind.name}({column})"⟩

/-- The same aggregate under another name. -/
def named (a : Aggregate) (output : String) : Aggregate := { a with output }

/-- The text of an aggregate; its name is given only if it is not the usual one. -/
def render (a : Aggregate) : String :=
  let argument := a.input.getD "*"
  let call := s!"{a.kind.name}({argument})"
  if call = a.output then call else s!"{call} AS {a.output}"

end Aggregate

end RelQuery
