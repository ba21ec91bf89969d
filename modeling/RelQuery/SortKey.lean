import RelQuery.Row

/-!
# RelQuery.SortKey

Sort keys and the row orders made from them.

A list of sort keys names columns and directions, most important first. Resolved against a schema it
becomes a `RowOrder`, which compares rows lexicographically: the first position at which two rows
differ decides. Null is below every other value, hence first in an ascending column and last in a
descending one.
-/

namespace RelQuery

/-- A column to sort by, and the direction. -/
structure SortKey where
  column : String
  descending : Bool
deriving DecidableEq, Repr, Inhabited

namespace SortKey

/-- Sorts by a column, small values first. -/
def ascending (column : String) : SortKey := ⟨column, false⟩

/-- The key written as a column name, behind a minus sign if it is descending. -/
def ofText (s : String) : SortKey :=
  match s.toList with
  | '-' :: cs => ⟨String.ofList cs, true⟩
  | _ => ⟨s, false⟩

/-- The text of a key: a sign in front of the column says that the order is descending. -/
def render (k : SortKey) : String :=
  if k.descending then "-" ++ k.column else k.column

end SortKey

/-- Sort keys resolved to positions of one schema. -/
structure RowOrder where
  /-- Position and direction of each key, most important first. -/
  keys : List (Nat × Bool)
deriving DecidableEq, Repr, Inhabited

namespace RowOrder

/-- The order that keys stand for on the rows of a schema. -/
def resolve (schema : Schema) (keys : List SortKey) : Except Error RowOrder := do
  let keys ← keys.mapM fun k => do return ((← schema.require k.column), k.descending)
  return ⟨keys⟩

/-- The positions of the keys, most important first. -/
def positions (o : RowOrder) : List Nat :=
  o.keys.map Prod.fst

/-- The order of two values in a column of this direction. -/
def directed (descending : Bool) (a b : Value) : Ordering :=
  if descending then (a.order b).swap else a.order b

/-- Compares rows by the given keys. -/
def compareBy : List (Nat × Bool) → Row → Row → Ordering
  | [], _, _ => .eq
  | (i, descending) :: keys, a, b =>
    (directed descending (a.cell i) (b.cell i)).then (compareBy keys a b)

/-- Compares the leading columns of a row with the values of a key, as many as the key has. -/
def compareKeyBy : List (Nat × Bool) → Row → List Value → Ordering
  | (i, descending) :: keys, row, v :: key =>
    (directed descending (row.cell i) v).then (compareKeyBy keys row key)
  | _, _, _ => .eq

/-- The order of two rows: that of the first column in which they differ. -/
def compare (o : RowOrder) (a b : Row) : Ordering :=
  compareBy o.keys a b

/-- The order of a row and a key, which may be shorter than the order. -/
def compareKey (o : RowOrder) (row : Row) (key : List Value) : Ordering :=
  compareKeyBy o.keys row key

end RowOrder

end RelQuery
