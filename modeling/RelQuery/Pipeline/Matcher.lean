import RelQuery.Algebra.Join
import RelQuery.Relation

/-!
# RelQuery.Pipeline.Matcher

The right-hand side of a running join: which of its rows may match a left-hand row.

A matcher holds the right-hand rows and answers with a range of positions, the *candidates*. When it
scans, every row is a candidate and the condition of the join decides. When it looks up, the rows
are sorted by the join columns, the candidates are found by bisection, and all of them match.

A right-hand side that is already sorted is used as it is if its leading sort columns are the join
columns, in any order and direction. Its order is believed, unless verification is asked for.
-/

namespace RelQuery

/-- The right-hand rows of a join, ready to be matched. -/
inductive Matcher where
  /-- Every row is a candidate. -/
  | scan (rows : Table)
  /-- The candidates are looked up; `probe` has the position of the left-hand column for each
  leading sort column. -/
  | lookup (rows : SortedTable) (probe : List Nat)

namespace Matcher

/-- Stores the right-hand side, to scan it. -/
def ofScan (right : Relation) : Except Error Matcher :=
  right.store.map scan

/-- Whether the leading sort keys name the right-hand join columns, each once. -/
def covers (sortKeys : List SortKey) (keys : JoinKeys) : Bool :=
  let leading := (sortKeys.take keys.pairs.length).map SortKey.column
  let wanted := keys.pairs.map Prod.snd
  leading.length == wanted.length && (firstRepeated? leading).isNone
    && leading.all wanted.contains && wanted.all leading.contains

/-- The right-hand side as it is, if its order serves the join. -/
def reusable? (keys : JoinKeys) (verify : Bool) : Relation → Option SortedTable
  | .sorted t => if covers t.keys keys && (!verify || t.isOrdered) then some t else none
  | _ => none

/-- The right-hand side in an order that serves the join. -/
def sortedFor (right : Relation) (keys : JoinKeys) (verify : Bool) : Except Error SortedTable :=
  match reusable? keys verify right with
  | some t => .ok t
  | none => do
    SortedTable.sort (← right.store) (keys.pairs.map fun (_, r) => SortKey.ascending r)

/-- The left-hand positions for the leading sort keys. -/
def probeFor (sortKeys : List SortKey) (keys : JoinKeys) : List Nat :=
  (sortKeys.take keys.pairs.length).filterMap fun k =>
    ((keys.pairs.map Prod.snd).zip keys.left).lookup k.column

/-- Sorts the right-hand side if need be, to look rows up in it. -/
def ofLookup (right : Relation) (keys : JoinKeys) (verify : Bool) : Except Error Matcher := do
  let t ← sortedFor right keys verify
  return lookup t (probeFor t.keys keys)

/-- The right-hand rows in the order of their positions. -/
def rows : Matcher → List Row
  | scan t => t.rows
  | lookup t _ => t.base.rows

/-- Whether every candidate is a match. -/
def isExact : Matcher → Bool
  | scan _ => false
  | lookup .. => true

/-- The positions `start..stop` of the rows that may match a left-hand row. A key with a null has no
candidates. -/
def candidates (left : Row) : Matcher → Except Error (Nat × Nat)
  | scan t => .ok (0, t.size)
  | lookup t probe =>
    let key := left.pick probe
    if key.any Value.isNull then .ok (0, 0) else t.lookup key

/-- Whether a candidate matches: the condition of the join decides, unless every candidate does. -/
def accepts (m : Matcher) (join : Join) (left right : Row) : Except Error Bool :=
  if m.isExact then .ok true else join.matched left right

/-- The name of the way of matching. -/
def label : Matcher → String
  | scan _ => "brute_force"
  | lookup .. => "sorted_lookup"

end Matcher

end RelQuery
