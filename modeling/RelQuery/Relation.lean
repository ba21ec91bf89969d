import RelQuery.SortKey

/-!
# RelQuery.Relation

Relations: a schema with a sequence of rows.

There are three flavours, by what may be done with the rows.

* A `Stream` is passed over once, and each of its items is a row or the error raised in place of
  one. What a stream yields is determined when it is made, so it is kept as the list of its items.
* A `Table` is stored: it can be read again and has positions. That its rows fit its schema is part
  of the type.
* A `SortedTable` is a table with a declared order, in which the rows with given leading values are
  found by bisection. `SortedTable.sort` makes the order hold; `SortedTable.declare` takes the
  caller's word for it, and `isOrdered` checks it.
-/

namespace RelQuery

/-- What a stream yields: a row, or the error raised in its place. -/
abbrev Item := Except Error Row

/-- Rows that are passed over once. -/
structure Stream where
  schema : Schema
  items : List Item

/-- The position and schema of the first of some rows that does not fit a schema. -/
def misfit? (schema : Schema) (rows : List Row) : Option (Nat × Schema) :=
  (rows.zipIdx.find? fun (r, _) => !r.schema.fits schema).map fun (r, i) => (i, r.schema)

/-- There is no misfit exactly if every row fits. -/
theorem misfit?_eq_none_iff {schema : Schema} {rows : List Row} :
    misfit? schema rows = none ↔ ∀ r ∈ rows, r.schema.fits schema = true := by
  simp only [misfit?, Option.map_eq_none_iff, List.find?_eq_none, Bool.not_eq_true',
    Bool.not_eq_false]
  constructor
  · intro h r hr
    obtain ⟨i, hi, rfl⟩ := List.getElem_of_mem hr
    exact h (rows[i], i) (by simp [List.mem_zipIdx_iff_getElem?, hi])
  · rintro h ⟨r, i⟩ hr
    exact h r (List.fst_mem_of_mem_zipIdx hr)

/-- Stored rows. -/
structure Table where
  schema : Schema
  rows : List Row
  rows_fit : ∀ r ∈ rows, r.schema.fits schema = true

namespace Table

/-- The name of a table is that of its schema. -/
def name (t : Table) : String := t.schema.name

/-- The number of rows. -/
def size (t : Table) : Nat := t.rows.length

/-- Stores rows, each of which has to fit the schema. -/
def ofRows (schema : Schema) (rows : List Row) : Except Error Table :=
  match h : misfit? schema rows with
  | some (i, actual) => .error (.foreignRow i schema.name actual.render schema.render)
  | none => .ok ⟨schema, rows, misfit?_eq_none_iff.mp h⟩

/-- Rows that fit are stored as they are. -/
theorem ofRows_of_fit {schema : Schema} {rows : List Row}
    (h : ∀ r ∈ rows, r.schema.fits schema = true) :
    ofRows schema rows = .ok ⟨schema, rows, h⟩ := by
  unfold ofRows
  split
  · rename_i i actual hm
    rw [misfit?_eq_none_iff.mpr h] at hm
    exact absurd hm (by simp)
  · rfl

theorem schema_of_ofRows {schema : Schema} {rows : List Row} {t : Table}
    (h : ofRows schema rows = .ok t) : t.schema = schema := by
  unfold ofRows at h
  split at h
  · simp at h
  · rw [← Except.ok.inj h]

/-- The rows that are stored are the given ones. -/
theorem rows_of_ofRows {schema : Schema} {rows : List Row} {t : Table}
    (h : ofRows schema rows = .ok t) : t.rows = rows := by
  unfold ofRows at h
  split at h
  · simp at h
  · rw [← Except.ok.inj h]

/-- The stored rows in the order of a comparison; rows that tie keep their order. -/
def sortBy (t : Table) (order : RowOrder) : Table where
  schema := t.schema
  rows := t.rows.mergeSort fun a b => order.compare a b != .gt
  rows_fit := fun r hr => t.rows_fit r (List.mem_mergeSort.mp hr)

/-- The rows of a table, to be read once. -/
def stream (t : Table) : Stream :=
  ⟨t.schema, t.rows.map .ok⟩

end Table

namespace Stream

/-- A stream of rows, none of which has failed. -/
def ofRows (schema : Schema) (rows : List Row) : Stream :=
  ⟨schema, rows.map .ok⟩

/-- The rows of a list of items up to its end, or the first error in it. -/
def gather : List Item → Except Error (List Row)
  | [] => .ok []
  | .error e :: _ => .error e
  | .ok r :: items => (gather items).map (r :: ·)

/-- Stores the rows of a stream, up to the first error. -/
def collect (s : Stream) : Except Error Table := do
  Table.ofRows s.schema (← gather s.items)

@[simp] theorem gather_map_ok (rows : List Row) : gather (rows.map .ok) = .ok rows := by
  induction rows with
  | nil => rfl
  | cons r rows ih => simp [gather, ih, Except.map]

end Stream

/-- The least position from `lo` on at which `below` fails, if it holds up to some position of
`lo..hi` and fails from there on; found by bisection. -/
def boundary (below : Nat → Bool) (lo hi : Nat) : Nat :=
  if lo < hi then
    let middle := (lo + hi) / 2
    if below middle then boundary below (middle + 1) hi else boundary below lo middle
  else lo
termination_by hi - lo

/-- A table with a declared order. -/
structure SortedTable where
  base : Table
  keys : List SortKey
  /-- The declared order as positions. -/
  order : RowOrder
  /-- The positions are those of the declared order in the schema of the table. -/
  resolved : RowOrder.resolve base.schema keys = .ok order

namespace SortedTable

/-- Sorts a table. Rows that tie keep their order. -/
def sort (t : Table) (keys : List SortKey) : Except Error SortedTable :=
  match h : RowOrder.resolve t.schema keys with
  | .error e => .error e
  | .ok order => .ok ⟨t.sortBy order, keys, order, h⟩

/-- Declares a table to be sorted, without looking at its rows. -/
def declare (t : Table) (keys : List SortKey) : Except Error SortedTable :=
  match h : RowOrder.resolve t.schema keys with
  | .error e => .error e
  | .ok order => .ok ⟨t, keys, order, h⟩

/-- Whether no row is above its successor. -/
def ascends (order : RowOrder) : List Row → Bool
  | a :: b :: rows => order.compare a b != .gt && ascends order (b :: rows)
  | _ => true

/-- Whether the rows stand in the declared order. -/
def isOrdered (t : SortedTable) : Bool :=
  ascends t.order t.base.rows

/-- The order of the row at a position and a key; a position without a row counts as above. -/
def compareAt (t : SortedTable) (key : List Value) (i : Nat) : Ordering :=
  match t.base.rows[i]? with
  | some row => t.order.compareKey row key
  | none => .gt

/-- The positions `start..stop` of the rows whose leading sort columns hold the values of `key`,
which may be shorter than the order. -/
def lookup (t : SortedTable) (key : List Value) : Except Error (Nat × Nat) :=
  if t.keys.length < key.length then
    .error (.keyTooLong key.length t.base.name t.keys.length)
  else
    let start := boundary (fun i => t.compareAt key i == .lt) 0 t.base.size
    let stop := boundary (fun i => t.compareAt key i == .eq) start t.base.size
    .ok (start, stop)

/-- The rows whose leading sort columns hold the values of `key`. -/
def rowsAt (t : SortedTable) (key : List Value) : Except Error (List Row) := do
  let (start, stop) ← t.lookup key
  return (t.base.rows.drop start).take (stop - start)

end SortedTable

/-- A relation of any flavour. -/
inductive Relation where
  | stream (s : Stream)
  | table (t : Table)
  | sorted (t : SortedTable)

namespace Relation

/-- The schema that a relation declares. -/
def schema : Relation → Schema
  | stream s => s.schema
  | table t => t.schema
  | sorted t => t.base.schema

/-- The name of a relation is that of its schema. -/
def name (r : Relation) : String := r.schema.name

/-- Whether the rows can be read again. -/
def isStored : Relation → Bool
  | stream _ => false
  | table _ | sorted _ => true

/-- What one pass over the relation yields. -/
def items : Relation → List Item
  | stream s => s.items
  | table t => t.stream.items
  | sorted t => t.base.stream.items

/-- The relation as a table; a stream is drained. -/
def store : Relation → Except Error Table
  | stream s => s.collect
  | table t => .ok t
  | sorted t => .ok t.base

/-- The rows of a relation, or the first error in them. -/
def collectRows (r : Relation) : Except Error (List Row) :=
  r.store.map Table.rows

end Relation

end RelQuery
