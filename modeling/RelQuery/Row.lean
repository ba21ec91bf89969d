import RelQuery.Schema

/-!
# RelQuery.Row

Rows, and rows under construction.

A row is a schema and one value for each of its columns; that there are as many values as columns is
part of the type. `Row.ofValues` also checks every value against its column, while `Row.nulls`, the
missing side of an outer join, does not: its nulls may stand in columns that are not nullable.

A `Row.Draft` is filled value by value, each checked when it is written, and becomes a row when it
is finished. A call that writes changes the draft in place, and a caller may go on after one that
fails.
-/

namespace RelQuery

/-- A row of a relation. -/
structure Row where
  schema : Schema
  values : List Value
  length_values : values.length = schema.width

namespace Row

/-- Checks values against columns, position by position. -/
def checkAll : List Column → List Value → Except Error Unit
  | c :: cs, v :: vs => do c.check v; checkAll cs vs
  | _, _ => .ok ()

/-- The row with these values. There has to be one for each column, and each has to fit its
column; of several that do not, the first is reported. -/
def ofValues (schema : Schema) (values : List Value) : Except Error Row :=
  if h : values.length = schema.width then do
    checkAll schema.columns values
    return ⟨schema, values, h⟩
  else .error (.wrongWidth values.length schema.name schema.width)

/-- The row of a schema whose values are all null, whatever the columns allow. -/
def nulls (schema : Schema) : Row :=
  ⟨schema, List.replicate schema.width .null, by simp⟩

instance : Inhabited Row := ⟨nulls default⟩

/-- The value at a position. -/
def get? (r : Row) (i : Nat) : Option Value :=
  r.values[i]?

/-- The value at a position, and null at a position that the row does not have. -/
def cell (r : Row) (i : Nat) : Value :=
  (r.get? i).getD .null

/-- The value of a column that is named. -/
def value (r : Row) (name : String) : Except Error Value := do
  let i ← r.schema.require name
  return r.cell i

/-- The values in several columns, in the order of the names. -/
def valuesOf (r : Row) (names : List String) : Except Error (List Value) :=
  names.mapM r.value

/-- The values at several positions, in the order of the positions. -/
def pick (r : Row) (positions : List Nat) : List Value :=
  positions.map r.cell

/-- The text of a row. -/
def render (r : Row) : String :=
  "(" ++ ", ".intercalate (r.values.map Value.render) ++ ")"

@[simp] theorem values_nulls (s : Schema) :
    (nulls s).values = List.replicate s.width .null := rfl

/-- What `ofValues` accepts, and what it makes of it. -/
theorem ofValues_eq_ok_iff {s : Schema} {vs : List Value} {r : Row} :
    ofValues s vs = .ok r ↔ checkAll s.columns vs = .ok () ∧ r.schema = s ∧ r.values = vs := by
  unfold ofValues
  split
  · rename_i h
    cases hc : checkAll s.columns vs with
    | error e => simp [bind, Except.bind]
    | ok u =>
      simp only [bind, Except.bind, pure, Except.pure, Except.ok.injEq, true_and]
      constructor
      · rintro rfl
        exact ⟨rfl, rfl⟩
      · obtain ⟨s', vs', hl⟩ := r
        rintro ⟨rfl, rfl⟩
        rfl
  · rename_i h
    simp only [reduceCtorEq, false_iff, not_and]
    intro _ hs hv
    exact h (hv ▸ hs ▸ r.length_values)

/-- A row under construction: every slot starts as null. -/
structure Draft where
  schema : Schema
  /-- What has been written so far. -/
  values : List Value
  length_values : values.length = schema.width

namespace Draft

/-- A draft in which nothing has been written. -/
def empty (schema : Schema) : Draft :=
  ⟨schema, List.replicate schema.width .null, by simp⟩

/-- The draft with this value at a position. -/
def put (d : Draft) (i : Nat) (v : Value) : Draft where
  schema := d.schema
  values := d.values.set i v
  length_values := by rw [List.length_set, d.length_values]

/-- A computation on a draft in a variable. What has been written before a failure stays. -/
abbrev InPlace := ExceptT Error (StateM Draft)

/-- Writes a value at a position, if it fits the column there. -/
def writeAt (i : Nat) (v : Value) : InPlace Unit := do
  let d ← get
  match d.schema.column? i with
  | none => throw (.positionOutOfRange i d.schema.name)
  | some c => do
    c.check v
    set (d.put i v)

/-- Writes a value into the column of this name, if it fits it. -/
def writeNamed (name : String) (v : Value) : InPlace Unit := do
  let d ← get
  let i ← d.schema.require name
  writeAt i v

/-- A call that writes to a draft. -/
inductive Write where
  /-- Writes at a position. -/
  | cell (position : Nat) (v : Value)
  /-- Writes into the column of this name. -/
  | named (column : String) (v : Value)
deriving DecidableEq, Repr

/-- Makes a call: what it reports, and the draft it leaves behind. -/
def make (d : Draft) : Write → Except Error Unit × Draft
  | .cell i v => (writeAt i v).run.run d
  | .named column v => (writeNamed column v).run.run d

/-- The draft after some calls, for a caller who goes on after errors. -/
def after (d : Draft) (calls : List Write) : Draft :=
  calls.foldl (fun d call => (d.make call).2) d

/-- The finished row. A column that is not nullable has to have been written. -/
def finish (d : Draft) : Except Error Row :=
  Row.ofValues d.schema d.values

end Draft

end Row

end RelQuery
