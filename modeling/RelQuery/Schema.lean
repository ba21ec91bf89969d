import RelQuery.Error
import RelQuery.Value

/-!
# RelQuery.Schema

Columns and schemas: what the rows of a relation look like.

A schema is a relation name and an ordered list of columns. A column knows its name, its type,
whether null may stand in it, and its *origin*: how its value is found in a row of the schema it was
derived from. Base relations read their own positions; projections and renames point at a column of
their input by name; aggregates, computed columns and joins make their columns themselves.

`Schema.ofColumns` and `Schema.base` are the ways to a schema in which no two columns have the same
name; `require` is the only lookup that fails, and its error names the columns there are.
-/

namespace RelQuery

/-- How a column's value is found in a row of the source. -/
inductive Origin where
  | position (index : Nat)
  /-- In the source column of this name. -/
  | named (column : String)
  /-- Nowhere: the operation makes the value. -/
  | derived
deriving DecidableEq, Repr, Inhabited

/-- A column of a schema. -/
structure Column where
  name : String
  type : ColumnType
  nullable : Bool
  /-- Where its values come from. -/
  origin : Origin
deriving DecidableEq, Repr, Inhabited

namespace Column

/-- A column read from the source column of the same name. -/
def ofName (name : String) (type : ColumnType) (nullable : Bool) : Column :=
  ⟨name, type, nullable, .named name⟩

/-- Whether a value may stand in the column: it is null and the column is nullable, or it has the
column's type. -/
def check (c : Column) (v : Value) : Except Error Unit :=
  match v.type? with
  | none =>
    if c.nullable then .ok () else .error (.typeMismatch c.name c.type "Null (not nullable)")
  | some t => if t = c.type then .ok () else .error (.typeMismatch c.name c.type v.typeName)

/-- Whether a column can stand where another is expected: same name and type, and nulls only where
they are expected. -/
def fits (c expected : Column) : Bool :=
  c.name == expected.name && c.type == expected.type && (expected.nullable || !c.nullable)

end Column

/-- The first element of a list that equals an earlier one. -/
def firstRepeated? {α : Type} [DecidableEq α] (xs : List α) : Option α :=
  go [] xs
where
  /-- The same, when `seen` came before. -/
  go (seen : List α) : List α → Option α
    | [] => none
    | x :: xs => if x ∈ seen then some x else go (x :: seen) xs

/-- The name and the columns of a relation. -/
structure Schema where
  name : String
  columns : List Column
deriving DecidableEq, Repr, Inhabited

namespace Schema

/-- The names of the columns, in their order. -/
def names (s : Schema) : List String :=
  s.columns.map Column.name

/-- The number of columns. -/
def width (s : Schema) : Nat :=
  s.columns.length

/-- A schema with these columns, if their names differ. -/
def ofColumns (name : String) (columns : List Column) : Except Error Schema :=
  match firstRepeated? (columns.map Column.name) with
  | some column => .error (.duplicateColumn column name)
  | none => .ok ⟨name, columns⟩

/-- A schema whose columns are read by position. -/
def base (name : String) (columns : List Column) : Except Error Schema :=
  ofColumns name (columns.mapIdx fun i c => { c with origin := .position i })

/-- The column at a position. -/
def column? (s : Schema) (i : Nat) : Option Column :=
  s.columns[i]?

/-- The position of the first column of this name. -/
def position? (s : Schema) (name : String) : Option Nat :=
  s.columns.findIdx? (·.name == name)

/-- Whether some column has this name. -/
def contains (s : Schema) (name : String) : Bool :=
  (s.position? name).isSome

/-- The position of the column of this name, which has to exist. -/
def require (s : Schema) (name : String) : Except Error Nat :=
  match s.position? name with
  | some i => .ok i
  | none => .error (.columnNotFound name s.name s.names)

/-- The column of this name, which has to exist. -/
def columnNamed (s : Schema) (name : String) : Except Error Column :=
  match s.columns.find? (·.name == name) with
  | some c => .ok c
  | none => .error (.columnNotFound name s.name s.names)

/-- The position in `source` that a column of this origin reads. -/
def resolve (source : Schema) (origin : Origin) (column : String) : Except Error Nat :=
  match origin with
  | .position i =>
    if i < source.width then .ok i
    else .error (.originOutOfRange column i source.name source.width)
  | .named name => source.require name
  | .derived => .error (.originDerived column source.name)

/-- Whether rows of `s` can stand where rows of `expected` are asked for: column by column, whatever
the relation names and origins. -/
def fits (s expected : Schema) : Bool :=
  s.columns.length == expected.columns.length &&
    (s.columns.zip expected.columns).all fun (c, e) => c.fits e

/-- The text of a schema: its name and the names of its columns. -/
def render (s : Schema) : String :=
  s.name ++ "(" ++ ", ".intercalate s.names ++ ")"

@[simp] theorem length_names (s : Schema) : s.names.length = s.width := by
  simp [names, width]

theorem fits_refl (s : Schema) : s.fits s = true := by
  simp only [fits, beq_self_eq_true, Bool.true_and, List.all_eq_true]
  intro p hp
  have : p.1 = p.2 := by
    obtain ⟨i, hi, rfl⟩ := List.getElem_of_mem hp
    simp
  obtain ⟨c, e⟩ := p
  dsimp only at this
  subst this
  cases h : c.nullable <;> simp [Column.fits, h]

end Schema

end RelQuery
