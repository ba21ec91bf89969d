import RelQuery.Predicate

/-!
# RelQuery.Algebra.RowMap

Row maps: operations that make one output row of each input row.

A map is written in one of three forms: a projection lists columns, a rename gives new names to the
relation or to some columns, and an extension lists columns, renamed columns and computed values.
All three are planned once, against the schema of the input: `RowMap.plan` finds the output schema
and, for each output column, the input position it is copied from or the expression it is computed
by. Applying the map needs nothing else.
-/

namespace RelQuery

/-- An output column, or all input columns, of an extension. -/
inductive OutputItem where
  | all
  /-- An input column, under its own name or another. -/
  | column (name : String) (label : Option String)
  /-- A computed value under a name. -/
  | computed (name : String) (expr : ValueExpr)

namespace OutputItem

/-- A column written by name, or all columns written as a star. -/
def ofName (name : String) : OutputItem :=
  if name = "*" then all else column name none

/-- The text of an item of a selection. -/
def render : OutputItem → String
  | all => "*"
  | column name none => name
  | column name (some label) => s!"{name} AS {label}"
  | computed name expr => s!"{expr.render} AS {name}"

end OutputItem

/-- Where an output column of a map gets its value. -/
inductive Feed where
  /-- From the input column at this position. -/
  | input (position : Nat)
  /-- From this expression. -/
  | computed (expr : ValueExpr)

/-- The forms a map is written in. -/
inductive MapForm where
  /-- The listed columns, where a star stands for all of them. -/
  | projection (columns : List String)
  /-- A new name for the relation, and new names for some columns, given as old and new. -/
  | rename (relation : Option String) (columns : List (String × String))
  | extension (items : List OutputItem)

/-- A planned map. -/
structure RowMap where
  /-- How the map was written. -/
  form : MapForm
  source : Schema
  schema : Schema
  /-- Where each output column gets its value. -/
  feeds : List Feed

namespace RowMap

/-- The output columns of an item, each with its expression if it is computed. -/
def itemColumns (source : Schema) : OutputItem → Except Error (List (Column × Option ValueExpr))
  | .all =>
    .ok (source.columns.map fun c => (Column.ofName c.name c.type c.nullable, none))
  | .column name label => do
    let c ← source.columnNamed name
    return [(⟨label.getD name, c.type, c.nullable, .named name⟩, none)]
  | .computed name expr => do
    let type ← expr.typeIn source
    return [(⟨name, type, true, .derived⟩, some expr)]

/-- The output columns of a list of items, those of the first item first. -/
def listColumns (source : Schema) (items : List OutputItem) :
    Except Error (List (Column × Option ValueExpr)) := do
  return (← items.mapM (itemColumns source)).flatten

/-- Checks a list of renames from the front: a column has to exist, may be renamed only once, and no
two may get the same name. The names already seen are given. -/
def checkRenames (source : Schema) (olds news : List String) :
    List (String × String) → Except Error Unit
  | [] => .ok ()
  | (old, new) :: renames => do
    let _ ← source.require old
    if old ∈ olds then .error (.renamedTwice old source.name)
    else if new ∈ news then .error (.renamedAlike source.name new)
    else checkRenames source (old :: olds) (new :: news) renames

/-- The new name of a column under a list of renames. -/
def newName (renames : List (String × String)) (name : String) : String :=
  ((renames.find? fun (old, _) => old == name).map Prod.snd).getD name

/-- The output columns of a rename. All pairs apply at once, so names can be exchanged. -/
def renamedColumns (source : Schema) (renames : List (String × String)) :
    Except Error (List (Column × Option ValueExpr)) := do
  checkRenames source [] [] renames
  return source.columns.map fun c =>
    (⟨newName renames c.name, c.type, c.nullable, .named c.name⟩, none)

/-- The name of the output relation and its columns. -/
def outputOf (source : Schema) :
    MapForm → Except Error (String × List (Column × Option ValueExpr))
  | .projection columns => do
    return (source.name, ← listColumns source (columns.map OutputItem.ofName))
  | .extension items => do
    return (source.name, ← listColumns source items)
  | .rename relation columns => do
    return (relation.getD source.name, ← renamedColumns source columns)

/-- Where an output column gets its value. -/
def feedOf (source : Schema) : Column × Option ValueExpr → Except Error Feed
  | (_, some expr) => .ok (.computed expr)
  | (c, none) => do return .input (← source.resolve c.origin c.name)

/-- A map of the rows of a schema: its output schema, and where each output column gets its
value. -/
def plan (source : Schema) (form : MapForm) : Except Error RowMap := do
  let (name, outputs) ← outputOf source form
  let schema ← Schema.ofColumns name (outputs.map Prod.fst)
  let feeds ← outputs.mapM (feedOf source)
  return ⟨form, source, schema, feeds⟩

/-- The value of an output column for an input row. -/
def valueOf (row : Row) : Feed → Except Error Value
  | .input i => .ok (row.cell i)
  | .computed expr => expr.eval row

/-- The output row for an input row. A value is checked against its column only when all values have
been computed. -/
def apply (m : RowMap) (row : Row) : Except Error Row := do
  let values ← m.feeds.mapM (valueOf row)
  Row.ofValues m.schema values

/-- The text of a map, in the words it was asked for with. -/
def render (m : RowMap) : String :=
  match m.form with
  | .projection columns => "Projection[" ++ ", ".intercalate columns ++ "]"
  | .rename relation columns =>
    let pairs := ", ".intercalate (columns.map fun (old, new) => s!"{old} AS {new}")
    match relation with
    | some name => s!"Rename[{m.source.name} -> {name}; {pairs}]"
    | none => s!"Rename[{pairs}]"
  | .extension items =>
    "ExtendedProjection[" ++ ", ".intercalate (items.map OutputItem.render) ++ "]"

end RowMap

end RelQuery
