import RelQuery.Algebra.Expr

/-!
# RelQuery.Statement

Statements: queries put together from clauses.

Clauses may come in any order. A statement collects them, keeping the order of those of one sort,
and `Statement.build` puts them together in the order of evaluation: inputs and joins, then the
condition on rows, then grouping, then the selected items, then the name of the result. Sorting and
the limit belong to the result as a whole.

`Statement.sql` is the text of a statement. It shows the clauses, not the plan: a name or a text in
it is written as it stands.
-/

namespace RelQuery

/-- A clause of a statement. -/
inductive Clause where
  /-- A further input; behind the first one it is cross-joined. -/
  | input (schema : Schema)
  /-- A further input, joined where these columns agree. -/
  | join (type : JoinType) (schema : Schema) (pairs : List (String × String))
  /-- A further input, joined on the column names it shares with what is there already. -/
  | naturalJoin (type : JoinType) (schema : Schema)
  /-- A further input, joined by a condition on pairs of rows. -/
  | joinWhere (type : JoinType) (schema : Schema) (p : PairPredicate)
  /-- Selects columns; a star stands for all of them. -/
  | select (columns : List String)
  /-- Selects a column under another name. -/
  | selectAs (column label : String)
  /-- Selects a computed value under a name. -/
  | selectExprAs (expr : ValueExpr) (label : String)
  /-- Computes an aggregate and selects it. -/
  | aggregate (a : Aggregate)
  | groupBy (columns : List String)
  /-- Keeps the rows that satisfy a condition, and all earlier ones. -/
  | filter (p : Predicate)
  | named (name : String)
  /-- Sorts by columns, a minus sign in front standing for descending order. -/
  | sortBy (columns : List String)
  | limit (count : Nat)
  | description (text : String)

/-- How an input is joined to those before it. -/
inductive Link where
  /-- In no way, since there was none before it; anywhere else this stands for a cross join. -/
  | first
  | explicit (type : JoinType) (condition : JoinCondition)
  /-- By agreement on the shared column names. -/
  | natural (type : JoinType)

/-- A collection of clauses. -/
structure Statement where
  /-- The inputs; how the first one is joined does not matter. -/
  inputs : List (Schema × Link)
  items : List OutputItem
  /-- The texts of the selected items. -/
  itemTexts : List String
  /-- Whether anything but an aggregate was selected. -/
  selects : Bool
  aggregates : List Aggregate
  keys : List String
  condition : Option Predicate
  name : Option String
  sortBy : List SortKey
  limit : Option Nat
  description : Option String

namespace Statement

/-- A statement without clauses. -/
def empty : Statement := ⟨[], [], [], false, [], [], none, none, [], none, none⟩

/-- Adds an input behind the ones there are. -/
def addInput (s : Statement) (schema : Schema) (link : Link) : Statement :=
  { s with inputs := s.inputs ++ [(schema, link)] }

/-- Adds a clause. Conditions are joined by `and`, lists grow at their end, and of the other parts
the last one counts. -/
def add (s : Statement) : Clause → Statement
  | .input schema =>
    s.addInput schema (if s.inputs.isEmpty then .first else .explicit .inner .cross)
  | .join type schema pairs => s.addInput schema (.explicit type (.equi pairs))
  | .naturalJoin type schema => s.addInput schema (.natural type)
  | .joinWhere type schema p => s.addInput schema (.explicit type (.theta p))
  | .select columns =>
    { s with
      items := s.items ++ columns.map OutputItem.ofName
      itemTexts := s.itemTexts ++ columns
      selects := true }
  | .selectAs column label =>
    { s with
      items := s.items ++ [.column column (some label)]
      itemTexts := s.itemTexts ++ [s!"{column} AS {label}"]
      selects := true }
  | .selectExprAs expr label =>
    { s with
      items := s.items ++ [.computed label expr]
      itemTexts := s.itemTexts ++ [s!"{expr.render} AS {label}"]
      selects := true }
  | .aggregate a =>
    { s with
      items := s.items ++ [.column a.output none]
      itemTexts := s.itemTexts ++ [a.render]
      aggregates := s.aggregates ++ [a] }
  | .groupBy columns => { s with keys := s.keys ++ columns }
  | .filter p =>
    { s with condition := some (match s.condition with | some q => .and q p | none => p) }
  | .named name => { s with name := some name }
  | .sortBy columns => { s with sortBy := s.sortBy ++ columns.map SortKey.ofText }
  | .limit count => { s with limit := some count }
  | .description text => { s with description := some text }

/-- The statement of a list of clauses, added one by one. -/
def ofClauses (clauses : List Clause) : Statement :=
  clauses.foldl add empty

/-! ### Text -/

/-- How an input behind the first one is written. -/
def linkText (schema : Schema) : Link → String
  | .first | .explicit _ .cross => s!" CROSS JOIN {schema.name}"
  | .natural type => s!" NATURAL {type.render} JOIN {schema.name}"
  | .explicit type (.theta p) => s!" {type.render} JOIN {schema.name} ON {p.label}"
  | .explicit type (.equi pairs) =>
    let on := " AND ".intercalate (pairs.map fun (l, r) => s!"{l} = {schema.name}.{r}")
    s!" {type.render} JOIN {schema.name} ON {on}"

/-- The inputs. The first one is written without its link. -/
def inputsText : List (Schema × Link) → String
  | [] => ""
  | (first, _) :: rest =>
    s!" FROM {first.name}" ++ String.join (rest.map fun (schema, link) => linkText schema link)

/-- How a sort key is written. -/
def sortText (k : SortKey) : String :=
  if k.descending then s!"{k.column} DESC" else k.column

/-- A clause whose list is left out if it is empty. -/
def listText (word : String) (parts : List String) : String :=
  if parts.isEmpty then "" else word ++ ", ".intercalate parts

/-- The statement as SQL text. -/
def sql (s : Statement) : String :=
  "SELECT " ++ (if s.itemTexts.isEmpty then "*" else ", ".intercalate s.itemTexts)
    ++ inputsText s.inputs
    ++ (match s.condition with | some p => s!" WHERE {p.render}" | none => "")
    ++ listText " GROUP BY " s.keys
    ++ listText " ORDER BY " (s.sortBy.map sortText)
    ++ (match s.limit with | some n => s!" LIMIT {n}" | none => "")

/-! ### Building -/

/-- The column names of an expression that an input has, too. -/
def sharedColumns (e : RelExpr) (schema : Schema) : List String :=
  e.schema.names.filter schema.contains

/-- The type and condition of a join with an input. Without shared names a natural join is a cross
join. -/
def resolveLink (e : RelExpr) (schema : Schema) : Link → JoinType × JoinCondition
  | .first => (.inner, .cross)
  | .explicit type condition => (type, condition)
  | .natural type =>
    match sharedColumns e schema with
    | [] => (type, .cross)
    | shared => (type, .equi (shared.map fun c => (c, c)))

/-- Joins an input to an expression. -/
def joinInput (e : RelExpr) (input : Schema × Link) : Except Error RelExpr :=
  let (type, condition) := resolveLink e input.1 input.2
  e.joinWith (.scan input.1) type condition

/-- The name of an item that is a column under its own name, or all columns. -/
def plainName? : OutputItem → Option String
  | .all => some "*"
  | .column name none => some name
  | _ => none

/-- Selects items: as a projection if all of them are plain columns. -/
def selectItems (e : RelExpr) (items : List OutputItem) : Except Error RelExpr :=
  match items.mapM plainName? with
  | some columns => e.project columns
  | none => e.extend items

/-- The expression of a statement: inputs, condition, groups, selection and name, in this order. -/
def buildExpr (s : Statement) : Except Error RelExpr := do
  match s.inputs with
  | [] => .error .noInput
  | (first, _) :: rest =>
    let e ← rest.foldlM joinInput (.scan first)
    let e ← match s.condition with
      | some p => e.filter p
      | none => .ok e
    let e ← if s.aggregates.isEmpty && s.keys.isEmpty then .ok e
      else e.aggregate s.keys s.aggregates
    -- Without a selection the columns of the grouping, or of the inputs, are the result.
    let e ← if s.selects then selectItems e s.items else .ok e
    match s.name with
    | some name => e.rename (some name) []
    | none => .ok e

/-- The query of a statement. Its sort keys have to be columns of the result. -/
def build (s : Statement) : Except Error Query := do
  let q ← (Query.ofExpr (← s.buildExpr)).withSort s.sortBy
  return { q with limit := s.limit, description := s.description, sql := some s.sql }

end Statement

end RelQuery
