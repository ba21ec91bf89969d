import RelQuery.Algebra.Expr
import RelQuery.Dictionary
import RelQuery.Predicate.Reading

/-!
# RelQuery.Document

Query documents: queries written down as nested records.

A document declares its inputs, and gives the query as a tree of nodes. Everything in it is text as
it was written; `Document.build` gives the texts their meaning and checks them. Conditions are
filter texts, read against the schema of the node they filter, and an aggregate that counts needs no
column.
-/

namespace RelQuery

namespace Document

/-- The declaration of a column of an input. -/
structure ColumnDecl where
  name : String
  type : String
  nullable : Bool
deriving DecidableEq, Repr

/-- An aggregate of a node. -/
structure AggregateDecl where
  kind : String
  column : Option String
  /-- The name of the result, if it is not the usual one. -/
  label : Option String
deriving DecidableEq, Repr

/-- A node of the query tree. -/
inductive Node where
  /-- The rows of an input. -/
  | scan (relation : String)
  /-- The rows that satisfy a filter text. -/
  | filter (input : Node) (expr : String)
  | project (input : Node) (columns : List String)
  /-- New names for the relation and for columns, by their old names. -/
  | rename (input : Node) (relation : Option String) (columns : Dictionary String)
  /-- The groups with their aggregates. -/
  | aggregate (input : Node) (keys : List String) (aggregates : List AggregateDecl)
  /-- The matching pairs of rows; without column pairs, all pairs. -/
  | join (left right : Node) (type : String) (pairs : List (String × String))
deriving DecidableEq, Repr

end Document

/-- A query document. -/
structure Document where
  /-- The columns of the inputs. -/
  inputs : Dictionary (List Document.ColumnDecl)
  query : Document.Node
  /-- Columns to sort by, a minus sign in front standing for descending order. -/
  sortBy : List String
  limit : Option UInt64
  description : Option String
deriving DecidableEq, Repr

namespace Document

/-- A query with the schemas its inputs have to have. -/
structure Built where
  query : Query
  /-- The schema of each declared input, sorted by name. -/
  inputs : List (String × Schema)

/-- The column that a document declares, if its type has a known name. -/
def ColumnDecl.build (c : ColumnDecl) : Except Error Column :=
  match ColumnType.ofName? c.type with
  | some type => .ok (Column.ofName c.name type c.nullable)
  | none => .error (.unknownType c.type c.name)

/-- The schema of a declared input, next to its name. -/
def buildInput (input : String × List ColumnDecl) : Except Error (String × Schema) := do
  let columns ← input.2.mapM ColumnDecl.build
  return (input.1, ← Schema.base input.1 columns)

/-- The aggregate that a declaration stands for. Counting without a column counts rows. -/
def AggregateDecl.build (a : AggregateDecl) : Except Error Aggregate := do
  let kind ← match AggregateKind.ofName? a.kind with
    | some kind => .ok kind
    | none => .error (.unknownAggregate a.kind)
  let aggregate ← match a.column, kind with
    | none, .count | _, .countRows => .ok Aggregate.countRows
    | some column, kind => .ok (Aggregate.ofColumn kind column)
    | none, kind => .error (.missingColumn kind.name)
  match a.label with
  | some label => return aggregate.named label
  | none => return aggregate

/-- The expression that a node stands for, over the schemas of the declared inputs. The names of
join types and aggregates are looked up before the inputs of the node are built, and its conditions
and columns after them. -/
def Node.build (inputs : List (String × Schema)) : Node → Except Error RelExpr
  | scan relation =>
    match inputs.lookup relation with
    | some schema => .ok (.scan schema)
    | none => .error (.undeclaredInput relation)
  | filter input expr => do
    let e ← input.build inputs
    e.filter (← Predicate.ofText e.schema expr)
  | project input columns => do
    (← input.build inputs).project columns
  | rename input relation columns => do
    (← input.build inputs).rename relation columns.entries
  | aggregate input keys aggregates => do
    let aggregates ← aggregates.mapM AggregateDecl.build
    (← input.build inputs).aggregate keys aggregates
  | join left right type pairs => do
    let type ← match JoinType.ofName? type with
      | some type => .ok type
      | none => .error (.unknownJoinType type)
    let l ← left.build inputs
    let r ← right.build inputs
    l.joinWith r type (if pairs.isEmpty then .cross else .equi pairs)

/-- The query of a document and the schemas of its inputs. -/
def build (d : Document) : Except Error Built := do
  let inputs ← d.inputs.entries.mapM buildInput
  let e ← d.query.build inputs
  let q ← (Query.ofExpr e).withSort (d.sortBy.map SortKey.ofText)
  return ⟨{ q with limit := d.limit.map UInt64.toNat, description := d.description }, inputs⟩

end Document

end RelQuery
