import RelQuery.Algebra.Grouping
import RelQuery.Algebra.Join
import RelQuery.Algebra.RowMap

/-!
# RelQuery.Algebra.Expr

Expressions of the relational algebra, and queries.

An expression is a tree whose leaves name input relations and whose inner nodes are planned
operations. It is built by functions that check each node against the schemas of its inputs, so all
errors of names and types come up while the tree is built: `scan`, `filter`, `project`, `rename`,
`extend`, `aggregate` and `join`.

The leaves are collected with an explicit stack of pending expressions, so that a deep tree needs no
deep recursion.

A query is an expression with the presentation of its result. A description, or else the text the
query was made from, names the query in messages.
-/

namespace RelQuery

/-- An expression over input relations. -/
inductive RelExpr where
  | scan (schema : Schema)
  /-- The rows of the input that satisfy a condition. -/
  | select (input : RelExpr) (p : Predicate)
  | map (input : RelExpr) (op : RowMap)
  | group (input : RelExpr) (op : Grouping)
  | join (left right : RelExpr) (op : Join)

namespace RelExpr

/-- The schema of the rows that an expression stands for. -/
def schema : RelExpr → Schema
  | scan s => s
  | select input _ => input.schema
  | map _ op => op.schema
  | group _ op => op.schema
  | join _ _ op => op.schema

/-- The name of the relation that an expression stands for. -/
def name (e : RelExpr) : String := e.schema.name

/-- The expressions that an operation is applied to, left before right. -/
def inputs : RelExpr → List RelExpr
  | scan _ => []
  | select input _ => [input]
  | map input _ => [input]
  | group input _ => [input]
  | join left right _ => [left, right]

/-! ### Construction -/

/-- The rows that satisfy a condition, whose columns have to exist. -/
def filter (e : RelExpr) (p : Predicate) : Except Error RelExpr := do
  p.validate e.schema
  return select e p

/-- The rows transformed by a map of this form. -/
def mapBy (e : RelExpr) (form : MapForm) : Except Error RelExpr := do
  return map e (← RowMap.plan e.schema form)

/-- The listed columns; a star stands for all of them. -/
def project (e : RelExpr) (columns : List String) : Except Error RelExpr :=
  e.mapBy (.projection columns)

/-- New names for the relation and for columns, given as old and new. -/
def rename (e : RelExpr) (relation : Option String) (columns : List (String × String)) :
    Except Error RelExpr :=
  e.mapBy (.rename relation columns)

/-- The listed columns, some of which may be computed. -/
def extend (e : RelExpr) (items : List OutputItem) : Except Error RelExpr :=
  e.mapBy (.extension items)

/-- The groups of rows that agree in the given columns, with their aggregates. -/
def aggregate (e : RelExpr) (keys : List String) (aggregates : List Aggregate) :
    Except Error RelExpr := do
  return group e (← Grouping.plan e.schema keys aggregates)

/-- The matching pairs of rows of two expressions. -/
def joinWith (left right : RelExpr) (type : JoinType) (condition : JoinCondition) :
    Except Error RelExpr := do
  return join left right (← Join.plan left.schema right.schema type condition)

/-! ### Leaves -/

/-- The number of operations and inputs of an expression. -/
def nodes : RelExpr → Nat
  | scan _ => 1
  | select input _ => input.nodes + 1
  | map input _ => input.nodes + 1
  | group input _ => input.nodes + 1
  | join left right _ => left.nodes + right.nodes + 1

/-- The number of nodes of a stack of expressions. -/
def stackNodes : List RelExpr → Nat
  | [] => 0
  | e :: stack => e.nodes + stackNodes stack

/-- An expression has one node more than its inputs. -/
theorem stackNodes_inputs_append (e : RelExpr) (stack : List RelExpr) :
    stackNodes (e.inputs ++ stack) + 1 = e.nodes + stackNodes stack := by
  cases e <;> simp [stackNodes, nodes, inputs] <;> omega

/-- The leaves of a stack of expressions, from the top. -/
def leavesOfStack : List RelExpr → List Schema
  | [] => []
  | scan s :: stack => s :: leavesOfStack stack
  | e :: stack => leavesOfStack (e.inputs ++ stack)
termination_by stack => stackNodes stack
decreasing_by
  · simp [stackNodes, nodes]
  · have := stackNodes_inputs_append e stack
    simp only [stackNodes]
    omega

/-- The schemas of the input relations, left to right. -/
def leaves (e : RelExpr) : List Schema :=
  leavesOfStack [e]

/-! ### Text -/

/-- The text of the topmost operation; its inputs are left out. -/
def render : RelExpr → String
  | scan s => s!"RelationalValue({s.name})"
  | select _ p => s!"Selection[{p.render}]"
  | map _ op => op.render
  | group _ op => op.render
  | join _ _ op => op.render

end RelExpr

/-- A line of a tree that is printed with two spaces for each level. -/
def treeLine (depth : Nat) (text : String) : String :=
  String.ofList (List.replicate (2 * depth) ' ') ++ text ++ "\n"

namespace RelExpr

/-- The tree below a depth: a line for each node with the schema of its rows, inputs below it. -/
def explainAt (depth : Nat) (e : RelExpr) : String :=
  let line := treeLine depth s!"{e.render} -> {e.schema.render}"
  match e with
  | scan _ => line
  | select input _ => line ++ explainAt (depth + 1) input
  | map input _ => line ++ explainAt (depth + 1) input
  | group input _ => line ++ explainAt (depth + 1) input
  | join left right _ => line ++ explainAt (depth + 1) left ++ explainAt (depth + 1) right

/-- The expression as an indented tree. -/
def explain (e : RelExpr) : String :=
  e.explainAt 0

end RelExpr

/-! ### Queries -/

/-- An expression and the presentation of its result: the rows are ordered by the sort keys, and at
most as many as the limit allows are returned. -/
structure Query where
  expr : RelExpr
  /-- The order of the result, most important key first; none leaves the rows as they come. -/
  sortBy : List SortKey
  limit : Option Nat
  description : Option String
  /-- The text of the query, if it was made from clauses. -/
  sql : Option String

namespace Query

/-- A query that returns all rows of an expression as they come. -/
def ofExpr (expr : RelExpr) : Query := ⟨expr, [], none, none, none⟩

/-- The schema of the rows of the result. -/
def schema (q : Query) : Schema := q.expr.schema

/-- Orders the result by columns, which have to exist. -/
def withSort (q : Query) (keys : List SortKey) : Except Error Query := do
  keys.forM fun k => do let _ ← q.schema.require k.column
  return { q with sortBy := keys }

/-- What a query is called in messages: its description, or its text, or its topmost node. -/
def label (q : Query) : String :=
  (q.description.or q.sql).getD q.expr.render

end Query

end RelQuery
