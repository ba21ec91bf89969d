import RelQuery.Algebra.Expr
import RelQuery.Pipeline.Input
import RelQuery.Pipeline.JoinCursor
import RelQuery.Settings

/-!
# RelQuery.Pipeline.Operator

Pipelines: trees of operators that produce the rows of an expression.

Compilation turns each node of an expression into one operator and binds the leaves to relations; it
hands nothing out. Running a pipeline hands out the bound relations, left before right, and gives a
relation whose rows are those of the expression. A pipeline can be run again, which runs all of it
again.

Only grouping, and a join for its right-hand side, have to see all of their input before the first
row; an error found there makes the run itself fail. Every other error is an item of the output, in
the place of the row it was raised for.
-/

namespace RelQuery

/-- An operator of a pipeline, with the operators of its inputs. -/
inductive Operator where
  /-- The relation bound to an input, whose rows are expected to look like `schema`. -/
  | source (name : String) (schema : Schema) (input : Input)
  | filter (input : Operator) (p : Predicate)
  | map (input : Operator) (op : RowMap)
  | group (input : Operator) (op : Grouping)
  | join (left right : Operator) (op : Join) (strategy : JoinStrategy) (verify : Bool)

namespace Operator

/-- The schema of the rows that an operator yields. -/
def schema : Operator → Schema
  | source _ s _ => s
  | filter input _ => input.schema
  | map _ op => op.schema
  | group _ op => op.schema
  | join _ _ op _ _ => op.schema

/-- The operators that an operator reads, left before right. -/
def inputs : Operator → List Operator
  | source .. => []
  | filter input _ => [input]
  | map input _ => [input]
  | group input _ => [input]
  | join left right _ _ _ => [left, right]

/-- The name of the kind of an operator. -/
def kind : Operator → String
  | source .. => "source"
  | filter .. => "filter"
  | map .. => "map"
  | group .. => "aggregate"
  | join .. => "join"

/-! ### Compilation -/

/-- Binds a leaf. A stream that is gone is accepted: it is the run that fails. -/
def compileLeaf (bindings : Bindings) (h : Handouts) (leaf : Schema) : Except Error Operator :=
  match bindings.get? leaf.name with
  | none => .error (.unbound leaf.name bindings.names)
  | some input =>
    match input.schema? h with
    | none => .ok (source leaf.name leaf input)
    | some actual =>
      if actual.fits leaf then .ok (source leaf.name leaf input)
      else .error (.boundSchema leaf.name actual.render leaf.render)

/-- The pipeline of an expression, operator by operator. Leaves are bound from left to right, and
the first one that cannot be bound is the error. -/
def compile (settings : Settings) (bindings : Bindings) (h : Handouts) :
    RelExpr → Except Error Operator
  | .scan leaf => compileLeaf bindings h leaf
  | .select input p => do return filter (← compile settings bindings h input) p
  | .map input op => do return map (← compile settings bindings h input) op
  | .group input op => do return group (← compile settings bindings h input) op
  | .join left right op => do
    let l ← compile settings bindings h left
    let r ← compile settings bindings h right
    return join l r op settings.strategy settings.verifySorted

/-! ### Running -/

/-- What a condition makes of an item: a row that does not satisfy it is dropped, an error of the
condition takes the place of the row, and an error of the input stays. -/
def filterItem (p : Predicate) : Item → Option Item
  | .error e => some (.error e)
  | .ok row =>
    match p.eval row with
    | .ok true => some (.ok row)
    | .ok false => none
    | .error e => some (.error e)

/-- What a map makes of an item. -/
def mapItem (op : RowMap) : Item → Item
  | .error e => .error e
  | .ok row => op.apply row

/-- Whether an equi-join looks its rows up. -/
def usesLookup (op : Join) (strategy : JoinStrategy) : Bool :=
  op.keys?.isSome && strategy == .sortedLookup

/-- The right-hand side of a join, ready to be matched. -/
def matcherFor (op : Join) (strategy : JoinStrategy) (verify : Bool) (right : Relation) :
    Except Error Matcher :=
  match op.keys?, strategy with
  | some keys, .sortedLookup => Matcher.ofLookup right keys verify
  | _, _ => Matcher.ofScan right

/-- Runs a pipeline once. The streams it hands out stay handed out, even if the run fails. -/
def run (h : Handouts) : Operator → Except Error Relation × Handouts
  | source name _ input => input.take name h
  | filter input p =>
    match input.run h with
    | (.error e, h) => (.error e, h)
    | (.ok r, h) => (.ok (.stream ⟨input.schema, r.items.filterMap (filterItem p)⟩), h)
  | map input op =>
    match input.run h with
    | (.error e, h) => (.error e, h)
    | (.ok r, h) => (.ok (.stream ⟨op.schema, r.items.map (mapItem op)⟩), h)
  | group input op =>
    match input.run h with
    | (.error e, h) => (.error e, h)
    | (.ok r, h) => ((op.run r.items).map .table, h)
  | join left right op strategy verify =>
    match left.run h with
    | (.error e, h) => (.error e, h)
    | (.ok l, h) =>
      match right.run h with
      | (.error e, h) => (.error e, h)
      | (.ok r, h) =>
        match matcherFor op strategy verify r with
        | .error e => (.error e, h)
        | .ok matcher =>
          (.ok (.stream ⟨op.schema, (JoinCursor.start op matcher l.items).drain⟩), h)

/-! ### Walking and printing -/

/-- A step of a walk through a pipeline. -/
inductive Visit where
  /-- An operator is entered. -/
  | enter (depth : Nat) (op : Operator)
  /-- An operator is left, after all of its inputs. -/
  | leave (depth : Nat) (op : Operator)

/-- The walk through a pipeline, from a depth: an operator, then its inputs, left before right. -/
def walkFrom (depth : Nat) (op : Operator) : List Visit :=
  match op with
  | source .. => [.enter depth op, .leave depth op]
  | filter input _ | map input _ | group input _ =>
    .enter depth op :: input.walkFrom (depth + 1) ++ [.leave depth op]
  | join left right _ _ _ =>
    .enter depth op :: left.walkFrom (depth + 1) ++ right.walkFrom (depth + 1)
      ++ [.leave depth op]

/-- The walk through a whole pipeline. -/
def walk (op : Operator) : List Visit :=
  op.walkFrom 0

/-- The text of what an operator does. -/
def describe (h : Handouts) : Operator → String
  | source name _ input => s!"{name} {input.describe h}"
  | filter _ p => p.render
  | map _ op => op.render
  | group _ op => op.render
  | join _ _ op strategy _ =>
    let way := if usesLookup op strategy then "sorted_lookup" else "brute_force"
    s!"{op.render} via {way}"

/-- The line of an operator in a printed plan. -/
def planLine (h : Handouts) (depth : Nat) (op : Operator) : String :=
  treeLine depth s!"{op.kind}: {op.describe h} -> {op.schema.render}"

/-- The printed plan of a pipeline: the lines of its operators in the order of a walk. It says of
each stream whether it is gone. -/
def plan (h : Handouts) (op : Operator) : String :=
  String.join <| op.walk.map fun
    | .enter depth op => op.planLine h depth
    | .leave .. => ""

end Operator

end RelQuery
