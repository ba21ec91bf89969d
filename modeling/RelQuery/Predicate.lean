import RelQuery.Row

/-!
# RelQuery.Predicate

Conditions on rows, computed values, and conditions on pairs of rows.

The built-in conditions compare a column with a literal or test it for null, and are combined by
*and*, *or* and *not*; anything else is a function supplied by the caller, under a label that stands
for it in texts. Functions may fail on a row, and so may a comparison, when the column and the
literal have types that cannot be compared.

Design points:

* Null satisfies no comparison, and the negation of a comparison is the negation of its answer:
  there is no third truth value.
* Numbers of different types are compared as integers if both are integers, and as 64-bit
  floating-point numbers otherwise; there a NaN satisfies no comparison at all. Values of one type
  are compared in the order of values, in which NaN has a place.
* *And* and *or* look at the right-hand side only if the left-hand side leaves the answer open, so
  an error on the right may stay unseen.
-/

namespace RelQuery

/-- A comparison operator. -/
inductive Comparison where
  | eq
  | ne
  | lt
  | le
  | gt
  | ge
deriving DecidableEq, Repr, Inhabited

namespace Comparison

/-- The sign of a comparison. -/
def symbol : Comparison → String
  | eq => "=="
  | ne => "!="
  | lt => "<"
  | le => "<="
  | gt => ">"
  | ge => ">="

/-- The operator with this symbol; equality and inequality have a second one each. -/
def ofSymbol? : String → Option Comparison
  | "==" | "=" => some eq
  | "!=" | "<>" => some ne
  | "<" => some lt
  | "<=" => some le
  | ">" => some gt
  | ">=" => some ge
  | _ => none

/-- Whether operands in this order satisfy the operator. -/
def holds : Comparison → Ordering → Bool
  | eq, o => o == .eq
  | ne, o => o != .eq
  | lt, o => o == .lt
  | le, o => o != .gt
  | gt, o => o == .gt
  | ge, o => o != .lt

end Comparison

/-- The order of a column's value and a literal. There is none if either is null, or if numbers of
different types include a NaN; types that cannot be compared are an error. -/
def compareWithLiteral (column : String) (v literal : Value) : Except Error (Option Ordering) :=
  match v.type?, literal.type? with
  | some vt, some lt =>
    if vt = lt then .ok (some (v.order literal))
    else
      -- Across types only numbers can be compared; integers are compared exactly.
      match v.toInt?, literal.toInt? with
      | some a, some b => .ok (some (compare a b))
      | _, _ =>
        match v.toBinary64?, literal.toBinary64? with
        | some a, some b => .ok (a.partialOrder b)
        | _, _ => .error (.typeMismatch column vt literal.typeName)
  | _, _ => .ok none

/-- A condition on a row. -/
inductive Predicate where
  /-- The column's value stands in this relation to a literal. -/
  | compare (column : String) (op : Comparison) (literal : Value)
  | isNull (column : String)
  | and (p q : Predicate)
  | or (p q : Predicate)
  | not (p : Predicate)
  /-- The answer of a function, which the label stands for. -/
  | custom (label : String) (test : Row → Except Error Bool)

namespace Predicate

/-- Checks that a schema has every column that the condition names. -/
def validate (schema : Schema) : Predicate → Except Error Unit
  | compare column _ _ => (schema.require column).map fun _ => ()
  | isNull column => (schema.require column).map fun _ => ()
  | and p q => do p.validate schema; q.validate schema
  | or p q => do p.validate schema; q.validate schema
  | not p => p.validate schema
  | custom _ _ => .ok ()

/-- Whether a condition holds of a row. A comparison without an outcome, such as one with null, does
not hold; `and` and `or` look at their second part only if the first one leaves it open. -/
def eval (row : Row) : Predicate → Except Error Bool
  | compare column op literal => do
    match ← compareWithLiteral column (← row.value column) literal with
    | some o => return op.holds o
    | none => return false
  | isNull column => do return (← row.value column).isNull
  | and p q => do if ← p.eval row then q.eval row else return false
  | or p q => do if ← p.eval row then return true else q.eval row
  | not p => do return !(← p.eval row)
  | custom _ test => test row

/-- The text of a condition. -/
def render : Predicate → String
  | compare column op literal => s!"{column} {op.symbol} {literal.literal}"
  | isNull column => s!"{column} IS NULL"
  | and p q => s!"({p.render} AND {q.render})"
  | or p q => s!"({p.render} OR {q.render})"
  | not p => s!"NOT {p.render}"
  | custom label _ => label

/-- The conjunction of a list of conditions, grouped to the left, behind a first one. -/
def conjunction (p : Predicate) (ps : List Predicate) : Predicate :=
  ps.foldl and p

end Predicate

/-- A value computed from a row. -/
inductive ValueExpr where
  | column (name : String)
  /-- The same value for every row. -/
  | literal (v : Value)
  | condition (p : Predicate)
  /-- The result of a function with results of a declared type; the label stands for it. -/
  | custom (label : String) (type : ColumnType) (compute : Row → Except Error Value)

namespace ValueExpr

/-- The type of the values computed from rows of a schema. -/
def typeIn (schema : Schema) : ValueExpr → Except Error ColumnType
  | column name => do return (← schema.columnNamed name).type
  | literal v =>
    match v.type? with
    | some t => .ok t
    | none => .error .untypedNull
  | condition p => do p.validate schema; return .boolean
  | custom _ type _ => .ok type

/-- The value of an expression for a row. -/
def eval (row : Row) : ValueExpr → Except Error Value
  | column name => row.value name
  | literal v => .ok v
  | condition p => do return .bool (← p.eval row)
  | custom _ _ compute => compute row

/-- The text of an expression. -/
def render : ValueExpr → String
  | column name => name
  | literal v => v.literal
  | condition p => p.render
  | custom label _ _ => label

end ValueExpr

/-- A condition on a pair of rows, given by a function that the label stands for. -/
structure PairPredicate where
  label : String
  /-- Whether it holds of a left-hand and a right-hand row. -/
  test : Row → Row → Except Error Bool

end RelQuery
