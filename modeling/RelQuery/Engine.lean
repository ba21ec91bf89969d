import RelQuery.Data
import RelQuery.Digest
import RelQuery.Pipeline.Operator

/-!
# RelQuery.Engine

The engine: queries compiled, run, ordered and cut to their limit. Of every evaluated query a run
record is kept.

All functions take the record of streams handed out so far. Compiling and explaining only read it;
evaluating gives it back as it is afterwards, whether the evaluation succeeds or not.

A query with sort keys is run to its end, so any error in its rows is found; a query without sort
keys is read only as far as its limit, and an error behind that is never seen.
-/

namespace RelQuery

/-- Why a query could not be executed. -/
inductive ExecError where
  /-- It could not be compiled. -/
  | compilation (query : String) (cause : Error)
  | evaluation (query : String) (cause : Error)
deriving DecidableEq, Repr

namespace ExecError

/-- The error that stopped a query. -/
def cause : ExecError → Error
  | compilation _ e => e
  | evaluation _ e => e

/-- The text of an error, which names the query it stopped. -/
def message : ExecError → String
  | compilation query e => s!"unable to compile query '{query}': {e.message}"
  | evaluation query e => s!"unable to evaluate query '{query}': {e.message}"

end ExecError

/-! ### Run records -/

/-- The version that run records name. -/
def engineVersion : String := "0.1.0"

/-- A record of one evaluation. Times are milliseconds of the epoch. -/
structure RunRecord where
  /-- The digest of the printed plan that produced the result. -/
  planDigest : Digest
  version : String
  outputRows : Nat
  startedMs : Nat
  finishedMs : Nat
deriving DecidableEq, Repr

namespace RunRecord

/-- The record of an evaluation that has only just started. -/
def start (planDigest : Digest) (startedMs : Nat) : RunRecord :=
  ⟨planDigest, engineVersion, 0, startedMs, startedMs⟩

/-- The record of the evaluation when it has finished. -/
def finish (r : RunRecord) (finishedMs outputRows : Nat) : RunRecord :=
  { r with finishedMs, outputRows }

/-- The duration; zero if the clock went back. -/
def elapsedMs (r : RunRecord) : Nat :=
  r.finishedMs - r.startedMs

end RunRecord

/-! ### Results -/

/-- The result of a query. -/
structure ResultSet where
  table : Table
  sortBy : List SortKey
  record : RunRecord

namespace ResultSet

/-- The schema of the rows. -/
def schema (r : ResultSet) : Schema := r.table.schema

/-- The rows, in the order of the result. -/
def rows (r : ResultSet) : List Row := r.table.rows

/-- The values of a column, from the first row on. -/
def column (r : ResultSet) (name : String) : Except Error (List Value) := do
  let i ← r.schema.require name
  return r.rows.map (·.cell i)

/-- The result as an input of another query. A sorted result keeps its order. -/
def asInput (r : ResultSet) : Except Error Input :=
  if r.sortBy.isEmpty then .ok (.table r.table)
  else do return .sorted (← SortedTable.declare r.table r.sortBy)

/-- The result as a relation, without the order it was sorted in. -/
def toRelation (r : ResultSet) : Relation := .table r.table

/-- A value as plain data. Numbers that are not finite become null. -/
def valueData : Value → Data
  | .null => .null
  | .bool b => .bool b
  | .int32 n => .int n.toInt
  | .int64 n => .int n.toInt
  | .float32 x => if x.isFinite then .float (Binary32.toBinary64 x) else .null
  | .float64 x => if x.isFinite then .float x else .null
  | .text s => .text s
  | .bytes bs => .list (bs.map fun b => .int b.toNat)

/-- The rows as maps from column names to values. -/
def toData (r : ResultSet) : Data :=
  .list (r.rows.map fun row => .object (r.schema.names.zip (row.values.map valueData)))

end ResultSet

/-! ### Evaluation -/

/-- An engine, which is its settings. -/
structure Engine where
  settings : Settings
deriving Inhabited

/-- When an evaluation started and finished, in milliseconds of the epoch. -/
structure Clock where
  startedMs : Nat
  finishedMs : Nat

/-- The first so many elements, or all of them without a limit. -/
def takeLimit {α : Type} (limit : Option Nat) (xs : List α) : List α :=
  match limit with
  | some n => xs.take n
  | none => xs

namespace Engine

/-- Binds the inputs of an expression and chooses how its joins are matched. The error names the
expression. -/
def compile (engine : Engine) (e : RelExpr) (bindings : Bindings) (h : Handouts) :
    Except ExecError Operator :=
  (Operator.compile engine.settings bindings h e).mapError (.compilation e.render)

/-- The plan of a query, which is not run. -/
def explain (engine : Engine) (q : Query) (bindings : Bindings) (h : Handouts) :
    Except ExecError String := do
  return (← engine.compile q.expr bindings h).plan h

/-- Runs a query without ordering and limiting its rows. -/
def evalUnsorted (engine : Engine) (q : Query) (bindings : Bindings) (h : Handouts) :
    Except ExecError Relation × Handouts :=
  match engine.compile q.expr bindings h with
  | .error e => (.error e, h)
  | .ok op =>
    let (r, h) := op.run h
    (r.mapError (.evaluation q.label), h)

/-- The rows of a relation as the table of a result: in the order of the sort keys, if there are
any, and up to the limit. -/
def present (sortBy : List SortKey) (limit : Option Nat) (r : Relation) : Except Error Table :=
  if sortBy.isEmpty then do
    Table.ofRows r.schema (← Stream.gather (takeLimit limit r.items))
  else do
    let t ← SortedTable.sort (← r.store) sortBy
    match limit with
    | some n =>
      if n < t.base.size then Table.ofRows t.base.schema (t.base.rows.take n) else return t.base
    | none => return t.base

/-- Runs a query, orders and limits its rows, and records the run. The query's own limit goes before
the default one. What has been handed out stays so, whether or not the query succeeds. -/
def eval (engine : Engine) (q : Query) (bindings : Bindings) (clock : Clock) (h : Handouts) :
    Except ExecError ResultSet × Handouts :=
  match engine.compile q.expr bindings h with
  | .error e => (.error e, h)
  | .ok op =>
    -- The plan is printed before anything is handed out.
    let digest := Digest.ofText (op.plan h)
    let limit := q.limit.or engine.settings.defaultLimit
    let (r, h) := op.run h
    match r.bind (present q.sortBy limit) with
    | .error e => (.error (.evaluation q.label e), h)
    | .ok table =>
      let record := (RunRecord.start digest clock.startedMs).finish clock.finishedMs table.size
      (.ok ⟨table, q.sortBy, record⟩, h)

end Engine

end RelQuery
