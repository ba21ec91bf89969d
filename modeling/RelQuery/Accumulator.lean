import RelQuery.Aggregate
import RelQuery.Row
import Std.Data.HashSet

/-!
# RelQuery.Accumulator

Accumulators: the running state of an aggregate over one group.

An accumulator starts fresh, is updated with one value after the other, and can be asked for its
result at any time. Nulls are passed over by every accumulator except the row counter.

`Accumulator.update` is the update as a function of the state, for a pass that ends with its first
error. `Accumulator.offer` is the same update of a state that stands in a variable, statement by
statement: a caller who goes on after an error finds what has been written before it.

Design points:

* Sums of integers are exact: a sum that would leave the range of 64 bits is an error.
* Means and moments are kept in 64-bit floating-point numbers. Variances use Welford's update, which
  keeps the mean and the sum of squared distances from it.
* Extremes and distinct counts use the order of values, so a NaN is the greatest number and counts
  once.
-/

namespace RelQuery

/-- The column an accumulator reads: its name, for messages, and its declared type. -/
structure Operand where
  column : String
  type : ColumnType
deriving DecidableEq, Repr

namespace Operand

/-- The error for a value that the column cannot hold. -/
def mismatch (o : Operand) (v : Value) : Error :=
  .typeMismatch o.column o.type v.typeName

/-- Refuses a value of another type than the column; null has no type, so it is refused as well. -/
def check (o : Operand) (v : Value) : Except Error Unit :=
  if v.type? = some o.type then .ok () else .error (o.mismatch v)

/-- The value as a 64-bit floating-point number. -/
def number (o : Operand) (v : Value) : Except Error Binary64 := do
  o.check v
  match v.toBinary64? with
  | some x => return x
  | none => .error (o.mismatch v)

/-- The value as an integer. -/
def integer (o : Operand) (v : Value) : Except Error Int := do
  o.check v
  match v.toInt? with
  | some n => return n
  | none => .error (o.mismatch v)

end Operand

/-- A value as a member of a set in which values that are the same are one member. -/
structure Value.Member where
  value : Value
deriving Repr

instance : BEq Value.Member := ⟨fun a b => a.value.same b.value⟩

instance : Hashable Value.Member := ⟨fun m => hash m.value⟩

/-- The running state of an aggregate. -/
inductive Accumulator where
  | rows (count : Nat)
  | values (count : Nat)
  /-- The different values. -/
  | distinct (seen : Std.HashSet Value.Member)
  /-- A sum of integers, none before the first value. -/
  | integerSum (operand : Operand) (sum : Option Int)
  /-- A sum of floating-point numbers, none before the first value. -/
  | floatSum (operand : Operand) (sum : Option Binary64)
  | mean (operand : Operand) (sum : Binary64) (count : Nat)
  /-- The best value so far: one that stands in the order `better` to the best replaces it. -/
  | extreme (operand : Operand) (better : Ordering) (best : Option Value)
  /-- The parts of a variance, or of its square root. -/
  | moments (operand : Operand) (root : Bool) (count : Nat) (centre spread : Binary64)
deriving Repr

namespace Accumulator

/-- The state of an aggregate before the first value. A column aggregate needs the type of its
column. -/
def fresh (kind : AggregateKind) (column : String) (input : Option ColumnType) :
    Except Error Accumulator :=
  if kind.isOverRows then .ok (rows 0)
  else
    match input with
    | none => .error (.untypedAccumulator kind.name column)
    | some type =>
      let operand : Operand := ⟨column, type⟩
      .ok <|
        match kind with
        | .countRows => rows 0
        | .count => values 0
        | .countDistinct => distinct ∅
        | .sum => if type.isInteger then integerSum operand none else floatSum operand none
        | .avg => mean operand Ieee.zero 0
        | .min => extreme operand .lt none
        | .max => extreme operand .gt none
        | .varPop => moments operand false 0 Ieee.zero Ieee.zero
        | .stddevPop => moments operand true 0 Ieee.zero Ieee.zero

/-- Whether every row counts, whatever its values are. -/
def isOverRows : Accumulator → Bool
  | rows _ => true
  | _ => false

/-- Whether a total is in the range of 64-bit integers. -/
def fitsInt64 (n : Int) : Bool :=
  Int64.minValue.toInt ≤ n && n ≤ Int64.maxValue.toInt

/-- The state after a value that is not null. -/
def add (v : Value) : Accumulator → Except Error Accumulator
  | rows n => .ok (rows (n + 1))
  | values n => .ok (values (n + 1))
  | distinct seen => .ok (distinct (if seen.contains ⟨v⟩ then seen else seen.insert ⟨v⟩))
  | integerSum o sum => do
    let total := sum.getD 0 + (← o.integer v)
    if fitsInt64 total then return integerSum o (some total) else .error (.sumOverflow o.column)
  | floatSum o sum => do
    let x ← o.number v
    return floatSum o (some (sum.getD Ieee.zero + x))
  | mean o sum n => do
    let x ← o.number v
    return mean o (sum + x) (n + 1)
  | extreme o better best => do
    o.check v
    match best with
    | none => return extreme o better (some v)
    | some b => return extreme o better (some (if v.order b = better then v else b))
  | moments o root n centre spread => do
    let x ← o.number v
    -- The spread grows by the distance to the old mean times that to the new one.
    let delta := x - centre
    let centre := centre + delta / Binary64.ofNat (n + 1)
    return moments o root (n + 1) centre (spread + delta * (x - centre))

/-- The state after a value. Null changes nothing, except that a row counter counts it. -/
def update (a : Accumulator) (v : Value) : Except Error Accumulator :=
  if v.isNull && !a.isOverRows then .ok a else a.add v

/-- The state after a row, of which a column accumulator reads the given position. -/
def feed (a : Accumulator) (position : Option Nat) (row : Row) : Except Error Accumulator :=
  match a, position with
  | rows n, _ => .ok (rows (n + 1))
  | a, some i => a.update (row.cell i)
  | _, none => .error .columnlessAggregate

/-- A count, as the value it is reported as. -/
def countValue (n : Nat) : Value :=
  .int64 (Int64.ofNat n)

/-- The result of what has been seen so far. -/
def result : Accumulator → Value
  | rows n => countValue n
  | values n => countValue n
  | distinct seen => countValue seen.size
  | integerSum _ sum => (sum.map fun n => Value.int64 (Int64.ofInt n)).getD .null
  | floatSum _ sum => (sum.map Value.float64).getD .null
  | mean _ sum n => if n = 0 then .null else .float64 (sum / Binary64.ofNat n)
  | extreme _ _ best => best.getD .null
  | moments _ root n _ spread =>
    if n = 0 then .null
    else
      let variance := spread / Binary64.ofNat n
      .float64 (if root then variance.sqrt else variance)

/-! ### In place -/

/-- A computation on an accumulator in a variable. What has been written before a failure stays. -/
abbrev InPlace := ExceptT Error (StateM Accumulator)

/-- Takes up a value that is not null in the variable that holds this state. -/
def write (v : Value) : Accumulator → InPlace Unit
  | rows n => set (rows (n + 1))
  | values n => set (values (n + 1))
  | distinct seen => do
    if !seen.contains ⟨v⟩ then set (distinct (seen.insert ⟨v⟩))
  | integerSum o sum => do
    let total := sum.getD 0 + (← o.integer v)
    if fitsInt64 total then set (integerSum o (some total)) else throw (.sumOverflow o.column)
  | floatSum o sum => do
    let x ← o.number v
    set (floatSum o (some (sum.getD Ieee.zero + x)))
  | mean o sum n => do
    let x ← o.number v
    set (mean o (sum + x) n)
    set (mean o (sum + x) (n + 1))
  | extreme o better best => do
    o.check v
    if best.all fun b => v.order b = better then set (extreme o better (some v))
  | moments o root n centre spread => do
    let x ← o.number v
    let n := n + 1
    set (moments o root n centre spread)
    let delta := x - centre
    let centre := centre + delta / Binary64.ofNat n
    set (moments o root n centre spread)
    set (moments o root n centre (spread + delta * (x - centre)))

/-- Offers a value: what the update reports, and the state it leaves behind. -/
def offer (a : Accumulator) (v : Value) : Except Error Unit × Accumulator :=
  if v.isNull && !a.isOverRows then (.ok (), a) else (write v a).run.run a

/-- The state after some values, for a caller who goes on after errors. -/
def after (a : Accumulator) (vs : List Value) : Accumulator :=
  vs.foldl (fun a v => (a.offer v).2) a

/-- What such a caller sees for each of the values: the result after it, or the error. -/
def reports (a : Accumulator) : List Value → List (Except Error Value)
  | [] => []
  | v :: vs =>
    let (outcome, b) := a.offer v
    outcome.map (fun _ => b.result) :: b.reports vs

end Accumulator

end RelQuery
