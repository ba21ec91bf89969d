import RelQuery.Predicate
import RelQuery.Text

/-!
# RelQuery.Algebra.Join

Joins: which pairs of rows go together, and what they look like as one row.

A join is planned against the schemas of its two inputs. Its output has the columns of the left-hand
input, then those of the right-hand one; a name that occurs on both sides is qualified by the
relation it came from, and a side that may be padded with nulls has nullable columns only. An
equi-join pairs columns of equal type one to one; its rows match if they hold the same values, null
matching nothing.

How the matching rows are found is not decided here: see `RelQuery.Pipeline.Matcher`.
-/

namespace RelQuery

/-- What a join does with rows that match nothing. -/
inductive JoinType where
  /-- They are dropped. -/
  | inner
  /-- Those of the left-hand side are kept. -/
  | leftOuter
  /-- Those of the right-hand side are kept. -/
  | rightOuter
  /-- They are kept on both sides. -/
  | fullOuter
deriving DecidableEq, Repr, Inhabited

namespace JoinType

/-- Whether left-hand rows without a match are kept. -/
def keepsLeft : JoinType → Bool
  | leftOuter | fullOuter => true
  | inner | rightOuter => false

/-- Whether right-hand rows without a match are kept. -/
def keepsRight : JoinType → Bool
  | rightOuter | fullOuter => true
  | inner | leftOuter => false

/-- The join type with this name: in any letter case, with blanks around it, and with spaces in
place of underscores. -/
def ofName? (s : String) : Option JoinType :=
  let cs := (Text.lowerCase (Text.trim s.toList)).map fun c => if c = ' ' then '_' else c
  match String.ofList cs with
  | "inner" => some inner
  | "left" | "left_outer" => some leftOuter
  | "right" | "right_outer" => some rightOuter
  | "full" | "full_outer" | "outer" => some fullOuter
  | _ => none

/-- The words of a join type. -/
def render : JoinType → String
  | inner => "INNER"
  | leftOuter => "LEFT OUTER"
  | rightOuter => "RIGHT OUTER"
  | fullOuter => "FULL OUTER"

end JoinType

/-- The condition of a join, as it is written. -/
inductive JoinCondition where
  /-- Every pair of rows matches. -/
  | cross
  /-- A pair of rows matches if a function says so. -/
  | theta (p : PairPredicate)
  /-- A pair of rows matches if these columns, left and right, hold the same values. -/
  | equi (pairs : List (String × String))

/-- The column pairs of an equi-join and their positions. -/
structure JoinKeys where
  pairs : List (String × String)
  left : List Nat
  right : List Nat
deriving DecidableEq, Repr

namespace JoinKeys

/-- Finds the columns of a pair, which have to have one type. -/
def resolvePair (left right : Schema) (pair : String × String) : Except Error (Nat × Nat) := do
  let (l, r) := pair
  let i ← left.require l
  let j ← right.require r
  let a ← left.columnNamed l
  let b ← right.columnNamed r
  if a.type = b.type then return (i, j)
  else .error (.joinTypes left.name l a.type right.name r b.type)

/-- Finds the columns of a list of pairs from the front. No column may take part in two pairs; those
already seen are given. -/
def resolvePairs (left right : Schema) (lefts rights : List String) :
    List (String × String) → Except Error (List (Nat × Nat))
  | [] => .ok []
  | (l, r) :: pairs =>
    if l ∈ lefts || r ∈ rights then .error (.repeatedJoinColumn l r)
    else do
      let position ← resolvePair left right (l, r)
      return position :: (← resolvePairs left right (l :: lefts) (r :: rights) pairs)

/-- Finds the columns of an equi-join. There has to be a pair. -/
def resolve (left right : Schema) (pairs : List (String × String)) : Except Error JoinKeys :=
  if pairs.isEmpty then .error .noJoinColumns
  else do
    let positions ← resolvePairs left right [] [] pairs
    return ⟨pairs, positions.map Prod.fst, positions.map Prod.snd⟩

/-- Whether two rows hold the same value, and not null, in every pair of columns. -/
def matched (k : JoinKeys) (left right : Row) : Bool :=
  (k.left.zip k.right).all fun (i, j) =>
    !(left.cell i).isNull && (left.cell i).same (right.cell j)

end JoinKeys

/-- The condition of a planned join. -/
inductive JoinRule where
  /-- Every pair of rows matches. -/
  | cross
  /-- A pair of rows matches if a function says so. -/
  | theta (p : PairPredicate)
  /-- A pair of rows matches if it agrees in these columns. -/
  | equi (keys : JoinKeys)

/-- A planned join. -/
structure Join where
  left : Schema
  right : Schema
  /-- What is done with rows that match nothing. -/
  type : JoinType
  rule : JoinRule
  schema : Schema

namespace Join

/-- The condition with its columns found in the two schemas. -/
def planRule (left right : Schema) : JoinCondition → Except Error JoinRule
  | .cross => .ok .cross
  | .theta p => .ok (.theta p)
  | .equi pairs => do return .equi (← JoinKeys.resolve left right pairs)

/-- Column names that occur on both sides. -/
def sharedNames (left right : Schema) : List String :=
  right.names.filter (left.names.contains ·)

/-- The output columns of one side: shared names are qualified, and a padded side is nullable. -/
def sideColumns (side : Schema) (shared : List String) (padded : Bool) : List Column :=
  side.columns.map fun c =>
    ⟨if shared.contains c.name then s!"{side.name}.{c.name}" else c.name,
      c.type, c.nullable || padded, .derived⟩

/-- The output schema of a join. Two inputs of one name cannot share column names. -/
def outputSchema (left right : Schema) (type : JoinType) : Except Error Schema :=
  let shared := sharedNames left right
  if !shared.isEmpty && left.name == right.name then .error (.joinNames left.name)
  else
    Schema.ofColumns s!"{left.name}_{right.name}"
      (sideColumns left shared type.keepsRight ++ sideColumns right shared type.keepsLeft)

/-- A join of the rows of two schemas. -/
def plan (left right : Schema) (type : JoinType) (condition : JoinCondition) :
    Except Error Join := do
  let rule ← planRule left right condition
  let schema ← outputSchema left right type
  return ⟨left, right, type, rule, schema⟩

/-- The columns that an equi-join compares. -/
def keys? (j : Join) : Option JoinKeys :=
  match j.rule with
  | .equi keys => some keys
  | _ => none

/-- Whether the condition holds of a pair of rows. -/
def matched (j : Join) (left right : Row) : Except Error Bool :=
  match j.rule with
  | .cross => .ok true
  | .theta p => p.test left right
  | .equi keys => .ok (keys.matched left right)

/-- The output row of a pair of rows, left before right. -/
def combine (j : Join) (left right : Row) : Except Error Row :=
  Row.ofValues j.schema (left.values ++ right.values)

/-- A left-hand row that matches nothing, padded with nulls. -/
def padRight (j : Join) (left : Row) : Except Error Row :=
  j.combine left (Row.nulls j.right)

/-- A right-hand row that matches nothing, padded with nulls. -/
def padLeft (j : Join) (right : Row) : Except Error Row :=
  j.combine (Row.nulls j.left) right

/-- The text of a join: its type and its condition. -/
def render (j : Join) : String :=
  match j.rule with
  | .cross => s!"Join[{j.type.render}; cross]"
  | .theta p => s!"Join[{j.type.render}; {p.label}]"
  | .equi keys =>
    let pairs := " AND ".intercalate (keys.pairs.map fun (l, r) => s!"{l} = {r}")
    s!"EquiJoin[{j.type.render}; {pairs}]"

end Join

end RelQuery
