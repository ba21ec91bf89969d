import RelQuery.Decimal
import RelQuery.Predicate

/-!
# RelQuery.Predicate.Reading

Filter text read as a condition on the rows of a schema.

The text is a chain of simple conditions joined by the word `and` in any letter case, with a space
on either side. A simple condition is `column IS NULL`, `column IS NOT NULL` (in any letter case) or
`column operator literal`, and its literal is read as a value of the column's type. Parts that are
blank are passed over, and the conditions are grouped to the left.

Marks are found by their letters alone: quotes protect neither the word `and` nor an operator, and
the two-letter operators are looked for anywhere in a condition before the one-letter ones.

In a literal the word `null`, in any letter case, is null for every type. Numbers are read by the
rules of `RelQuery.Text` and `RelQuery.Decimal`, within the range of the type. Text and
bytes may stand between a pair of single or double quotes, which is removed; what is inside is taken
as it stands, and text without quotes is its own literal.
-/

namespace RelQuery

/-! ### Literals -/

namespace Text

/-- The text between a quotation mark at the front and the same mark at the end. -/
def between? (mark : Char) : List Char → Option (List Char)
  | [] => none
  | c :: cs => if c = mark && cs.getLast? = some mark then some cs.dropLast else none

/-- Removes one pair of quotation marks, if the text stands in one. -/
def unquote (cs : List Char) : List Char :=
  ((between? '\'' cs).or (between? '"' cs)).getD cs

end Text

namespace Value

/-- The value of a type that a literal stands for. -/
def ofLiteral? (type : ColumnType) (cs : List Char) : Option Value :=
  if Text.lowerCase cs = ['n', 'u', 'l', 'l'] then some null
  else
    match type with
    | .boolean =>
      match String.ofList cs with
      | "true" => some (bool true)
      | "false" => some (bool false)
      | _ => none
    | .int32 =>
      (Text.integerWithin? Int32.minValue.toInt Int32.maxValue.toInt cs).map fun n =>
        int32 (Int32.ofInt n)
    | .int64 =>
      (Text.integerWithin? Int64.minValue.toInt Int64.maxValue.toInt cs).map fun n =>
        int64 (Int64.ofInt n)
    | .float32 => (Ieee.ofText? .single cs).map float32
    | .float64 => (Ieee.ofText? .double cs).map float64
    | .text => some (text (String.ofList (Text.unquote cs)))
    | .bytes => some (bytes (String.ofList (Text.unquote cs)).toUTF8.toList)

end Value

namespace Predicate

/-! ### Conditions -/

/-- The conditions of a filter text, without the blanks around them. -/
def clauses (cs : List Char) : List (List Char) :=
  ((Text.pieces Text.sameLetter ' ' "and ".toList cs).map Text.trim).filter (!·.isEmpty)

/-- The operators of filter text, in the order in which they are looked for. -/
def operators : List Comparison := [.eq, .ne, .le, .ge, .lt, .gt]

/-- The first operator of the list that occurs in a condition, and what stands before and after its
first occurrence. -/
def splitOperator? (cs : List Char) : List Comparison → Option (Comparison × List Char × List Char)
  | [] => none
  | op :: ops =>
    match Text.cut? (· == ·) op.symbol.toList cs with
    | some (before, rest) => some (op, before, rest)
    | none => splitOperator? cs ops

/-- Reads a simple condition. -/
def ofClause (schema : Schema) (text : List Char) : Except Error Predicate :=
  let cs := Text.trim text
  match Text.stripBack? Text.sameLetter " IS NOT NULL".toList cs with
  | some front => do
    let column := String.ofList (Text.trim front)
    let _ ← schema.require column
    return not (isNull column)
  | none =>
    match Text.stripBack? Text.sameLetter " IS NULL".toList cs with
    | some front => do
      let column := String.ofList (Text.trim front)
      let _ ← schema.require column
      return isNull column
    | none =>
      match splitOperator? cs operators with
      | none => .error (.unreadableFilter (String.ofList text))
      | some (op, before, rest) => do
        let column := String.ofList (Text.trim before)
        let literal := Text.trim rest
        let target ← schema.columnNamed column
        match Value.ofLiteral? target.type literal with
        | some v => return compare column op v
        | none =>
          .error (.typeMismatch column target.type s!"literal '{String.ofList literal}'")

/-- Reads the filter text of a query: a conjunction of simple conditions. -/
def ofText (schema : Schema) (text : String) : Except Error Predicate :=
  match clauses text.toList with
  | [] => .error .emptyFilter
  | first :: rest => do
    let p ← ofClause schema first
    rest.foldlM (fun p clause => do return and p (← ofClause schema clause)) p

end Predicate

end RelQuery
