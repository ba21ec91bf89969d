/-!
# RelQuery.ColumnType

The types a column can be declared with.
-/

namespace RelQuery

/-- The declared type of a column. -/
inductive ColumnType where
  | boolean
  | int32
  | int64
  | float32
  | float64
  | text
  | bytes
deriving DecidableEq, Repr, Inhabited

namespace ColumnType

/-- The column types. -/
def all : List ColumnType := [boolean, int32, int64, float32, float64, text, bytes]

/-- The name of a type, as it is written in messages and in data. -/
def name : ColumnType → String
  | boolean => "Boolean"
  | int32 => "Int32"
  | int64 => "Int64"
  | float32 => "Float32"
  | float64 => "Float64"
  | text => "Utf8"
  | bytes => "Binary"

/-- Short names that a document may use in place of the full one. -/
def shortNames : ColumnType → List String
  | boolean => ["bool"]
  | int32 => ["i32"]
  | int64 => ["i64"]
  | float32 => ["f32"]
  | float64 => ["f64"]
  | text => ["str", "string"]
  | bytes => ["bytes"]

/-- The type with this full or short name, letter case included. -/
def ofName? (s : String) : Option ColumnType :=
  all.find? fun t => t.name == s || t.shortNames.contains s

/-- Integers and floating-point numbers. -/
def isNumeric : ColumnType → Bool
  | int32 | int64 | float32 | float64 => true
  | boolean | text | bytes => false

/-- Integers of either width. -/
def isInteger : ColumnType → Bool
  | int32 | int64 => true
  | boolean | float32 | float64 | text | bytes => false

end ColumnType

end RelQuery
