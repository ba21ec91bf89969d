import RelQuery.ColumnType
import RelQuery.Decimal

/-!
# RelQuery.Value

The values that rows are made of.

A value is null or carries its own type. Values have one total order, `Value.order`, under which
null comes first, values of different types are ordered by type, and values of one type by what
they stand for; the floating-point types use `Ieee.order`, so that all NaNs are one value above
infinity and the two zeros are one value. *Equality of values* everywhere in this library, for
grouping, joining and counting, means equality under this order (`Value.same`), which is coarser
than equality of bits.
-/

namespace RelQuery

/-- A cell of a row. -/
inductive Value where
  /-- The absent value, which belongs to no type. -/
  | null
  | bool (b : Bool)
  | int32 (n : Int32)
  | int64 (n : Int64)
  | float32 (x : Binary32)
  | float64 (x : Binary64)
  | text (s : String)
  | bytes (bs : List UInt8)
deriving DecidableEq, Repr, Inhabited

namespace Value

/-- The type a value belongs to; null belongs to none. -/
def type? : Value → Option ColumnType
  | null => none
  | bool _ => some .boolean
  | int32 _ => some .int32
  | int64 _ => some .int64
  | float32 _ => some .float32
  | float64 _ => some .float64
  | text _ => some .text
  | bytes _ => some .bytes

/-- The name of a value's type in messages. -/
def typeName (v : Value) : String :=
  match v.type? with
  | none => "Null"
  | some t => t.name

/-- Whether a value is missing. -/
def isNull : Value → Bool
  | null => true
  | _ => false

/-- The number nearest to a numeric value. -/
def toBinary64? : Value → Option Binary64
  | int32 n => some (Ieee.ofInt .double n.toInt)
  | int64 n => some (Ieee.ofInt .double n.toInt)
  | float32 x => some (Binary32.toBinary64 x)
  | float64 x => some x
  | _ => none

/-- The integer that an integer value stands for. -/
def toInt? : Value → Option Int
  | int32 n => some n.toInt
  | int64 n => some n.toInt
  | _ => none

/-- The truth value that a value stands for. -/
def toBool? : Value → Option Bool
  | bool b => some b
  | _ => none

/-- The text that a text value stands for. -/
def toText? : Value → Option String
  | text s => some s
  | _ => none

/-! ### Order -/

/-- The place of a value's type in the order of types; null comes first. -/
def typeRank : Value → Nat
  | null => 0
  | bool _ => 1
  | int32 _ => 2
  | int64 _ => 3
  | float32 _ => 4
  | float64 _ => 5
  | text _ => 6
  | bytes _ => 7

/-- The total order of values: by type, and within a type by what they stand for. Text is ordered
by code points and bytes lexicographically. -/
def order : Value → Value → Ordering
  | bool a, bool b => compare a b
  | int32 a, int32 b => compare a.toInt b.toInt
  | int64 a, int64 b => compare a.toInt b.toInt
  | float32 a, float32 b => a.order b
  | float64 a, float64 b => a.order b
  | text a, text b => compare a b
  | bytes a, bytes b => compare a b
  | a, b => compare a.typeRank b.typeRank

/-- Equality under the order. -/
def same (a b : Value) : Bool :=
  a.order b == .eq

/-- Equality of tuples of values, position by position. -/
def sameAll : List Value → List Value → Bool
  | [], [] => true
  | a :: as, b :: bs => a.same b && sameAll as bs
  | _, _ => false

/-- The values of a list without those that are the same as an earlier one. -/
def distinct (vs : List Value) : List Value :=
  vs.foldl (fun seen v => if seen.any (·.same v) then seen else seen ++ [v]) []

/-! ### Hashing -/

/-- The bytes that a hash of the value is computed from: the place of its type, then what it stands
for. Floating-point numbers contribute their canonical form, widened to 64 bits. -/
def hashInput : Value → List UInt8
  | null => [0]
  | bool b => [1, if b then 1 else 0]
  | int32 n => 2 :: Bytes.littleEndian 4 n.toUInt32.toNat
  | int64 n => 3 :: Bytes.littleEndian 8 n.toUInt64.toNat
  | float32 x => 4 :: Bytes.littleEndian 8 (Binary32.toBinary64 x).canonical.bits.toNat
  | float64 x => 5 :: Bytes.littleEndian 8 x.canonical.bits.toNat
  | text s => 6 :: (s.toUTF8.toList ++ [0xFF])
  | bytes bs => 7 :: (Bytes.littleEndian 8 bs.length ++ bs)

instance : Hashable Value := ⟨fun v => hash v.hashInput⟩

/-! ### Text -/

/-- The text of a value; a text is its own. -/
def render : Value → String
  | null => "null"
  | bool b => if b then "true" else "false"
  | int32 n => toString n.toInt
  | int64 n => toString n.toInt
  | float32 x => x.text
  | float64 x => x.text
  | text s => s
  | bytes bs => "[" ++ ", ".intercalate (bs.map fun b => toString b.toNat) ++ "]"

/-- The text of a value inside an expression, where text stands between quotes, but unescaped. -/
def literal : Value → String
  | text s => "'" ++ s ++ "'"
  | v => v.render

@[simp] theorem isNull_null : null.isNull = true := rfl

theorem isNull_iff {v : Value} : v.isNull = true ↔ v = null := by
  cases v <;> simp [isNull]

theorem type?_eq_none_iff {v : Value} : v.type? = none ↔ v = null := by
  cases v <;> simp [type?]

end Value

end RelQuery
