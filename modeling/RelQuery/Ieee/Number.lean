import RelQuery.Ieee.Format

/-!
# RelQuery.Ieee.Number

Floating-point numbers as bit patterns.

`Ieee f` is the type of the words of format `f`; `Binary32` and `Binary64` are its two instances.
Equality of this type is equality of bits. The order in which the query engine compares numbers is
`Ieee.order`: it is the numeric order, in which the two zeros are equal, extended by putting every
NaN at one place above infinity. It is read off `Ieee.rank`, an integer, so that it is a total
preorder by construction. `Ieee.partialOrder` is the numeric comparison, which has no answer for a
NaN.

Arithmetic is that of the machine (`Float`) on the same bits; conversions are exact computations
through `Format.nearest`.
-/

namespace RelQuery

/-- A word of an interchange format: a sign bit above a magnitude. -/
structure Ieee (f : Format) where
  bits : BitVec (f.magnitudeBits + 1)
deriving DecidableEq, Repr

/-- A number of the 32-bit format. -/
abbrev Binary32 := Ieee .single

/-- A number of the 64-bit format. -/
abbrev Binary64 := Ieee .double

namespace Ieee

variable {f : Format}

/-- The word with this sign and magnitude. -/
def ofParts (f : Format) (negative : Bool) (magnitude : Nat) : Ieee f :=
  ⟨BitVec.ofNat _ (magnitude + if negative then f.signWeight else 0)⟩

/-- The number with these bits. -/
def ofBits (f : Format) (bits : Nat) : Ieee f :=
  ⟨BitVec.ofNat _ bits⟩

/-- Whether the sign bit is set; zeros and NaNs have a sign, too. -/
def isNegative (x : Ieee f) : Bool :=
  f.signWeight ≤ x.bits.toNat

/-- The word without its sign bit. -/
def magnitude (x : Ieee f) : Nat :=
  x.bits.toNat % f.signWeight

/-- Whether the word stands for no number. -/
def isNaN (x : Ieee f) : Bool :=
  f.infinity < x.magnitude

/-- Whether the word stands for a real number. -/
def isFinite (x : Ieee f) : Bool :=
  x.magnitude < f.infinity

instance : Inhabited (Ieee f) := ⟨⟨0⟩⟩

/-- Positive zero. -/
def zero : Ieee f := ⟨0⟩

/-- The quiet NaN with a clear sign and an empty payload. -/
def nan : Ieee f := ofParts f false f.quietNaN

/-- The place of a word in the order: its magnitude with its sign, and one place above every
magnitude for all NaNs. Both zeros have place zero. -/
def rank (x : Ieee f) : Int :=
  if x.isNaN then f.signWeight
  else if x.isNegative then -(x.magnitude : Int)
  else x.magnitude

/-- The total order: numeric, with the zeros equal, and all NaNs equal above infinity. -/
def order (x y : Ieee f) : Ordering :=
  compare x.rank y.rank

/-- The numeric comparison; there is none with a NaN. -/
def partialOrder (x y : Ieee f) : Option Ordering :=
  if x.isNaN || y.isNaN then none else some (compare x.rank y.rank)

/-- One word for each place in the order: the quiet NaN for a NaN, positive zero for a zero. -/
def canonical (x : Ieee f) : Ieee f :=
  if x.isNaN then nan else if x.magnitude = 0 then zero else x

/-- The number nearest to an integer. -/
def ofInt (f : Format) (n : Int) : Ieee f :=
  ofParts f (n < 0) (f.nearest n.natAbs 1)

/-- The number nearest to a number of another format. A NaN stays a NaN. -/
def convert {f : Format} (g : Format) (x : Ieee f) : Ieee g :=
  if x.isNaN then nan
  else if x.isFinite then
    let (num, den) := scaleByTwo (f.significand x.magnitude) 1 (f.unitExponent x.magnitude)
    ofParts g x.isNegative (g.nearest num den)
  else ofParts g x.isNegative g.infinity

end Ieee

namespace Binary32

/-- The same number in more bits. -/
def toBinary64 (x : Binary32) : Binary64 := x.convert .double

end Binary32

namespace Binary64

/-- The machine's number with these bits. -/
def toFloat (x : Binary64) : Float := Float.ofBits (UInt64.ofNat x.bits.toNat)

/-- The bits of a machine's number. -/
def ofFloat (x : Float) : Binary64 := Ieee.ofBits .double x.toBits.toNat

/-- Sum, rounded to nearest. -/
protected def add (x y : Binary64) : Binary64 := ofFloat (x.toFloat + y.toFloat)

/-- Difference, rounded to nearest. -/
protected def sub (x y : Binary64) : Binary64 := ofFloat (x.toFloat - y.toFloat)

/-- Product, rounded to nearest. -/
protected def mul (x y : Binary64) : Binary64 := ofFloat (x.toFloat * y.toFloat)

/-- Quotient, rounded to nearest. -/
protected def div (x y : Binary64) : Binary64 := ofFloat (x.toFloat / y.toFloat)

/-- The square root, rounded to the nearest number. -/
def sqrt (x : Binary64) : Binary64 := ofFloat x.toFloat.sqrt

instance : Add Binary64 := ⟨Binary64.add⟩
instance : Sub Binary64 := ⟨Binary64.sub⟩
instance : Mul Binary64 := ⟨Binary64.mul⟩
instance : Div Binary64 := ⟨Binary64.div⟩

/-- The number nearest to a natural number. -/
def ofNat (n : Nat) : Binary64 := Ieee.ofInt .double n

end Binary64

end RelQuery
