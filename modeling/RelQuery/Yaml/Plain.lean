import RelQuery.Data
import RelQuery.Decimal

/-!
# RelQuery.Yaml.Plain

What plain scalars stand for.

A plain scalar without a tag is nothing, a truth value, an integer, a number with a fraction, or a
text, in this order. Integers are written with an optional sign, in decimal or behind `0x`, `0o` or
`0b`; digits behind a leading zero are a text. Integers that do not fit in 64 bits have no data
form, unless they are so large that 128 bits do not hold them either, when they are numbers with a
fraction.
-/

namespace RelQuery.Yaml.Plain

/-- Whether a text stands for nothing. -/
def isNull (text : String) : Bool :=
  ["null", "Null", "NULL", "~"].contains text

/-- The truth value that a text stands for. -/
def bool? (text : String) : Option Bool :=
  if ["true", "True", "TRUE"].contains text then some true
  else if ["false", "False", "FALSE"].contains text then some false
  else none

/-! ### Integers -/

/-- The value of a non-empty run of digits below a radix. -/
def digits? (radix : Nat) (cs : List Char) : Option Nat :=
  if cs.isEmpty then none
  else cs.foldlM (fun n c => do
    let digit ← Bytes.hexValue? c
    if digit < radix then some (radix * n + digit) else none) 0

/-- Whether a run of digits starts with a zero that is not alone. -/
def hasLeadingZero : List Char → Bool
  | '0' :: c :: cs => (c :: cs).all Char.isDigit
  | _ => false

/-- An integer without a sign. -/
def magnitude? : List Char → Option Nat
  | '0' :: 'x' :: cs => digits? 16 cs
  | '0' :: 'o' :: cs => digits? 8 cs
  | '0' :: 'b' :: cs => digits? 2 cs
  | cs => if hasLeadingZero cs then none else digits? 10 cs

/-- An integer with an optional sign. -/
def integer? : List Char → Option Int
  | '-' :: cs => (magnitude? cs).map fun n => -(n : Int)
  | '+' :: cs => (magnitude? cs).map fun n => (n : Int)
  | cs => (magnitude? cs).map fun n => (n : Int)

/-- Whether an integer fits in so many bits, with a sign or without. -/
def fits (bits : Nat) (n : Int) : Bool :=
  -(Nat.pow 2 (bits - 1) : Int) ≤ n && n < Nat.pow 2 bits

/-- An integer that fits in 64 bits without a sign, and is not written with a minus sign. -/
def count? (text : String) : Option UInt64 :=
  match text.toList with
  | '-' :: _ => none
  | cs =>
    match integer? cs with
    | some n => if n < UInt64.size then some (UInt64.ofNat n.toNat) else none
    | none => none

/-! ### Numbers with a fraction -/

/-- The words for numbers that are not finite. -/
def specialNumbers : List (String × Binary64) :=
  let infinity := Ieee.ofParts .double false Format.double.infinity
  let minusInfinity := Ieee.ofParts .double true Format.double.infinity
  [(".inf", infinity), (".Inf", infinity), (".INF", infinity),
    ("+.inf", infinity), ("+.Inf", infinity), ("+.INF", infinity),
    ("-.inf", minusInfinity), ("-.Inf", minusInfinity), ("-.INF", minusInfinity),
    (".nan", Ieee.nan), (".NaN", Ieee.nan), (".NAN", Ieee.nan)]

/-- A finite number in decimal, with at most one sign. -/
def decimal? (cs : List Char) : Option Binary64 :=
  let cs := match cs with
    | '+' :: '+' :: _ | '+' :: '-' :: _ => []
    | '+' :: cs => cs
    | cs => cs
  (Ieee.ofText? .double cs).filter Ieee.isFinite

/-- The number that a text stands for: a word for a special one, or a decimal. -/
def float? (text : String) : Option Binary64 :=
  (specialNumbers.lookup text).or (decimal? text.toList)

/-- Whether a text is digits that are no number because of a leading zero. -/
def isPadded (text : String) : Bool :=
  match text.toList with
  | '-' :: cs | '+' :: cs | cs => hasLeadingZero cs

/-! ### Data -/

/-- The integer that a text stands for, if 128 bits are enough for it. -/
def wideInteger? (text : String) : Option Int :=
  (integer? text.toList).filter (fits 128)

/-- The data of an integer that a text stands for, if it has a data form. A zero behind a minus sign
keeps its sign, which only a number with a fraction can have. -/
def integerData? (text : String) (n : Int) : Option Data :=
  if n = 0 && text.toList.head? == some '-' then some (.float (Ieee.ofParts .double true 0))
  else if fits 64 n then some (.int n)
  else none

/-- The data that a plain scalar stands for. -/
def data? (text : String) : Option Data :=
  if text.isEmpty || isNull text then some .null
  else
    match bool? text, wideInteger? text with
    | some b, _ => some (.bool b)
    | none, some n => integerData? text n
    | none, none =>
      if isPadded text then some (.text text)
      else
        match float? text with
        | some x => some (.float x)
        | none => some (.text text)

end RelQuery.Yaml.Plain
