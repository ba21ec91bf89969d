import RelQuery.Ieee.Number
import RelQuery.Text

/-!
# RelQuery.Decimal

Floating-point numbers as decimal text.

**Writing.** The text of a number has the fewest digits that read back as the same number, and of
those the ones nearest to it. A finite magnitude stands for a real number `v`, and the reals that
round to it form an interval around `v`. For one digit, two digits and so on, the two neighbours of
`v` on the decimal grid with that many digits are tested; the first grid with a neighbour in the
interval gives the digits. If both neighbours are inside, the nearer one wins, and the upper one at
equal distance. Seventeen digits always suffice. All of it is arithmetic on naturals, so there is no
rounding to argue about. The layout is positional at every size: no exponent is ever written, and a
whole number has no decimal point.

**Reading.** The grammar is: an optional sign; then `inf`, `infinity` or `nan` in any case, or
digits with at most one decimal point among or beside them and at least one digit in all, followed
by an optional exponent, which is a letter `e` in either case, an optional sign and at least one
digit. Blanks and separators have no place in it. The number read is the one nearest to the decimal,
a tie going to the even neighbour.
-/

namespace RelQuery

/-! ### Writing -/

namespace Decimal

/-- `num * 10 ^ e / den` as a pair of naturals, whatever the sign of `e`. -/
def scaleByTen (num den : Nat) (e : Int) : Nat × Nat :=
  (num * Nat.pow 10 e.toNat, den * Nat.pow 10 (-e).toNat)

/-- Decimal digits of a natural number; zero has one. -/
def digitCount (n : Nat) : Nat :=
  (Nat.toDigits 10 n).length

/-- The exponent `e` with `10 ^ e ≤ num / den < 10 ^ (e + 1)`, for positive `num` and `den`. -/
def floorLogTen (num den : Nat) : Int :=
  let e : Int := (digitCount num : Int) - (digitCount den : Int)
  let (n, d) := scaleByTen num den (-e)
  if d ≤ n then e else e - 1

/-- A positive decimal number: `digits * 10 ^ exponent`. -/
structure Number where
  /-- The digits, read as a natural number. -/
  digits : Nat
  /-- The power of ten that the last digit counts. -/
  exponent : Int
deriving DecidableEq, Repr

/-- The reals that round to one magnitude, in quarters of its unit: `low ≤ 4 * v ≤ high`, with the
ends inside or not. -/
structure Interval where
  /-- Four times the number itself. -/
  centre : Nat
  low : Nat
  high : Nat
  /-- Whether the ends round to the magnitude, too. -/
  closed : Bool
  /-- The power of two that one quarter counts. -/
  exponent : Int

/-- The interval of a finite, positive magnitude. Below a power of two the neighbour is only half as
far away; the ends belong to the number with an even significand. -/
def Interval.of (f : Format) (magnitude : Nat) : Interval :=
  let m := f.significand magnitude
  { centre := 4 * m
    low := 4 * m - if m = f.fractions then 1 else 2
    high := 4 * m + 2
    closed := m % 2 == 0
    exponent := f.unitExponent magnitude - 2 }

/-- The neighbour on the grid of `count` digits that lies in the interval, if one does. Above a row
of nines the next neighbour is a power of ten, which needs one digit only. -/
def Interval.onGrid? (i : Interval) (count : Nat) : Option Number :=
  let (un, ud) := scaleByTwo 1 1 i.exponent
  let exponent := floorLogTen (i.centre * un) ud + 1 - count
  let (gn, gd) := scaleByTen 1 1 exponent
  -- Over a common denominator, a quarter counts `unit` and a step of the grid counts `grid`.
  let unit := un * gd
  let grid := gn * ud
  let inside (d : Nat) : Bool :=
    if i.closed then i.low * unit ≤ d * grid && d * grid ≤ i.high * unit
    else i.low * unit < d * grid && d * grid < i.high * unit
  let below := i.centre * unit / grid
  let above : Number :=
    if below + 1 = Nat.pow 10 count then ⟨1, exponent + count⟩ else ⟨below + 1, exponent⟩
  match inside below, inside (below + 1) with
  | true, true =>
    some (if 2 * (i.centre * unit) < (2 * below + 1) * grid then ⟨below, exponent⟩ else above)
  | true, false => some ⟨below, exponent⟩
  | false, true => some above
  | false, false => none

/-- The shortest decimal that reads back as this finite, positive magnitude. -/
def shortest (f : Format) (magnitude : Nat) : Number :=
  let i := Interval.of f magnitude
  ((List.range' 1 17).findSome? i.onGrid?).getD ⟨i.centre, 0⟩

/-- Positional layout: zeros fill the places between the digits and the decimal point. -/
def Number.layout (x : Number) : List Char :=
  let digits := Nat.toDigits 10 x.digits
  let whole : Int := digits.length + x.exponent
  if 0 ≤ x.exponent then digits ++ List.replicate x.exponent.toNat '0'
  else if 0 < whole then digits.take whole.toNat ++ '.' :: digits.drop whole.toNat
  else '0' :: '.' :: (List.replicate (-whole).toNat '0' ++ digits)

end Decimal

namespace Ieee

variable {f : Format}

/-- The text of a number: its shortest decimal, laid out positionally. -/
def text (x : Ieee f) : String :=
  if x.isNaN then "NaN"
  else
    let sign := if x.isNegative then "-" else ""
    if x.magnitude = 0 then sign ++ "0"
    else if x.isFinite then
      sign ++ String.ofList (Decimal.shortest f x.magnitude).layout
    else sign ++ "inf"

end Ieee

/-! ### Reading -/

namespace Decimal

/-- Decimal exponents beyond which a number is infinite, or below whose negative it is zero, in
every format of this library. -/
def exponentBound : Int := 400

/-- The number of format `f` nearest to `digits * 10 ^ exponent`, with this sign. -/
def nearest (f : Format) (negative : Bool) (x : Number) : Ieee f :=
  let size := digitCount x.digits + x.exponent
  Ieee.ofParts f negative <|
    if x.digits = 0 || size < -exponentBound then 0
    else if exponentBound < size then f.infinity
    else
      let (num, den) := scaleByTen x.digits 1 x.exponent
      f.nearest num den

/-- An optional sign and the text after it. -/
def takeSign : List Char → Bool × List Char
  | '-' :: cs => (true, cs)
  | '+' :: cs => (false, cs)
  | cs => (false, cs)

/-- The exponent at the end of a number: nothing, or a mark with at least one digit. -/
def exponent? : List Char → Option Int
  | [] => some 0
  | c :: cs =>
    if c.toLower == 'e' then
      let (negative, digits) := takeSign cs
      (Text.digits? digits).map fun n => if negative then -(n : Int) else n
    else none

/-- A decimal number without its sign. -/
def number? (cs : List Char) : Option Number :=
  let (whole, rest) := (cs.takeWhile Char.isDigit, cs.dropWhile Char.isDigit)
  let (fraction, rest) : List Char × List Char :=
    match rest with
    | '.' :: rest => (rest.takeWhile Char.isDigit, rest.dropWhile Char.isDigit)
    | rest => ([], rest)
  do
    let digits ← Text.digits? (whole ++ fraction)
    let exponent ← exponent? rest
    return ⟨digits, exponent - fraction.length⟩

end Decimal

namespace Ieee

/-- The number that a decimal text stands for. -/
def ofText? (f : Format) (cs : List Char) : Option (Ieee f) :=
  let (negative, cs) := Decimal.takeSign cs
  match String.ofList (Text.lowerCase cs) with
  | "nan" => some nan
  | "inf" | "infinity" => some (ofParts f negative f.infinity)
  | _ => (Decimal.number? cs).map (Decimal.nearest f negative)

end Ieee

end RelQuery
