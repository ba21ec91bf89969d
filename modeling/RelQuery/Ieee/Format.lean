/-!
# RelQuery.Ieee.Format

The binary interchange formats of IEEE 754 and rounding into them.

A number is stored as a sign, an exponent field and a fraction field. Without its sign bit the
stored word is called a *magnitude*. Magnitudes are natural numbers, and the order of the numbers
they stand for is the order of those naturals: that is why a rounded significand may overflow into
the exponent field and still denote the right number, and why comparison needs no decoding.

Design points:

* Everything here is exact arithmetic on `Nat` and `Int`, so that a conversion can be computed
  inside a proof.
* There is one rounding function, `nearest`: the magnitude closest to a quotient of naturals, a tie
  going to the even one. Every conversion of the library (from an integer, from decimal text, from
  the other format) is that function at the value to be converted.
-/

namespace RelQuery

/-- An interchange format, given by the widths of its two fields. -/
structure Format where
  /-- Bits of the fraction field; the leading one of a normal number is not stored. -/
  fractionBits : Nat
  /-- Bits of the biased exponent field. -/
  exponentBits : Nat
deriving DecidableEq, Repr

namespace Format

/-- The 32-bit format. -/
def single : Format := ⟨23, 8⟩

/-- The 64-bit format. -/
def double : Format := ⟨52, 11⟩

/-- Bits of a magnitude. -/
def magnitudeBits (f : Format) : Nat := f.exponentBits + f.fractionBits

/-- What the sign bit of a word counts; every magnitude is below it. -/
def signWeight (f : Format) : Nat := Nat.pow 2 f.magnitudeBits

/-- The number of fractions that share one exponent field. -/
def fractions (f : Format) : Nat := Nat.pow 2 f.fractionBits

/-- The magnitude of infinity; every larger magnitude is not a number. -/
def infinity (f : Format) : Nat := (Nat.pow 2 f.exponentBits - 1) * f.fractions

/-- The magnitude of the quiet NaN with an empty payload. -/
def quietNaN (f : Format) : Nat := f.infinity + f.fractions / 2

/-- The exponent of the smallest positive number, which is a power of two. -/
def lowestExponent (f : Format) : Int :=
  2 - (Nat.pow 2 (f.exponentBits - 1) : Int) - f.fractionBits

/-- The integer significand of a finite magnitude, with the leading one that is not stored. -/
def significand (f : Format) (magnitude : Nat) : Nat :=
  magnitude % f.fractions + if magnitude < f.fractions then 0 else f.fractions

/-- The power of two that the significand of a finite magnitude counts. The exponent fields zero
and one share it. -/
def unitExponent (f : Format) (magnitude : Nat) : Int :=
  f.lowestExponent + ((magnitude / f.fractions - 1 : Nat) : Int)

end Format

/-- The integer nearest to `num / den`; a tie goes to the even neighbour. -/
def roundDiv (num den : Nat) : Nat :=
  let below := num / den
  match compare (2 * (num % den)) den with
  | .lt => below
  | .eq => below + below % 2
  | .gt => below + 1

/-- `num * 2 ^ e / den` as a pair of naturals, whatever the sign of `e`. -/
def scaleByTwo (num den : Nat) (e : Int) : Nat × Nat :=
  (num * Nat.pow 2 e.toNat, den * Nat.pow 2 (-e).toNat)

/-- The exponent `e` with `2 ^ e ≤ num / den < 2 ^ (e + 1)`, for positive `num` and `den`. -/
def floorLogTwo (num den : Nat) : Int :=
  let e : Int := (num.log2 : Int) - (den.log2 : Int)
  let (n, d) := scaleByTwo num den (-e)
  if d ≤ n then e else e - 1

namespace Format

/-- The magnitude nearest to `num / den`, for a positive `den`: a tie goes to the even magnitude,
and what is too large becomes infinity. -/
def nearest (f : Format) (num den : Nat) : Nat :=
  if num = 0 then 0
  else
    let e := max (floorLogTwo num den - f.fractionBits) f.lowestExponent
    let (n, d) := scaleByTwo num den (-e)
    min ((e - f.lowestExponent).toNat * f.fractions + roundDiv n d) f.infinity

end Format

end RelQuery
