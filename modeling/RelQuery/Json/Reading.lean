import RelQuery.Data
import RelQuery.Decimal

/-!
# RelQuery.Json.Reading

JSON texts read as data.

The reader follows the grammar of JSON to the letter: no comments, no trailing commas, no control
characters in strings, and escapes of surrogates only in pairs. Each function takes a text from the
front and gives what it read with the rest; the readers of nested values take a bound on the depth
of their calls, for which the length of the text is enough.

A number without fraction and exponent is an integer as long as it fits in 64 bits, with or without
a sign. Every other number, and the integer zero with a minus sign, is a 64-bit floating-point
number. It is made of its *leading digits*, as many as fit in 64 bits, rounded to a floating-point
number and then scaled by a power of ten; both steps round, so in the last bit the result may differ
from the number nearest to the text. A number whose scaling overflows is refused.
-/

namespace RelQuery.Json

/-! ### Numbers -/

/-- The leading digits of a number, and how many places they are to be moved to the left. -/
structure Leading where
  digits : Nat
  /-- The power of ten they are multiplied by. -/
  shift : Int

namespace Leading

/-- One more digit in front of the decimal point. Once digits no longer fit, the rest only moves
those that did. The flag tells whether that has happened. -/
def pushWhole (x : Leading) (full : Bool) (d : Nat) : Leading × Bool :=
  if full || UInt64.size ≤ 10 * x.digits + d then ({ x with shift := x.shift + 1 }, true)
  else ({ x with digits := 10 * x.digits + d }, false)

/-- One more digit behind the decimal point; those that no longer fit are dropped. -/
def pushFraction (x : Leading) (full : Bool) (d : Nat) : Leading × Bool :=
  if full || UInt64.size ≤ 10 * x.digits + d then (x, true)
  else (⟨10 * x.digits + d, x.shift - 1⟩, false)

/-- Pushes a run of digits. -/
def pushAll (push : Leading → Bool → Nat → Leading × Bool) (x : Leading) (cs : List Char) :
    Leading × Bool :=
  cs.foldl (fun (x, full) c => push x full (c.toNat - '0'.toNat)) (x, false)

/-- The power of ten with this exponent, as a floating-point number. -/
def powerOfTen (n : Nat) : Binary64 :=
  Decimal.nearest .double false ⟨1, n⟩

/-- The greatest power of ten that is finite. -/
def greatestPower : Nat := 308

/-- Divides by a power of ten, in steps of the greatest one. -/
def scaleDown (steps : Nat) (x : Binary64) (n : Nat) : Binary64 :=
  match steps with
  | 0 => x
  | steps + 1 =>
    if n ≤ greatestPower then x / powerOfTen n
    else if x.magnitude = 0 then x
    else scaleDown steps (x / powerOfTen greatestPower) (n - greatestPower)

/-- The floating-point number; none if it is too large. -/
def toBinary64? (x : Leading) : Option Binary64 :=
  let digits := Binary64.ofNat x.digits
  if x.shift < 0 then some (scaleDown 4 digits (-x.shift).toNat)
  else if x.digits = 0 then some digits
  else if greatestPower < x.shift.toNat then none
  else
    let y := digits * powerOfTen x.shift.toNat
    if y.isFinite then some y else none

end Leading

/-- The data of a number, given as its sign and the digits of its parts. -/
def number? (negative : Bool) (whole : List Char) (fraction : Option (List Char))
    (exponent : Option Int) : Option Data :=
  let (lead, full) := Leading.pushAll Leading.pushWhole ⟨0, 0⟩ whole
  let signed (x : Binary64) : Data :=
    .float (Ieee.ofParts .double negative x.magnitude)
  match fraction, exponent with
  | none, none =>
    if full then lead.toBinary64?.map signed
    else if !negative then some (.int lead.digits)
    else if lead.digits = 0 || -(lead.digits : Int) < Int64.minValue.toInt then
      some (signed (Binary64.ofNat lead.digits))
    else some (.int (-lead.digits))
  -- A number that is not whole: digits behind the point go on from those in front of it.
  | _, _ =>
    let (lead, _) := Leading.pushAll Leading.pushFraction lead (fraction.getD [])
    ({ lead with shift := lead.shift + exponent.getD 0 } : Leading).toBinary64?.map signed

/-- A non-empty run of digits. -/
def digitRun? (cs : List Char) : Option (List Char × List Char) :=
  match cs.takeWhile Char.isDigit with
  | [] => none
  | run => some (run, cs.dropWhile Char.isDigit)

/-- The fraction of a number, if it has one. -/
def fraction? : List Char → Option (Option (List Char) × List Char)
  | '.' :: cs => (digitRun? cs).map fun (run, rest) => (some run, rest)
  | cs => some (none, cs)

/-- The exponent of a number, if it has one. -/
def exponent? : List Char → Option (Option Int × List Char)
  | c :: cs =>
    if c = 'e' || c = 'E' then do
      let (negative, cs) := Decimal.takeSign cs
      let (run, rest) ← digitRun? cs
      let n ← Text.digits? run
      return (some (if negative then -(n : Int) else n), rest)
    else some (none, c :: cs)
  | [] => some (none, [])

/-- A number. A leading zero stands alone. -/
def numeral? (cs : List Char) : Option (Data × List Char) := do
  let (negative, cs) := match cs with
    | '-' :: cs => (true, cs)
    | cs => (false, cs)
  let (whole, cs) ← match cs with
    | '0' :: cs => some (['0'], cs)
    | cs => digitRun? cs
  let (fraction, cs) ← fraction? cs
  let (exponent, cs) ← exponent? cs
  let d ← number? negative whole fraction exponent
  return (d, cs)

/-! ### Strings -/

/-- Four hexadecimal digits. -/
def hex4? : List Char → Option (Nat × List Char)
  | a :: b :: c :: d :: cs => do
    let a ← Bytes.hexValue? a
    let b ← Bytes.hexValue? b
    let c ← Bytes.hexValue? c
    let d ← Bytes.hexValue? d
    return (((a * 16 + b) * 16 + c) * 16 + d, cs)
  | _ => none

/-- The character of an escape, whose text starts behind the backslash. -/
def escape? : List Char → Option (Char × List Char)
  | '"' :: cs => some ('"', cs)
  | '\\' :: cs => some ('\\', cs)
  | '/' :: cs => some ('/', cs)
  | 'b' :: cs => some ('\x08', cs)
  | 'f' :: cs => some ('\x0c', cs)
  | 'n' :: cs => some ('\n', cs)
  | 'r' :: cs => some ('\r', cs)
  | 't' :: cs => some ('\t', cs)
  | 'u' :: cs => do
    let (high, cs) ← hex4? cs
    if 0xDC00 ≤ high && high < 0xE000 then none
    else if 0xD800 ≤ high && high < 0xDC00 then
      match cs with
      | '\\' :: 'u' :: cs => do
        let (low, cs) ← hex4? cs
        if 0xDC00 ≤ low && low < 0xE000 then
          return (Char.ofNat (0x10000 + (high - 0xD800) * 0x400 + (low - 0xDC00)), cs)
        else none
      | _ => none
    else return (Char.ofNat high, cs)
  | _ => none

/-- The characters of a string up to its closing quote, and the rest behind it. -/
def stringBody? (fuel : Nat) (cs : List Char) : Option (List Char × List Char) :=
  match fuel, cs with
  | fuel + 1, c :: cs =>
    if c = '"' then some ([], cs)
    else if c.toNat < 0x20 then none
    else do
      let (c, cs) ← if c = '\\' then escape? cs else some (c, cs)
      let (body, rest) ← stringBody? fuel cs
      return (c :: body, rest)
  | _, _ => none

/-- A text behind its opening quote, and what follows its closing one. -/
def string? (cs : List Char) : Option (String × List Char) := do
  let (body, rest) ← stringBody? (cs.length + 1) cs
  return (String.ofList body, rest)

/-! ### Values -/

/-- The rest of a text after its leading blanks. -/
def skipBlanks (cs : List Char) : List Char :=
  cs.dropWhile fun c => c = ' ' || c = '\t' || c = '\n' || c = '\r'

mutual

/-- A value, with blanks in front. -/
def value? (fuel : Nat) (cs : List Char) : Option (Data × List Char) :=
  match fuel with
  | 0 => none
  | fuel + 1 =>
    match skipBlanks cs with
    | 'n' :: 'u' :: 'l' :: 'l' :: cs => some (.null, cs)
    | 't' :: 'r' :: 'u' :: 'e' :: cs => some (.bool true, cs)
    | 'f' :: 'a' :: 'l' :: 's' :: 'e' :: cs => some (.bool false, cs)
    | '"' :: cs => (string? cs).map fun (s, rest) => (.text s, rest)
    | '[' :: cs =>
      match skipBlanks cs with
      | ']' :: cs => some (.list [], cs)
      | cs => (elements? fuel cs).map fun (xs, rest) => (.list xs, rest)
    | '\x7b' :: cs =>
      match skipBlanks cs with
      | '\x7d' :: cs => some (.map [], cs)
      | cs => (members? fuel cs).map fun (entries, rest) => (.map entries, rest)
    | cs => numeral? cs

/-- The elements of a list, of which there is one at least, and its end. -/
def elements? (fuel : Nat) (cs : List Char) : Option (List Data × List Char) :=
  match fuel with
  | 0 => none
  | fuel + 1 => do
    let (x, cs) ← value? fuel cs
    match skipBlanks cs with
    | ']' :: cs => return ([x], cs)
    | ',' :: cs => do
      let (xs, cs) ← elements? fuel cs
      return (x :: xs, cs)
    | _ => none

/-- The entries of a map, of which there is one at least, and its end. -/
def members? (fuel : Nat) (cs : List Char) : Option (List (Data × Data) × List Char) :=
  match fuel with
  | 0 => none
  | fuel + 1 =>
    match skipBlanks cs with
    | '"' :: cs => do
      let (key, cs) ← string? cs
      match skipBlanks cs with
      | ':' :: cs => do
        let (v, cs) ← value? fuel cs
        match skipBlanks cs with
        | '\x7d' :: cs => return ([(.text key, v)], cs)
        | ',' :: cs => do
          let (entries, cs) ← members? fuel cs
          return ((.text key, v) :: entries, cs)
        | _ => none
      | _ => none
    | _ => none

end

/-- The data that a JSON text denotes. -/
def read? (s : String) : Option Data := do
  let cs := s.toList
  let (d, rest) ← value? (cs.length + 1) cs
  if (skipBlanks rest).isEmpty then return d else none

end RelQuery.Json
