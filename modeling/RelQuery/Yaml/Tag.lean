import RelQuery.Yaml.Spot

/-!
# RelQuery.Yaml.Tag

The tags of YAML nodes.

A tag says what a node stands for. It is a string of bytes: some of its characters may be written
as bytes, each one as a percent sign with two digits, and there only the pattern of first and
further bytes is checked, so the whole need not be a text. A tag ends at its first zero byte.

In front of a node, a tag is written as a *handle* and a *suffix*. A handle stands for the start of
a tag, and a directive can give it a meaning; without a handle, the suffix is the tag in full.
-/

namespace RelQuery.Yaml

/-- A tag, or a part of one. -/
structure Tag where
  bytes : List UInt8
deriving DecidableEq, Repr, Inhabited

namespace Tag

/-- The tag that starts with these bytes. -/
def ofBytes (bytes : List UInt8) : Tag := ⟨bytes.takeWhile (· != 0)⟩

/-- The tag that is written like this. -/
def ofText (s : String) : Tag := ofBytes (s.toList.flatMap String.utf8EncodeChar)

/-- A tag with another one behind it, as what a handle stands for is in front of a suffix. -/
def append (a b : Tag) : Tag := ⟨a.bytes ++ b.bytes⟩

/-- What the tags for the usual kinds of values start with. -/
def standardStart : String := "tag:yaml.org,2002:"

/-- The tag for a usual kind of values. -/
def standard (name : String) : Tag := ofText (standardStart ++ name)

/-- The byte of an exclamation mark. -/
def mark : UInt8 := UInt8.ofNat '!'.toNat

/-- Whether a tag starts with the mark of tags that have no meaning of their own. -/
def isMarked (t : Tag) : Bool := t.bytes.head? == some mark

/-- Whether a tag is a name with a meaning for one application only: a text behind the mark. -/
def isLocal (t : Tag) : Bool :=
  t.isMarked && (String.fromUTF8? ⟨(t.bytes.drop 1).toArray⟩).isSome

/-! ### The characters of a tag -/

/-- A byte written as a percent sign and two digits. -/
def percentByte? : List Spot → Option (UInt8 × List Spot)
  | s :: rest =>
    if s.char == '%' then (hexDigits? 0 2 rest).map fun (n, rest) => (UInt8.ofNat n, rest) else none
  | [] => none

/-- Further bytes of a character, so many of them. -/
def furtherBytes? : Nat → List Spot → Option (List UInt8 × List Spot)
  | 0, spots => some ([], spots)
  | count + 1, spots => do
    let (b, rest) ← percentByte? spots
    if b < 0x80 || 0xC0 ≤ b then none
    let (bs, rest) ← furtherBytes? count rest
    return (b :: bs, rest)

/-- The number of bytes of a character that follow its first byte. -/
def bytesBehind? (first : UInt8) : Option Nat :=
  if first < 0x80 then some 0
  else if 0xC0 ≤ first && first < 0xE0 then some 1
  else if 0xE0 ≤ first && first < 0xF0 then some 2
  else if 0xF0 ≤ first && first < 0xF8 then some 3
  else none

/-- The bytes of a character that is written as bytes. -/
def percentChar? (spots : List Spot) : Option (List UInt8 × List Spot) := do
  let (first, rest) ← percentByte? spots
  let (more, rest) ← furtherBytes? (← bytesBehind? first) rest
  return (first :: more, rest)

/-- The characters of a tag; some are allowed between angle brackets and in directives only. -/
def isTagChar (verbatim : Bool) (c : Char) : Bool :=
  isWordChar c || ";/?:@&=+$.!~*'()".toList.contains c
    || (verbatim && (c == ',' || c == '[' || c == ']'))

/-- The bytes of the characters of a tag from here on. One step for each spot and one more are
enough. -/
def bytes? (verbatim : Bool) (steps : Nat) (spots : List Spot) :
    Option (List UInt8 × List Spot) :=
  match steps, spots with
  | 0, _ => none
  | _, [] => some ([], [])
  | steps + 1, s :: rest =>
    if s.char == '%' then do
      let (bs, rest) ← percentChar? (s :: rest)
      let (more, rest) ← bytes? verbatim steps rest
      return (bs ++ more, rest)
    else if isTagChar verbatim s.char then
      (bytes? verbatim steps rest).map fun (bs, rest) => (s.char.toUInt8 :: bs, rest)
    else some ([], s :: rest)

/-- The part of a tag from here on, which has to have a character. -/
def part? (verbatim : Bool) (spots : List Spot) : Option (Tag × List Spot) := do
  let (bs, rest) ← bytes? verbatim (spots.length + 1) spots
  if bs.isEmpty then none else return (ofBytes bs, rest)

/-! ### Handles -/

/-- A handle, with the letters behind its first mark and whether a second mark closes it. -/
def handle? : List Spot → Option (List Char × Bool × List Spot)
  | s :: rest =>
    if s.char == '!' then
      let (letters, rest) := spanOf isWordChar rest
      if nextIs (· == '!') rest then some (chars letters, true, rest.drop 1)
      else some (chars letters, false, rest)
    else none
  | [] => none

/-- A handle as it is written, from its letters. -/
def handleText (letters : List Char) (closed : Bool) : String :=
  String.ofList ('!' :: letters ++ if closed then ['!'] else [])

/-- A tag as handle and suffix: between angle brackets, behind a handle, or behind a single mark.
The mark alone is a tag in full. -/
def read? (spots : List Spot) : Option (String × Tag × List Spot) := do
  if nextIs (· == '<') (spots.drop 1) then
    let (suffix, rest) ← part? true (spots.drop 2)
    if nextIs (· == '>') rest then return ("", suffix, rest.drop 1) else none
  else
    let (letters, closed, rest) ← handle? spots
    if closed then
      let (suffix, rest) ← part? false rest
      return (handleText letters true, suffix, rest)
    else
      let (more, rest) ← bytes? false (rest.length + 1) rest
      let suffix := ofBytes (letters.map Char.toUInt8 ++ more)
      if suffix.bytes.isEmpty then return ("", ⟨[mark]⟩, rest)
      return (handleText [] false, suffix, rest)

end Tag

end RelQuery.Yaml
