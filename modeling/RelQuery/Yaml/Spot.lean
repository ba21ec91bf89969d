import RelQuery.Text

/-!
# RelQuery.Yaml.Spot

The characters of a YAML text with their places.

Indentation has a meaning in YAML, so a text is read as a list of *spots*: each is a character that
knows its line, its column and the number of bytes before it. What is left to be read is always the
end of such a list, and the first spot of it is where the reader stands.

`spots?` refuses texts with control characters, and writes every kind of line break that can be
folded as a newline; the two Unicode separators stay what they are, but break lines, too. A byte
order mark is a character like others, and has a column of its own.
-/

namespace RelQuery.Yaml

/-- A character and its place. -/
structure Spot where
  char : Char
  /-- The number of bytes before it. -/
  index : Nat
  /-- The number of line breaks before it. -/
  line : Nat
  /-- The number of characters before it on its line. -/
  column : Nat
deriving Repr, Inhabited

/-- The character of the code point `U+0085`, which breaks lines. -/
def nextLine : Char := Char.ofNat 0x85

/-- The character of the code point `U+2028`, which breaks lines. -/
def lineSeparator : Char := Char.ofNat 0x2028

/-- The character of the code point `U+2029`, which breaks lines. -/
def paragraphSeparator : Char := Char.ofNat 0x2029

/-- The character of the code point `U+FEFF`, which may stand in front of a text. -/
def byteOrderMark : Char := Char.ofNat 0xFEFF

/-- The characters of a YAML text. -/
def isPrintable (c : Char) : Bool :=
  let n := c.toNat
  n == 0x09 || n == 0x0A || n == 0x0D || (0x20 ≤ n && n ≤ 0x7E) || n == 0x85
    || (0xA0 ≤ n && n ≤ 0xD7FF) || (0xE000 ≤ n && n ≤ 0xFFFD) || 0x10000 ≤ n

/-- Line breaks, once they have been written in one way. -/
def isBreak (c : Char) : Bool :=
  c == '\n' || c == lineSeparator || c == paragraphSeparator

/-- Blanks inside a line. -/
def isGap (c : Char) : Bool :=
  c == ' ' || c == '\t'

/-- Blanks and line breaks. -/
def isSpace (c : Char) : Bool :=
  isGap c || isBreak c

/-- Letters, digits and marks of names. -/
def isWordChar (c : Char) : Bool :=
  c.isAlphanum || c == '_' || c == '-'

/-- Characters with their places, from a place on. -/
def place (index line column : Nat) : List Char → List Spot
  | [] => []
  | '\r' :: '\n' :: cs => ⟨'\n', index, line, column⟩ :: place (index + 2) (line + 1) 0 cs
  | c :: cs =>
    let next := index + c.utf8Size
    let c := if c = '\r' || c = nextLine then '\n' else c
    ⟨c, index, line, column⟩ ::
      if isBreak c then place next (line + 1) 0 cs else place next line (column + 1) cs

/-- The characters of a text with their places, if all of them may stand in a YAML text. -/
def spots? (s : String) : Option (List Spot) :=
  if s.toList.all isPrintable then some (place 0 0 0 s.toList) else none

/-- The characters without their places. -/
def chars (spots : List Spot) : List Char :=
  spots.map Spot.char

/-- Whether the next character is one of a class; the end of the text is in no class. -/
def nextIs (test : Char → Bool) : List Spot → Bool
  | s :: _ => test s.char
  | [] => false

/-- Whether the next character ends a word: a blank, a line break or the end of the text. -/
def atWordEnd : List Spot → Bool
  | s :: _ => isSpace s.char
  | [] => true

/-- Whether the next character ends a line: a line break or the end of the text. -/
def atLineEnd : List Spot → Bool
  | s :: _ => isBreak s.char
  | [] => true

/-- The spots up to the first one whose character is not in a class, and the rest. -/
def spanOf (test : Char → Bool) (spots : List Spot) : List Spot × List Spot :=
  (spots.takeWhile (test ·.char), spots.dropWhile (test ·.char))

/-- The rest behind three marks of a document boundary at the start of a line, if they stand alone
there. -/
def behindBoundary? (mark : Char) : List Spot → Option (List Spot)
  | a :: b :: c :: rest =>
    if a.column = 0 && a.char == mark && b.char == mark && c.char == mark && atWordEnd rest then
      some rest
    else none
  | _ => none

/-- Whether a document ends or starts here. -/
def atBoundary (spots : List Spot) : Bool :=
  (behindBoundary? '-' spots).isSome || (behindBoundary? '.' spots).isSome

/-- The rest of a line that holds nothing but blanks and a comment, without its break. -/
def skipComment? (spots : List Spot) : Option (List Spot) :=
  let rest := (spanOf isGap spots).2
  let rest := if nextIs (· == '#') rest then (spanOf (!isBreak ·) rest).2 else rest
  if atLineEnd rest then some rest else none

/-- The value of a number of hexadecimal digits, and the rest. -/
def hexDigits? (value : Nat) : Nat → List Spot → Option (Nat × List Spot)
  | 0, spots => some (value, spots)
  | _ + 1, [] => none
  | count + 1, s :: spots => do
    let digit ← Bytes.hexValue? s.char
    hexDigits? (16 * value + digit) count spots

end RelQuery.Yaml
