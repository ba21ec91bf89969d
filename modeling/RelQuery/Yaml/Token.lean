import RelQuery.Text
import RelQuery.Yaml.Scalar
import RelQuery.Yaml.Tag

/-!
# RelQuery.Yaml.Token

The tokens of a YAML text.

Tokens make the structure that indentation expresses explicit: a block collection has a token where
it opens and one where it closes, so that no later stage looks at columns.

Design points:

* A mapping key is recognised only at the colon behind it. Wherever a key could start, the output
  gets an empty *slot*; the colon fills it with the tokens that belong in front of the key, and a
  slot that is never filled stands for no token. So the output only grows at its end.
* There is one possible key for each level of brackets. It has to be on one line and not too far
  away, and it is *required* where nothing else could stand, at the indentation of a block.
* A text is tokenised as a whole. A text that is refused has no tokens.
-/

namespace RelQuery.Yaml

/-- A token. -/
inductive Token where
  /-- The version a document asks for. -/
  | version (major minor : Nat)
  /-- A handle for tags, and what it stands for. -/
  | tagHandle (handle : String) (expansion : Tag)
  | documentStart
  | documentEnd
  | blockSequence
  | blockMapping
  | blockEnd
  | openSequence
  | closeSequence
  | openMapping
  | closeMapping
  /-- The dash in front of an element. -/
  | dash
  /-- The comma behind an element or an entry. -/
  | comma
  | key
  | value
  /-- A name for the next node. -/
  | anchor (name : String)
  /-- A reference to a named node. -/
  | reference (name : String)
  /-- A tag of the next node; without a handle, the suffix is the tag in full. -/
  | tag (handle : String) (suffix : Tag)
  | scalar (style : Style) (text : String)
deriving DecidableEq, Repr

/-- A slot of the output in front of what may turn out to be a key. -/
structure PendingKey where
  /-- The place of the slot. -/
  slot : Nat
  /-- Where the key starts. -/
  spot : Spot
  /-- Whether it has to be a key. -/
  required : Bool

/-- A text in the middle of being tokenised. -/
structure Scan where
  /-- What is still to be read. -/
  rest : List Spot
  /-- The tokens so far, and the slots between them. -/
  output : Array (List Token)
  /-- The columns of the open block collections, innermost first. -/
  blocks : List Nat
  /-- The possible key inside the innermost brackets. -/
  key : Option PendingKey
  /-- The possible keys outside of them, one for each open bracket. -/
  outer : List (Option PendingKey)
  /-- Whether a key may start here. -/
  keyAllowed : Bool

/-- How many bytes in front of its colon a key may start. -/
def keyReach : Nat := 1024

namespace Scan

/-- A text of which nothing has been read. -/
def start (spots : List Spot) : Scan := ⟨spots, #[], [], none, [], true⟩

/-- Whether the reader stands inside brackets. -/
def bracketed (s : Scan) : Bool := !s.outer.isEmpty

/-- The least column of what belongs to the innermost block collection. -/
def least (s : Scan) : Nat :=
  match s.blocks with
  | column :: _ => column + 1
  | [] => 0

/-- Adds a token to the output. -/
def push (s : Scan) (t : Token) : Scan := { s with output := s.output.push [t] }

/-- A token has been read. -/
def emit (s : Scan) (t : Token) (rest : List Spot) : Scan := { s.push t with rest }

/-! ### Blocks -/

/-- Closes the block collections that are indented by `least` columns or more. -/
def closeBlocks (s : Scan) (least : Nat) : Scan :=
  if s.bracketed then s
  else
    { s with
      output := s.output ++ (s.blocks.takeWhile (least ≤ ·)).map fun _ => [Token.blockEnd]
      blocks := s.blocks.dropWhile (least ≤ ·) }

/-- Whether a block collection opens at a column. -/
def opensBlock (s : Scan) (column : Nat) : Bool :=
  !s.bracketed && s.least ≤ column

/-- Opens a block collection at a column, unless one is open there. -/
def openBlock (s : Scan) (column : Nat) (t : Token) : Scan :=
  if s.opensBlock column then { s.push t with blocks := column :: s.blocks } else s

/-! ### Keys -/

/-- Gives up the possible key. -/
def dropKey? (s : Scan) : Option Scan :=
  if s.key.any (·.required) then none else some { s with key := none }

/-- Makes a slot, if a key may start here. -/
def saveKey? (s : Scan) (spot : Spot) : Option Scan :=
  if s.keyAllowed then do
    let s ← s.dropKey?
    let required := !s.bracketed && s.blocks.head? == some spot.column
    return { s with output := s.output.push [], key := some ⟨s.output.size, spot, required⟩ }
  else some s

/-- A possible key, unless it is out of reach from a spot. -/
def withinReach? (spot : Spot) : Option PendingKey → Option (Option PendingKey)
  | none => some none
  | some k =>
    if k.spot.line < spot.line || k.spot.index + keyReach < spot.index then
      if k.required then none else some none
    else some (some k)

/-- Gives up the possible keys that are out of reach from a spot. -/
def expireKeys? (s : Scan) (spot : Spot) : Option Scan := do
  let key ← withinReach? spot s.key
  let outer ← s.outer.mapM (withinReach? spot)
  return { s with key, outer }

/-- The colon behind a key: it fills the key's slot. -/
def fillSlot (s : Scan) (k : PendingKey) : Scan :=
  -- The first key of a block mapping opens it.
  let opens := s.opensBlock k.spot.column
  { s with
    output := s.output.setIfInBounds k.slot (if opens then [.blockMapping, .key] else [.key])
    blocks := if opens then k.spot.column :: s.blocks else s.blocks
    key := none
    keyAllowed := false }

/-! ### Blanks -/

/-- What follows blanks, breaks and comments, and whether a key may start there. Tabs are blanks
only where they do not indent. At the start of a line, a byte order mark is passed over. -/
def skipBlanks (bracketed : Bool) (keyAllowed comment : Bool) :
    List Spot → Bool × List Spot
  | [] => (keyAllowed, [])
  | s :: rest =>
    if isBreak s.char then skipBlanks bracketed (keyAllowed || !bracketed) false rest
    else if comment || s.char == '#' then skipBlanks bracketed keyAllowed true rest
    else if s.char == ' ' || (s.char == '\t' && (bracketed || !keyAllowed))
        || (s.char == byteOrderMark && s.column == 0) then
      skipBlanks bracketed keyAllowed false rest
    else (keyAllowed, s :: rest)

/-- Goes on to the next token. -/
def skip (s : Scan) : Scan :=
  let (keyAllowed, rest) := skipBlanks s.bracketed s.keyAllowed false s.rest
  { s with rest, keyAllowed }

/-! ### Marks -/

/-- A bracket opens. It may start a key. -/
def openBracket? (s : Scan) (t : Token) (spot : Spot) (rest : List Spot) : Option Scan := do
  let s ← s.saveKey? spot
  let s := s.emit t rest
  return { s with key := none, outer := s.key :: s.outer, keyAllowed := true }

/-- A bracket closes. One that was never opened is left to the reader of the tokens. -/
def closeBracket? (s : Scan) (t : Token) (rest : List Spot) : Option Scan := do
  let s ← s.dropKey?
  let s := { s.emit t rest with keyAllowed := false }
  match s.outer with
  | key :: outer => return { s with key, outer }
  | [] => return s

/-- The comma behind an element. -/
def comma? (s : Scan) (rest : List Spot) : Option Scan := do
  let s ← s.dropKey?
  return { s.emit .comma rest with keyAllowed := true }

/-- The dash in front of an element. -/
def dash? (s : Scan) (spot : Spot) (rest : List Spot) : Option Scan :=
  if !s.bracketed && !s.keyAllowed then none
  else do
    let s ← (s.openBlock spot.column .blockSequence).dropKey?
    return { s.emit .dash rest with keyAllowed := true }

/-- The mark in front of a key that is not simple. -/
def key? (s : Scan) (spot : Spot) (rest : List Spot) : Option Scan :=
  if !s.bracketed && !s.keyAllowed then none
  else do
    let s ← (s.openBlock spot.column .blockMapping).dropKey?
    return { s.emit .key rest with keyAllowed := !s.bracketed }

/-- The colon in front of a value. -/
def value? (s : Scan) (spot : Spot) (rest : List Spot) : Option Scan :=
  match s.key with
  | some k => some ((s.fillSlot k).emit .value rest)
  | none =>
    if !s.bracketed && !s.keyAllowed then none
    else
      let s := s.openBlock spot.column .blockMapping
      some { s.emit .value rest with keyAllowed := !s.bracketed }

/-- The marks in front of a document or behind it. -/
def boundary? (s : Scan) (t : Token) (rest : List Spot) : Option Scan := do
  let s ← (s.closeBlocks 0).dropKey?
  return { s.emit t rest with keyAllowed := false }

/-! ### Names and tags -/

/-- The marks that may stand right behind a name. -/
def nameEnds : List Char := ['?', ':', ',', ']', '\x7d', '%', '@', '\x60']

/-- A name, and what follows it. It ends at a blank, at a mark or with the text. -/
def name? (spots : List Spot) : Option (String × List Spot) :=
  let (name, rest) := spanOf isWordChar spots
  if name.isEmpty || !(atWordEnd rest || nextIs nameEnds.contains rest) then none
  else some (String.ofList (chars name), rest)

/-- A tag, and what has to follow it. -/
def tagToken? (bracketed : Bool) (spots : List Spot) : Option (Token × List Spot) := do
  let (handle, suffix, rest) ← Tag.read? spots
  if atWordEnd rest || (bracketed && nextIs (· == ',') rest) then
    return (.tag handle suffix, rest)
  else none

/-! ### Directives -/

/-- A part of a version number. -/
def versionNumber? (spots : List Spot) : Option (Nat × List Spot) := do
  let (digits, rest) := spanOf Char.isDigit spots
  if 9 < digits.length then none
  return (← Text.digits? (chars digits), rest)

/-- The value of a version directive. -/
def version? (spots : List Spot) : Option (Token × List Spot) := do
  let (major, rest) ← versionNumber? (spanOf isGap spots).2
  if !nextIs (· == '.') rest then none
  let (minor, rest) ← versionNumber? (rest.drop 1)
  return (.version major minor, rest)

/-- The value of a directive for tags. -/
def tagHandle? (spots : List Spot) : Option (Token × List Spot) := do
  let (letters, closed, rest) ← Tag.handle? (spanOf isGap spots).2
  if !closed && !letters.isEmpty then none
  if !nextIs isGap rest then none
  let (expansion, rest) ← Tag.part? true (spanOf isGap rest).2
  if !atWordEnd rest then none
  return (.tagHandle (Tag.handleText letters closed) expansion, rest)

/-- A directive, behind the percent sign in front of it, with the rest of its line. -/
def directive? (s : Scan) (spots : List Spot) : Option Scan := do
  let (name, rest) := spanOf isWordChar spots
  if !atWordEnd rest then none
  let (t, rest) ← match String.ofList (chars name) with
    | "YAML" => version? rest
    | "TAG" => tagHandle? rest
    | _ => none
  let s ← (s.closeBlocks 0).dropKey?
  return { s.emit t ((← skipComment? rest).drop 1) with keyAllowed := false }

/-! ### Scalars -/

/-- A token that may be a key, or may belong to one. -/
def node? (s : Scan) (spot : Spot) (t : Token) (rest : List Spot) : Option Scan := do
  return { (← s.saveKey? spot).emit t rest with keyAllowed := false }

/-- A scalar in quotes, which may be a key. -/
def quoted? (s : Scan) (spot : Spot) (rest : List Spot) : Option Scan := do
  let (text, rest) ← Yaml.quoted? spot.char rest
  s.node? spot (.scalar .quoted (String.ofList text)) rest

/-- A plain scalar. Behind a break, a key may follow it. -/
def plain? (s : Scan) (spot : Spot) (rest : List Spot) : Option Scan := do
  let (text, broken, rest) ← Yaml.plain? s.bracketed s.least (spot :: rest)
  let s ← s.node? spot (.scalar .plain (String.ofList text)) rest
  return { s with keyAllowed := broken }

/-- A scalar that is a block of lines. It is no key, but one may follow it. -/
def block? (s : Scan) (style : Style) (rest : List Spot) : Option Scan := do
  let s ← s.dropKey?
  let (text, rest) ← Yaml.block? (style == .folded) s.least rest
  return { s.emit (.scalar style (String.ofList text)) rest with keyAllowed := true }

/-- The marks that start other tokens than plain scalars. -/
def marks : List Char :=
  ['-', '?', ':', ',', '[', ']', '\x7b', '\x7d', '#', '&', '*', '!', '|', '>', '\'', '"', '%', '@',
    '\x60']

/-- Whether a plain scalar starts with a character. Three of the marks may start one, if a word
follows; a tab that indents may not. -/
def startsPlain (bracketed : Bool) (c : Char) (rest : List Spot) : Bool :=
  (!isSpace c && !marks.contains c) || (c == '-' && !nextIs isGap rest)
    || (!bracketed && (c == '?' || c == ':') && !atWordEnd rest)

/-! ### The text as a whole -/

/-- The next token, which starts at a spot. -/
def token? (s : Scan) (spot : Spot) (rest : List Spot) : Option Scan :=
  match behindBoundary? '-' s.rest, behindBoundary? '.' s.rest with
  | some rest, _ => s.boundary? .documentStart rest
  | none, some rest => s.boundary? .documentEnd rest
  | none, none =>
    -- Marks that count only at the start of a line or in front of a blank come first: elsewhere
    -- they may start a plain scalar.
    if spot.column = 0 && spot.char == '%' then s.directive? rest
    else if spot.char == '-' && atWordEnd rest then s.dash? spot rest
    else if spot.char == '?' && (s.bracketed || atWordEnd rest) then s.key? spot rest
    else if spot.char == ':' && (s.bracketed || atWordEnd rest) then s.value? spot rest
    else if spot.char == '|' && !s.bracketed then s.block? .literal rest
    else if spot.char == '>' && !s.bracketed then s.block? .folded rest
    else
      match spot.char with
      | '[' => s.openBracket? .openSequence spot rest
      | '\x7b' => s.openBracket? .openMapping spot rest
      | ']' => s.closeBracket? .closeSequence rest
      | '\x7d' => s.closeBracket? .closeMapping rest
      | ',' => s.comma? rest
      | '\'' | '"' => s.quoted? spot rest
      | '*' => do
        let (name, rest) ← name? rest
        s.node? spot (.reference name) rest
      | '&' => do
        let (name, rest) ← name? rest
        s.node? spot (.anchor name) rest
      | '!' => do
        let (t, rest) ← tagToken? s.bracketed (spot :: rest)
        s.node? spot t rest
      | c => if startsPlain s.bracketed c rest then s.plain? spot rest else none

/-- The end of the text: everything that is open by indentation closes. -/
def finish? (s : Scan) : Option (List Token) := do
  let s ← (s.closeBlocks 0).dropKey?
  return s.output.toList.flatten

/-- The tokens of a text from here on. Every step reads a character at least. -/
def run? (steps : Nat) (s : Scan) : Option (List Token) :=
  match steps with
  | 0 => none
  | steps + 1 =>
    let s := s.skip
    match s.rest with
    | [] => s.finish?
    | spot :: rest => do
      let s ← s.expireKeys? spot
      -- Blocks that are indented by more than this token end in front of it.
      run? steps (← (s.closeBlocks (spot.column + 1)).token? spot rest)

end Scan

/-- The tokens of a text. Every round but the last uses up a character. -/
def tokens? (s : String) : Option (List Token) := do
  let spots ← spots? s
  (Scan.start spots).run? (spots.length + 1)

end RelQuery.Yaml
