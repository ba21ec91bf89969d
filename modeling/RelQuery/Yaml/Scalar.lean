import RelQuery.Yaml.Spot

/-!
# RelQuery.Yaml.Scalar

The texts of YAML scalars: plain words, quoted texts, and blocks.

A scalar may run over several lines. In plain and quoted scalars lines are *folded*: a single break
between two words stands for a space, and of several breaks the first stands for nothing. A block
scalar keeps its lines, or folds those that do not start with a blank.

Every reader takes the spots from its scalar on and gives the text of the scalar and the rest. The
readers that cannot recurse on the list of spots take a bound on their steps, for which one more
than the number of spots is enough.
-/

namespace RelQuery.Yaml

/-- How a scalar was written. -/
inductive Style where
  /-- Without marks around it. -/
  | plain
  | quoted
  /-- As a block that keeps its lines. -/
  | literal
  | folded
deriving DecidableEq, Repr

/-- What line breaks in a folded scalar stand for. -/
def foldBreaks : List Char → List Char
  | [] => []
  | '\n' :: [] => [' ']
  | '\n' :: breaks => breaks
  | breaks => breaks

/-- What a run of blanks and breaks in a folded scalar stands for: itself, if it has no break. -/
def foldRun (run : List Spot) : List Char :=
  let cs := chars run
  if cs.any isBreak then foldBreaks (cs.filter isBreak) else cs

/-! ### Plain scalars -/

/-- The marks that end a plain scalar inside brackets. -/
def isBracketMark (c : Char) : Bool :=
  c == ',' || c == '[' || c == ']' || c == '\x7b' || c == '\x7d'

/-- A word of a plain scalar. It ends in front of a blank, of a colon at the end of a word, and,
inside brackets, of a bracket or a comma; a colon right before one of these is refused there. -/
def plainWord? (bracketed : Bool) : List Spot → Option (List Char × List Spot)
  | [] => some ([], [])
  | s :: rest =>
    if isSpace s.char then some ([], s :: rest)
    else if bracketed && s.char == ':' && nextIs (fun c => isBracketMark c || c == '?') rest then
      none
    else if (s.char == ':' && atWordEnd rest) || (bracketed && isBracketMark s.char) then
      some ([], s :: rest)
    else (plainWord? bracketed rest).map fun (cs, rest) => (s.char :: cs, rest)

/-- Whether a tab stands where a line of a plain scalar is indented. -/
def tabInIndent (indent : Nat) (run : List Spot) : Bool :=
  (run.dropWhile (!isBreak ·.char)).any fun s => s.char == '\t' && s.column < indent

/-- The rest of a plain scalar behind a run of blanks that stands for `gap` if a word follows. The
flag tells whether the run had a break; of the result, whether the scalar is followed by one. -/
def plainFrom? (bracketed : Bool) (indent steps : Nat) (gap : List Char) (broken : Bool)
    (spots : List Spot) : Option (List Char × Bool × List Spot) :=
  match steps with
  | 0 => none
  | steps + 1 =>
    if atBoundary spots || nextIs (· == '#') spots then some ([], broken, spots)
    else do
      let (word, rest) ← plainWord? bracketed spots
      let (text, broken) := if word.isEmpty then ([], broken) else (gap ++ word, false)
      let (run, after) := spanOf isSpace rest
      if run.isEmpty then return (text, broken, rest)
      if tabInIndent indent run then none
      let broken := run.any (isBreak ·.char)
      -- A line that is indented too little is not part of the scalar, and neither is the run.
      match after with
      | s :: _ =>
        if !bracketed && s.column < indent then return (text, broken, after)
      | [] => pure ()
      let (more, broken, rest) ← plainFrom? bracketed indent steps (foldRun run) broken after
      return (text ++ more, broken, rest)

/-- A plain scalar, whose further lines are indented by at least so many columns unless it stands
inside brackets. -/
def plain? (bracketed : Bool) (indent : Nat) (spots : List Spot) :
    Option (List Char × Bool × List Spot) :=
  plainFrom? bracketed indent (spots.length + 1) [] false spots

/-! ### Quoted scalars -/

/-- The characters that an escape of one character stands for. -/
def escapes : List (Char × Nat) :=
  [('0', 0), ('a', 7), ('b', 8), ('t', 9), ('\t', 9), ('n', 10), ('v', 11), ('f', 12), ('r', 13),
    ('e', 27), (' ', 32), ('"', 34), ('/', 47), ('\\', 92), ('N', 0x85), ('_', 0xA0),
    ('L', 0x2028), ('P', 0x2029)]

/-- The escapes that are followed by the digits of a code point, and the number of digits. -/
def codeEscapes : List (Char × Nat) :=
  [('x', 2), ('u', 4), ('U', 8)]

/-- The character of an escape, behind the backslash. -/
def escape? : List Spot → Option (Char × List Spot)
  | [] => none
  | s :: rest =>
    match escapes.lookup s.char, codeEscapes.lookup s.char with
    | some n, _ => some (Char.ofNat n, rest)
    | none, some digits => do
      let (n, rest) ← hexDigits? 0 digits rest
      if n.isValidChar then return (Char.ofNat n, rest) else none
    | none, none => none

/-- The characters of a quoted scalar up to a blank, a break, the closing quote or the end of the
text. The flag tells whether an escaped break ended them, which is then passed over. -/
def quotedWord? (quote : Char) (steps : Nat) (spots : List Spot) :
    Option (List Char × Bool × List Spot) :=
  match steps, spots with
  | 0, _ => none
  | _, [] => some ([], false, [])
  | steps + 1, s :: rest =>
    if isSpace s.char then some ([], false, s :: rest)
    else if s.char == quote then
      match rest with
      | t :: rest' =>
        if quote == '\'' && t.char == '\'' then
          (quotedWord? quote steps rest').map fun (cs, found) => ('\'' :: cs, found)
        else some ([], false, s :: rest)
      | [] => some ([], false, s :: rest)
    else if quote == '"' && s.char == '\\' then
      if nextIs isBreak rest then some ([], true, rest.drop 1)
      else do
        let (c, rest) ← escape? rest
        let (cs, found) ← quotedWord? quote steps rest
        return (c :: cs, found)
    else (quotedWord? quote steps rest).map fun (cs, found) => (s.char :: cs, found)

/-- The rest of a quoted scalar, behind its opening quote or a run of blanks. -/
def quotedFrom? (quote : Char) (steps : Nat) (spots : List Spot) :
    Option (List Char × List Spot) :=
  match steps with
  | 0 => none
  | steps + 1 =>
    if atBoundary spots || spots.isEmpty then none
    else do
      let (word, escaped, rest) ← quotedWord? quote (spots.length + 1) spots
      if nextIs (· == quote) rest then return (word, rest.drop 1)
      let (run, after) := spanOf isSpace rest
      -- An escaped break is gone already; the breaks of empty lines behind it stay.
      let gap := if escaped then (chars run).filter isBreak else foldRun run
      let (more, rest) ← quotedFrom? quote steps after
      return (word ++ gap ++ more, rest)

/-- A quoted scalar, behind its opening quote. -/
def quoted? (quote : Char) (spots : List Spot) : Option (List Char × List Spot) :=
  quotedFrom? quote (spots.length + 1) spots

/-! ### Block scalars -/

/-- What is done with the breaks at the end of a block scalar. -/
inductive Chomping where
  | strip
  /-- The first is kept. -/
  | clip
  | keep
deriving DecidableEq, Repr

/-- The header of a block scalar: what is done at its end, and by how much it is indented. -/
structure BlockHeader where
  /-- What is done with the breaks at its end. -/
  chomping : Chomping
  /-- The columns by which it is indented; none if they are found from its first line. -/
  increment : Option Nat

namespace BlockHeader

/-- The mark for what is done at the end. -/
def chomping? : List Spot → Option (Chomping × List Spot)
  | s :: rest =>
    if s.char == '+' then some (.keep, rest)
    else if s.char == '-' then some (.strip, rest)
    else none
  | [] => none

/-- The digit for the indentation, which is not zero. -/
def increment? : List Spot → Option (Option Nat × List Spot)
  | s :: rest =>
    if s.char == '0' then none
    else if s.char.isDigit then some (some (s.char.toNat - '0'.toNat), rest)
    else some (none, s :: rest)
  | [] => some (none, [])

/-- A header, whose parts may come in either order, with the rest of its line. -/
def read? (spots : List Spot) : Option (BlockHeader × List Spot) := do
  let (header, rest) ← match chomping? spots with
    | some (chomping, rest) => do
      let (increment, rest) ← increment? rest
      pure (⟨chomping, increment⟩, rest)
    | none => do
      let (increment, rest) ← increment? spots
      match increment, chomping? rest with
      | some n, some (chomping, rest) => pure (⟨chomping, some n⟩, rest)
      | _, _ => pure (⟨.clip, increment⟩, rest)
  return (header, (← skipComment? rest).drop 1)

end BlockHeader

/-- The breaks of empty lines, and the rest from the first character behind so many columns on. -/
def emptyLines? (indent : Nat) : List Spot → Option (List Char × List Spot)
  | [] => some ([], [])
  | s :: rest =>
    if s.column < indent && s.char == ' ' then emptyLines? indent rest
    else if s.column < indent && s.char == '\t' then none
    else if isBreak s.char then (emptyLines? indent rest).map fun (cs, rest) => (s.char :: cs, rest)
    else some ([], s :: rest)

/-- The same at the start of a block of unknown indentation, and the greatest indentation found, if
it is greater than `most`. -/
def leadingLines? (most : Nat) : List Spot → Option (Nat × List Char × List Spot)
  | [] => some (most, [], [])
  | s :: rest =>
    if s.char == ' ' then leadingLines? most rest
    else if s.char == '\t' then none
    else if isBreak s.char then
      (leadingLines? (max most s.column) rest).map fun (most, cs, rest) =>
        (most, s.char :: cs, rest)
    else some (max most s.column, [], s :: rest)

/-- The break at the end of a line, and the rest. -/
def lineBreak : List Spot → List Char × List Spot
  | s :: rest => if isBreak s.char then ([s.char], rest) else ([], s :: rest)
  | [] => ([], [])

/-- What stands at the end of a block scalar: the break of its last line, and those of the empty
lines behind it. -/
structure BlockEnd where
  /-- The break of the last line. -/
  last : List Char
  /-- The breaks of the empty lines behind it. -/
  empty : List Char

/-- The lines of a block scalar. `before` has the breaks in front of the next line, and the flag
tells whether the line before that starts with a blank. -/
def blockLines? (folds : Bool) (indent steps : Nat) (before : BlockEnd) (blankBefore : Bool)
    (spots : List Spot) : Option (List Char × BlockEnd × List Spot) :=
  match steps, spots with
  | 0, _ => none
  | _, [] => some ([], before, [])
  | steps + 1, s :: rest =>
    if s.column = indent then do
      let blank := isGap s.char
      -- A break between two folded lines becomes a space, or gives way to empty lines behind it.
      let joint :=
        if folds && before.last.head? == some '\n' && !blankBefore && !blank then
          if before.empty.isEmpty then [' '] else []
        else before.last
      let (line, after) := spanOf (!isBreak ·) (s :: rest)
      let (last, after) := lineBreak after
      let (empty, after) ← emptyLines? indent after
      let (more, final, rest) ← blockLines? folds indent steps ⟨last, empty⟩ blank after
      return (joint ++ before.empty ++ chars line ++ more, final, rest)
    else some ([], before, s :: rest)

/-- A block scalar, behind its first mark, inside collections that are indented by less than
`least` columns. -/
def block? (folds : Bool) (least : Nat) (spots : List Spot) :
    Option (List Char × List Spot) := do
  let (header, spots) ← BlockHeader.read? spots
  let (indent, breaks, spots) ← match header.increment with
    | some n => do
      let indent := (least - 1) + n
      let (breaks, rest) ← emptyLines? indent spots
      pure (indent, breaks, rest)
    | none => do
      let (most, breaks, rest) ← leadingLines? 0 spots
      pure (max most (max least 1), breaks, rest)
  let (text, final, rest) ← blockLines? folds indent (spots.length + 1) ⟨[], breaks⟩ false spots
  let tail := match header.chomping with
    | .strip => []
    | .clip => final.last
    | .keep => final.last ++ final.empty
  return (text ++ tail, rest)

end RelQuery.Yaml
