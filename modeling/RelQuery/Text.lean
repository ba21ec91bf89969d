/-!
# RelQuery.Text

Texts as lists of characters, the view on which every text function of this library is defined.

* *Blanks*: names, operators and literals in query text are cut out of a longer text and then freed
  of the blanks around them. A blank is a character with the Unicode property `White_Space`, so an
  ideographic space or a no-break space is removed just as a tab is.
* *Marks*: a mark at the front of a text, at its end, the first one anywhere, and a text split at
  each mark. Comparison of characters is a parameter, because a keyword is looked for in either case
  while an operator is looked for as it stands. Letter case is that of ASCII alone: `É` and `é`
  differ under every comparison of this library.
* *Numbers*: whole numbers as they are written in query text and settings: decimal digits of ASCII,
  with a sign in front where the number may have one. There is no room for blanks, separators or an
  exponent; leading zeros are allowed.
* *Bytes*: numbers stored with the low byte first, and hexadecimal text.
-/

namespace RelQuery.Text

/-! ### Blanks -/

/-- The code points with the Unicode property `White_Space`, as inclusive ranges. -/
def blankRanges : List (Nat × Nat) :=
  [(0x09, 0x0D), (0x20, 0x20), (0x85, 0x85), (0xA0, 0xA0), (0x1680, 0x1680), (0x2000, 0x200A),
   (0x2028, 0x2029), (0x202F, 0x202F), (0x205F, 0x205F), (0x3000, 0x3000)]

/-- Whether a character has the Unicode property `White_Space`. -/
def isBlank (c : Char) : Bool :=
  blankRanges.any fun range => range.1 ≤ c.toNat && c.toNat ≤ range.2

/-- The characters from the first one on that is no blank. -/
def trimStart (cs : List Char) : List Char :=
  cs.dropWhile isBlank

/-- The characters up to the last one that is no blank. -/
def trimEnd (cs : List Char) : List Char :=
  (cs.reverse.dropWhile isBlank).reverse

/-- Drops the blanks on both sides and keeps those inside. -/
def trim (cs : List Char) : List Char :=
  trimEnd (trimStart cs)

@[simp] theorem trimStart_nil : trimStart [] = [] := rfl

@[simp] theorem trimEnd_nil : trimEnd [] = [] := rfl

@[simp] theorem trim_nil : trim [] = [] := rfl

theorem trimStart_cons (c : Char) (cs : List Char) :
    trimStart (c :: cs) = if isBlank c then trimStart cs else c :: cs := by
  simp [trimStart, List.dropWhile_cons]

/-! ### Marks -/

/-- Same letter, in either case, of ASCII. -/
def sameLetter (a b : Char) : Bool :=
  a.toLower == b.toLower

/-- ASCII capitals made small; everything else stays. -/
def lowerCase (cs : List Char) : List Char :=
  cs.map Char.toLower

/-- The rest after a mark at the front, if the text starts with the mark. -/
def stripFront? (same : Char → Char → Bool) : List Char → List Char → Option (List Char)
  | [], cs => some cs
  | _ :: _, [] => none
  | m :: mark, c :: cs => if same m c then stripFront? same mark cs else none

/-- The text before a mark at the end, if the text ends with the mark. -/
def stripBack? (same : Char → Char → Bool) (mark cs : List Char) : Option (List Char) :=
  (stripFront? same mark.reverse cs.reverse).map List.reverse

/-- The text before and after the first occurrence of a mark. -/
def cut? (same : Char → Char → Bool) (mark : List Char) :
    List Char → Option (List Char × List Char)
  | [] => (stripFront? same mark []).map fun rest => ([], rest)
  | c :: cs =>
    match stripFront? same mark (c :: cs) with
    | some rest => some ([], rest)
    | none => (cut? same mark cs).map fun (before, rest) => (c :: before, rest)

theorem length_of_stripFront? {same : Char → Char → Bool} {mark cs rest : List Char}
    (h : stripFront? same mark cs = some rest) : cs.length = mark.length + rest.length := by
  induction mark generalizing cs with
  | nil => simp_all [stripFront?]
  | cons m mark ih =>
    cases cs with
    | nil => simp [stripFront?] at h
    | cons c cs =>
      simp only [stripFront?] at h
      split at h
      · have := ih h
        simp only [List.length_cons]
        omega
      · contradiction

theorem length_of_cut? {same : Char → Char → Bool} {mark cs before rest : List Char}
    (h : cut? same mark cs = some (before, rest)) :
    cs.length = before.length + mark.length + rest.length := by
  induction cs generalizing before with
  | nil =>
    simp only [cut?, Option.map_eq_some_iff, Prod.mk.injEq] at h
    obtain ⟨_, h, rfl, rfl⟩ := h
    simpa using length_of_stripFront? h
  | cons c cs ih =>
    simp only [cut?] at h
    split at h
    · rename_i h'
      cases h
      simpa using length_of_stripFront? h'
    · simp only [Option.map_eq_some_iff, Prod.mk.injEq] at h
      obtain ⟨⟨before', _⟩, h, rfl, rfl⟩ := h
      have := ih h
      simp only [List.length_cons] at this ⊢
      omega

/-- The pieces between the occurrences of the mark `m :: mark`, found from the left and without
overlap. A text without the mark is one piece. -/
def pieces (same : Char → Char → Bool) (m : Char) (mark cs : List Char) : List (List Char) :=
  match _h : cut? same (m :: mark) cs with
  | none => [cs]
  | some (before, rest) => before :: pieces same m mark rest
termination_by cs.length
decreasing_by
  have := length_of_cut? _h
  simp only [List.length_cons] at this
  omega

/-- A text without the mark is one piece. -/
theorem pieces_of_cut?_eq_none {same : Char → Char → Bool} {m : Char} {mark cs : List Char}
    (h : cut? same (m :: mark) cs = none) : pieces same m mark cs = [cs] := by
  rw [pieces]
  split
  · rfl
  · rename_i hcut
    rw [h] at hcut
    contradiction

/-! ### Numbers -/

/-- The value of a non-empty run of decimal digits; nothing else is a run of digits. -/
def digits? (cs : List Char) : Option Nat :=
  if cs.isEmpty || !cs.all Char.isDigit then none
  else some (cs.foldl (fun n c => 10 * n + (c.toNat - '0'.toNat)) 0)

/-- A number without a minus sign; a plus sign is allowed. -/
def natural? : List Char → Option Nat
  | '+' :: cs => digits? cs
  | cs => digits? cs

/-- A number with an optional sign. -/
def integer? : List Char → Option Int
  | '-' :: cs => (digits? cs).map fun n => -(n : Int)
  | cs => (natural? cs).map fun n => (n : Int)

/-- An integer in the range `low ≤ n ≤ high`. -/
def integerWithin? (low high : Int) (cs : List Char) : Option Int :=
  (integer? cs).filter fun n => low ≤ n && n ≤ high

/-- A number that fits in 64 bits without a sign: a row count or a limit. -/
def count? (cs : List Char) : Option Nat :=
  (natural? cs).filter fun n => n < UInt64.size

end RelQuery.Text

/-! ### Bytes -/

namespace RelQuery.Bytes

/-- The lowest `count` bytes of a number, the low byte first. -/
def littleEndian : Nat → Nat → List UInt8
  | 0, _ => []
  | count + 1, n => UInt8.ofNat n :: littleEndian count (n / 256)

/-- The small hexadecimal digit of a number below sixteen. -/
def hexDigit (n : Nat) : Char :=
  if n < 10 then Char.ofNat ('0'.toNat + n) else Char.ofNat ('a'.toNat + (n - 10))

/-- Two hexadecimal digits for each byte, the high digit first. -/
def hex (bytes : List UInt8) : String :=
  String.ofList (bytes.flatMap fun b => [hexDigit (b.toNat / 16), hexDigit (b.toNat % 16)])

/-- The value of a hexadecimal digit in either case. -/
def hexValue? (c : Char) : Option Nat :=
  if c.isDigit then some (c.toNat - '0'.toNat)
  else if 'a' ≤ c.toLower && c.toLower ≤ 'f' then some (c.toLower.toNat - 'a'.toNat + 10)
  else none

/-- The bytes that pairs of hexadecimal digits stand for. -/
def ofHex? : List Char → Option (List UInt8)
  | [] => some []
  | [_] => none
  | a :: b :: cs => do
    let high ← hexValue? a
    let low ← hexValue? b
    let rest ← ofHex? cs
    return UInt8.ofNat (16 * high + low) :: rest

end RelQuery.Bytes
