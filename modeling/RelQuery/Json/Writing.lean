import RelQuery.Data
import RelQuery.Decimal

/-!
# RelQuery.Json.Writing

Data written as JSON text, without blanks.

Characters outside ASCII stand for themselves; quotes, backslashes and control characters are
escaped. A number that is not finite has no JSON text and is written as `null`, and a whole number
that is not an integer keeps a fraction, so that it is read back as what it was. JSON has only texts
as keys: any other key is written as the text of its own JSON.
-/

namespace RelQuery.Json

/-- How a character is written in a string. Control characters without an escape of their own are
written by their number. -/
def escaped (c : Char) : List Char :=
  if c = '"' then ['\\', '"']
  else if c = '\\' then ['\\', '\\']
  else if c = '\x08' then ['\\', 'b']
  else if c = '\x0c' then ['\\', 'f']
  else if c = '\n' then ['\\', 'n']
  else if c = '\r' then ['\\', 'r']
  else if c = '\t' then ['\\', 't']
  else if c.toNat < 0x20 then
    ['\\', 'u', '0', '0', Bytes.hexDigit (c.toNat / 16), Bytes.hexDigit (c.toNat % 16)]
  else [c]

/-- A text in quotes. -/
def quote (s : String) : String :=
  String.ofList ('"' :: s.toList.flatMap escaped ++ ['"'])

/-- The text of a floating-point number. -/
def float (x : Binary64) : String :=
  if x.isFinite then
    let s := x.text
    if s.toList.contains '.' then s else s ++ ".0"
  else "null"

mutual

/-- The text of data, without blanks. -/
def write : Data → String
  | .null => "null"
  | .bool b => if b then "true" else "false"
  | .int n => toString n
  | .float x => float x
  | .text s => quote s
  | .list xs => "[" ++ writeElements xs ++ "]"
  | .map entries => "\x7b" ++ writeMembers entries ++ "\x7d"

/-- The elements of a list, separated by commas. -/
def writeElements : List Data → String
  | [] => ""
  | [x] => write x
  | x :: y :: xs => write x ++ "," ++ writeElements (y :: xs)

/-- The entries of a map, separated by commas. -/
def writeMembers : List (Data × Data) → String
  | [] => ""
  | [(key, v)] => writeKey key ++ ":" ++ write v
  | (key, v) :: entry :: entries =>
    writeKey key ++ ":" ++ write v ++ "," ++ writeMembers (entry :: entries)

/-- The text of a key. What is not a text is written first and then put in quotes. -/
def writeKey : Data → String
  | .text s => quote s
  | key => quote (write key)

end

end RelQuery.Json
