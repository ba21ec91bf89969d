import RelQuery.Ieee.Number

/-!
# RelQuery.Data

Self-describing data: what a JSON text or a YAML document denotes.

Documents, settings and results are exchanged as data. JSON texts only have maps whose keys are
texts; a YAML document can use any data as a key, so maps here are lists of pairs of data, in the
order in which they were written. A key may occur more than once, and it is up to the reader of a
map to say what that means.

`Data.record?` and `Data.variant?` are the two shapes in which typed values are found in data:
records with named fields, and one of several named variants.
-/

namespace RelQuery

/-- Self-describing data. -/
inductive Data where
  | null
  | bool (b : Bool)
  | int (n : Int)
  | float (x : Binary64)
  | text (s : String)
  | list (xs : List Data)
  /-- A map, as its entries in order. -/
  | map (entries : List (Data × Data))
deriving Repr, Inhabited

namespace Data

mutual

/-- The number of parts of data, itself included. -/
def size : Data → Nat
  | list xs => sizeOfList xs + 1
  | map entries => sizeOfEntries entries + 1
  | _ => 1

/-- The number of parts of the elements of a list. -/
def sizeOfList : List Data → Nat
  | [] => 0
  | x :: xs => x.size + sizeOfList xs

/-- The number of parts of the entries of a map. -/
def sizeOfEntries : List (Data × Data) → Nat
  | [] => 0
  | (key, v) :: entries => key.size + v.size + sizeOfEntries entries

end

/-- A map whose keys are texts. -/
def object (fields : List (String × Data)) : Data :=
  map (fields.map fun (key, v) => (text key, v))

/-- A list of texts. -/
def texts (xs : List String) : Data :=
  list (xs.map text)

/-- Nothing, or a value's data. -/
def ofOption {α : Type} (f : α → Data) : Option α → Data
  | none => null
  | some a => f a

/-! ### Plain values -/

/-- A truth value. -/
def bool? : Data → Option Bool
  | bool b => some b
  | _ => none

/-- A text. -/
def text? : Data → Option String
  | text s => some s
  | _ => none

/-- A list. -/
def list? : Data → Option (List Data)
  | list xs => some xs
  | _ => none

/-- An integer in the range `low ≤ n ≤ high`. -/
def intWithin? (low high : Int) : Data → Option Int
  | int n => if low ≤ n && n ≤ high then some n else none
  | _ => none

/-- A number that fits in 64 bits without a sign. -/
def count? (d : Data) : Option Nat :=
  (d.intWithin? 0 (UInt64.size - 1)).map Int.toNat

/-- A number of 64 bits without a sign. -/
def word? (d : Data) : Option UInt64 :=
  d.count?.map UInt64.ofNat

/-- The texts of a list that holds nothing else. -/
def texts? (d : Data) : Option (List String) :=
  d.list?.bind fun xs => xs.mapM text?

/-- Nothing, or a value. -/
def option? {α : Type} (f : Data → Option α) : Data → Option (Option α)
  | null => some none
  | d => (f d).map some

/-! ### Records -/

/-- The position of the field that a key names, if it names one. A key is a field's name or its
position; other texts and positions name nothing, and nothing else can be a key of a record. -/
def fieldIndex? (names : List String) : Data → Option (Option Nat)
  | text s => some (names.idxOf? s)
  | int n => if n < 0 then none else some (if n.toNat < names.length then some n.toNat else none)
  | _ => none

/-- The only value of a field, if it has one; a field with two values is refused. -/
def fieldValue? (entries : List (Option Nat × Data)) (i : Nat) : Option (Option Data) :=
  match entries.filter fun e => e.1 == some i with
  | [] => some none
  | [e] => some (some e.2)
  | _ => none

/-- The values of the fields of a record with these field names. A record is a map in which no field
occurs twice and other keys are passed over, or a list of the values of the first fields. -/
def record? (names : List String) : Data → Option (List (Option Data))
  | list xs =>
    if xs.length ≤ names.length then
      some (xs.map some ++ List.replicate (names.length - xs.length) none)
    else none
  | map entries => do
    let entries ← entries.mapM fun (key, v) => return (← fieldIndex? names key, v)
    (List.range names.length).mapM (fieldValue? entries)
  | _ => none

/-- A field that has a value of its own when it is missing. -/
def optional? {α : Type} (default : α) (f : Data → Option α) : Option Data → Option α
  | none => some default
  | some d => f d

/-! ### Variants -/

/-- The name of a variant and what it holds: a text alone, or a map with one entry. -/
def variant? : Data → Option (String × Option Data)
  | text name => some (name, none)
  | map [(text name, d)] => some (name, some d)
  | _ => none

/-- A variant that holds nothing, by its name in a table. -/
def unit? {α : Type} (table : List (String × α)) (d : Data) : Option α :=
  match d.variant? with
  | some (name, none) | some (name, some null) => table.lookup name
  | _ => none

/-- The name of a variant that holds nothing, by a table of names. -/
def ofUnit {α : Type} [DecidableEq α] (table : List (String × α)) (a : α) : Data :=
  match table.find? fun entry => entry.2 = a with
  | some entry => text entry.1
  | none => null

end Data

end RelQuery
