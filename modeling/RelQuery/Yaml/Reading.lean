import RelQuery.Dictionary
import RelQuery.Yaml.Node
import RelQuery.Yaml.Plain

/-!
# RelQuery.Yaml.Reading

Values read from the nodes of a tree.

A value of a known type is read by what the type asks for: a text takes any scalar as it is written,
a truth value or a count only a plain one. `Tree.data` reads a value of unknown type, for which the
style and the tag of a scalar decide.

References are followed while reading. A text may make its values much larger than itself in this
way, so a reader may follow only so many references, and may enter collections only to a certain
depth; what is passed over is not followed, and costs nothing.
-/

namespace RelQuery.Yaml

/-- A computation that reads values. Its state is the number of references it may still follow. -/
abbrev Reading := StateT Nat Option

namespace Reading

/-- The value cannot be read. -/
def refuse {α : Type} : Reading α := fun _ => none

/-- A value that may be missing. -/
def ofOption {α : Type} (a : Option α) : Reading α := fun left => a.map (·, left)

end Reading

/-- The references that may be followed for each node of a text. -/
def referencesPerNode : Nat := 100

/-- The collections that may be entered one inside the other. -/
def greatestDepth : Nat := 128

/-- Whether a node is only meant for one application, which alone can read it. -/
def isForeign (tag : Option Tag) : Bool :=
  tag.any Tag.isLocal

/-- The data of a scalar. -/
def scalarData? (tag : Option Tag) (style : Style) (text : String) : Option Data :=
  match tag with
  | none => if style = .plain then Plain.data? text else some (.text text)
  | some t =>
    if t = .standard "bool" then (Plain.bool? text).map .bool
    else if t = .standard "int" then (Plain.wideInteger? text).bind (Plain.integerData? text)
    else if t = .standard "float" then (Plain.float? text).map .float
    else if t = .standard "null" then if Plain.isNull text then some .null else none
    else if t.isLocal then none
    -- Behind the mark, what is not a text says nothing.
    else if t.isMarked && style = .plain then Plain.data? text
    else some (.text text)

/-- Whether a scalar may stand for a value of a type: it is plain, or a literal block with the tag
of the type. -/
def bearsType (name : String) (tag : Option Tag) (style : Style) : Bool :=
  style == .plain || (style == .literal && tag == some (.standard name))

/-- Whether a plain scalar stands for a value that is not there. Under the tag for nothing, it may
not stand for anything else. -/
def isAbsent? (tag : Option Tag) (text : String) : Option Bool :=
  match tag with
  | none => some (text.isEmpty || Plain.isNull text)
  | some t =>
    if t = .standard "null" then if Plain.isNull text then some true else none else some false

namespace Tree

open Reading

/-- The node itself, or the one that it refers to. -/
def follow (t : Tree) : Node → Reading Node
  | .reference number => do
    match ← get, t.target? number with
    | left + 1, some node => set left; return node
    | _, _ => refuse
  | node => return node

/-- A value of unknown type, inside at most `depth - 1` collections of its own. -/
def data (t : Tree) (depth : Nat) (node : Node) : Reading Data :=
  match depth with
  | 0 => refuse
  | depth + 1 => do
    match ← t.follow node with
    | .scalar tag style text => ofOption (scalarData? tag style text)
    | .sequence tag items =>
      if isForeign tag || depth = 0 then refuse
      else return .list (← items.mapM (t.data depth))
    | .mapping tag entries =>
      if isForeign tag || depth = 0 then refuse
      else
        return .map (← entries.mapM fun (k, v) => do
          let k ← t.data depth k
          return (k, ← t.data depth v))
    | .reference _ => refuse

/-- A text: any scalar. -/
def text (t : Tree) (node : Node) : Reading String := do
  match ← t.follow node with
  | .scalar _ _ text => return text
  | _ => refuse

/-- A truth value. -/
def bool (t : Tree) (node : Node) : Reading Bool := do
  match ← t.follow node with
  | .scalar tag style text =>
    if bearsType "bool" tag style then ofOption (Plain.bool? text) else refuse
  | _ => refuse

/-- A count. -/
def count (t : Tree) (node : Node) : Reading UInt64 := do
  match ← t.follow node with
  | .scalar tag style text =>
    if bearsType "int" tag style then ofOption (Plain.count? text) else refuse
  | _ => refuse

/-- A value that may not be there. -/
def option {α : Type} (t : Tree) (f : Node → Reading α) (node : Node) : Reading (Option α) := do
  let node ← t.follow node
  match node with
  | .scalar tag .plain text =>
    if ← ofOption (isAbsent? tag text) then return none else return some (← f node)
  | _ => return some (← f node)

/-- A list of values. A scalar that is left out is an empty list. -/
def list {α : Type} (t : Tree) (f : Node → Reading α) (node : Node) : Reading (List α) := do
  match ← t.follow node with
  | .sequence _ items => items.mapM f
  | .scalar _ .plain "" => return []
  | _ => refuse

/-- The entries of a mapping whose keys are texts. A scalar that is left out has no entries. -/
def entries (t : Tree) (node : Node) : Reading (List (String × Node)) := do
  match ← t.follow node with
  | .mapping _ entries => entries.mapM fun (k, v) => return (← t.text k, v)
  | .scalar _ .plain "" => return []
  | _ => refuse

/-- A dictionary. Of several values under one key, the last counts. -/
def dictionary {α : Type} (t : Tree) (f : Node → Reading α) (node : Node) :
    Reading (Dictionary α) := do
  return .ofList (← (← t.entries node).mapM fun (k, v) => return (k, ← f v))

/-- The nodes of the fields of a record. No field may occur twice, and other keys are passed
over. -/
def fields (t : Tree) (names : List String) (node : Node) : Reading (List (Option Node)) := do
  let entries ← t.entries node
  names.mapM fun name =>
    match entries.filter (·.1 == name) with
    | [] => return none
    | [(_, node)] => return some node
    | _ => refuse

/-- A field that has a value of its own when it is missing. -/
def optional {α : Type} (default : α) (f : Node → Reading α) : Option Node → Reading α
  | none => return default
  | some node => f node

/-- Reads the root of a tree. -/
def read? {α : Type} (t : Tree) (f : Node → Reading α) : Option α :=
  ((f t.root).run (referencesPerNode * t.size)).map Prod.fst

end Tree

end RelQuery.Yaml
