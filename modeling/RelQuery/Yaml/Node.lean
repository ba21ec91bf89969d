import RelQuery.Yaml.Token

/-!
# RelQuery.Yaml.Node

The nodes of a YAML document, put together from its tokens.

A node is a scalar, a sequence, a mapping, or a reference to a node with an anchor; a scalar that is
left out is the empty plain scalar. A `Tree` is the root of a document with its anchored nodes.
References are kept as references, so that a tree is never larger than its text, and a collection
may refer to itself.

Only texts with exactly one document have a tree.
-/

namespace RelQuery.Yaml

/-- A node of a document. Tags are given in full. -/
inductive Node where
  | scalar (tag : Option Tag) (style : Style) (text : String)
  | sequence (tag : Option Tag) (items : List Node)
  /-- A mapping, as its entries in order. -/
  | mapping (tag : Option Tag) (entries : List (Node × Node))
  /-- A reference to the node whose anchor has this number. -/
  | reference (number : Nat)
deriving Repr, Inhabited

namespace Node

/-- The node of a scalar that is left out. -/
def empty : Node := .scalar none .plain ""

end Node

/-- A node with an anchor. -/
structure Anchored where
  number : Nat
  /-- How many nodes and ends of collections come before it. -/
  position : Nat
  node : Node
deriving Repr, Inhabited

/-- A document. -/
structure Tree where
  root : Node
  anchored : List Anchored
  /-- The number of its nodes and ends of collections. -/
  size : Nat
deriving Repr, Inhabited

namespace Tree

/-- The later one of two anchored nodes. -/
def later (a b : Anchored) : Anchored :=
  if a.position < b.position then b else a

/-- The node that a reference means. Of several nodes with one number it is the last one. -/
def target? (t : Tree) (number : Nat) : Option Node :=
  match t.anchored.filter (·.number == number) with
  | [] => none
  | a :: as => some (as.foldl later a).node

end Tree

/-- Tokens in the middle of being put together. -/
structure Loading where
  /-- The tokens that are still to be read. -/
  tokens : List Token
  /-- The handles for tags, and what they stand for. -/
  handles : List (String × Tag)
  /-- The names of the anchors, and the number each one had last. -/
  names : List (String × Nat)
  /-- The anchored nodes so far. -/
  anchored : List Anchored
  /-- The nodes and ends of collections so far. -/
  size : Nat

/-- A computation on tokens that can be refused. -/
abbrev Load := StateT Loading Option

namespace Load

/-- The tokens cannot be put together. -/
def refuse {α : Type} : Load α := fun _ => none

/-- The next token; none at the end. -/
def peek : Load (Option Token) := fun s => some (s.tokens.head?, s)

/-- Passes over the next token, whichever it is. -/
def drop : Load Unit := modify fun s => { s with tokens := s.tokens.drop 1 }

/-- Counts a node or the end of a collection, and gives its position. -/
def count : Load Nat := fun s => some (s.size, { s with size := s.size + 1 })

/-- Passes over a token, which has to be the next one. -/
def expect (t : Token) : Load Unit := do
  if (← peek) == some t then drop else refuse

/-! ### Anchors and tags -/

/-- What a node can have in front. -/
structure Properties where
  anchor : Option String
  /-- Its tag, as handle and suffix. -/
  tag : Option (String × Tag)

/-- The anchor and the tag in front of a node, in either order. -/
def properties : Load Properties := do
  match ← peek with
  | some (.anchor name) =>
    drop
    match ← peek with
    | some (.tag handle suffix) => drop; return ⟨some name, some (handle, suffix)⟩
    | _ => return ⟨some name, none⟩
  | some (.tag handle suffix) =>
    drop
    match ← peek with
    | some (.anchor name) => drop; return ⟨some name, some (handle, suffix)⟩
    | _ => return ⟨none, some (handle, suffix)⟩
  | _ => return ⟨none, none⟩

/-- A tag in full. Its handle has to be known. -/
def fullTag : Option (String × Tag) → Load (Option Tag)
  | none => return none
  | some ("", suffix) => return some suffix
  | some (handle, suffix) => do
    match (← get).handles.lookup handle with
    | some expansion => return some (expansion.append suffix)
    | none => refuse

/-- Gives a number to an anchor: the number of names so far. A name that is used again keeps its
place among the names, so its number is also that of the next new name. -/
def nameAnchor (name : String) : Load Nat := do
  let s ← get
  let number := s.names.length
  set { s with names := (name, number) :: s.names.filter fun e => e.1 != name }
  return number

/-- The number that a reference means. -/
def reference (name : String) : Load Node := do
  match (← get).names.lookup name with
  | some number => return .reference number
  | none => refuse

/-- Keeps an anchored node. -/
def keep (number : Option Nat) (position : Nat) (node : Node) : Load Node := do
  match number with
  | some number =>
    modify fun s => { s with anchored := ⟨number, position, node⟩ :: s.anchored }
    return node
  | none => return node

/-- A scalar that is left out. -/
def missing : Load Node := do
  let _ ← count
  return .empty

/-! ### Nodes -/

/-- Whether a token can stand where the value of an element or an entry is left out. -/
def isAmong (ends : List Token) (t : Option Token) : Bool :=
  t.any ends.contains

mutual

/-- A node. Block collections are allowed in a block; where a mapping allows it, a sequence need not
be indented. -/
def node (steps : Nat) (inBlock indentless : Bool) : Load Node :=
  match steps with
  | 0 => refuse
  | steps + 1 => do
    match ← peek with
    | some (.reference name) =>
      drop
      let _ ← count
      reference name
    | _ =>
      let p ← properties
      let tag ← fullTag p.tag
      let number ← p.anchor.mapM nameAnchor
      let position ← count
      let node ← match ← peek, inBlock with
        | some (.scalar style text), _ => do drop; pure (.scalar tag style text)
        | some .openSequence, _ => do drop; pure (.sequence tag (← flowItems steps true))
        | some .openMapping, _ => do drop; pure (.mapping tag (← flowEntries steps true))
        | some .blockSequence, true => do drop; pure (.sequence tag (← blockItems steps))
        | some .blockMapping, true => do drop; pure (.mapping tag (← blockEntries steps))
        | next, _ =>
          if indentless && next == some .dash then do
            pure (Node.sequence tag (← looseItems steps))
          else if p.anchor.isSome || tag.isSome then pure (.scalar tag .plain "")
          else refuse
      keep number position node

/-- A node, or a scalar that is left out in front of one of these tokens. -/
def nodeUnless (steps : Nat) (ends : List Token) (inBlock indentless : Bool) : Load Node :=
  match steps with
  | 0 => refuse
  | steps + 1 => do
    if isAmong ends (← peek) then missing else node steps inBlock indentless

/-- The elements of an indented sequence, and its end. -/
def blockItems (steps : Nat) : Load (List Node) :=
  match steps with
  | 0 => refuse
  | steps + 1 => do
    match ← peek with
    | some .dash =>
      drop
      let item ← nodeUnless steps [.dash, .blockEnd] true false
      return item :: (← blockItems steps)
    | some .blockEnd =>
      drop
      let _ ← count
      return []
    | _ => refuse

/-- The elements of a sequence that is not indented. -/
def looseItems (steps : Nat) : Load (List Node) :=
  match steps with
  | 0 => refuse
  | steps + 1 => do
    match ← peek with
    | some .dash =>
      drop
      let item ← nodeUnless steps [.dash, .key, .value, .blockEnd] true false
      return item :: (← looseItems steps)
    | _ =>
      let _ ← count
      return []

/-- The entries of an indented mapping, and its end. -/
def blockEntries (steps : Nat) : Load (List (Node × Node)) :=
  match steps with
  | 0 => refuse
  | steps + 1 => do
    match ← peek with
    | some .key =>
      drop
      let key ← nodeUnless steps [.key, .value, .blockEnd] true true
      let value ← match ← peek with
        | some .value => do drop; nodeUnless steps [.key, .value, .blockEnd] true true
        | _ => missing
      return (key, value) :: (← blockEntries steps)
    | some .blockEnd =>
      drop
      let _ ← count
      return []
    | _ => refuse

/-- The value of an entry inside brackets, in front of a comma or the closing bracket. -/
def flowValue (steps : Nat) (closing : Token) : Load Node :=
  match steps with
  | 0 => refuse
  | steps + 1 => do
    match ← peek with
    | some .value =>
      drop
      nodeUnless steps [.comma, closing] false false
    | _ => missing

/-- The elements of a bracketed sequence, and its end. An element with a colon is a mapping of one
entry. -/
def flowItems (steps : Nat) (first : Bool) : Load (List Node) :=
  match steps with
  | 0 => refuse
  | steps + 1 => do
    if !first && (← peek) != some .closeSequence then expect .comma
    match ← peek with
    | some .closeSequence =>
      drop
      let _ ← count
      return []
    | some .key =>
      drop
      let _ ← count
      -- A mark that stands in place of the key is passed over with it.
      let key ← match ← peek with
        | some .value | some .comma | some .closeSequence => do drop; missing
        | _ => node steps false false
      let value ← flowValue steps .closeSequence
      let _ ← count
      return .mapping none [(key, value)] :: (← flowItems steps false)
    | _ =>
      let item ← node steps false false
      return item :: (← flowItems steps false)

/-- The entries of a bracketed mapping, and its end. An entry without a colon has an empty value. -/
def flowEntries (steps : Nat) (first : Bool) : Load (List (Node × Node)) :=
  match steps with
  | 0 => refuse
  | steps + 1 => do
    if !first && (← peek) != some .closeMapping then expect .comma
    match ← peek with
    | some .closeMapping =>
      drop
      let _ ← count
      return []
    | some .key =>
      drop
      let key ← nodeUnless steps [.value, .comma, .closeMapping] false false
      let value ← flowValue steps .closeMapping
      return (key, value) :: (← flowEntries steps false)
    | _ =>
      let key ← node steps false false
      let value ← missing
      return (key, value) :: (← flowEntries steps false)

end

/-! ### Documents -/

/-- The handles that every document knows, unless it gives them another meaning. -/
def standardHandles : List (String × Tag) :=
  [("!", .ofText "!"), ("!!", .ofText Tag.standardStart)]

/-- The directives of a document. There is one version at most, which has to be a known one, and
every handle is declared once. The flag tells whether a version has been seen, the count how many
directives. -/
def directives (steps : Nat) (versioned : Bool) (seen : Nat) : Load Nat :=
  match steps with
  | 0 => refuse
  | steps + 1 => do
    match ← peek with
    | some (.version major minor) =>
      if versioned || major != 1 || (minor != 1 && minor != 2) then refuse
      else do
        drop
        directives steps true (seen + 1)
    | some (.tagHandle handle expansion) =>
      let s ← get
      if (s.handles.lookup handle).isSome then refuse
      else do
        set { s with handles := (handle, expansion) :: s.handles }
        drop
        directives steps versioned (seen + 1)
    | _ => return seen

/-- The root of a document behind the marks in front of it; it may be left out. -/
def content (steps : Nat) : Load Node := do
  match ← peek with
  | none | some .documentStart | some .documentEnd | some (.version ..) | some (.tagHandle ..) =>
    missing
  | _ => node steps true false

/-- A document. Behind directives, the marks in front of it may not be left out. -/
def document (steps : Nat) : Load Node := do
  let directives ← directives steps false 0
  modify fun s => { s with handles := s.handles ++ standardHandles }
  match ← peek with
  | some .documentStart =>
    drop
    content steps
  | _ => if directives = 0 then node steps true false else refuse

/-- The end of the text: nothing but marks behind the document. -/
def finish : Load Unit := fun s =>
  if s.tokens.all (· == .documentEnd) then some ((), s) else none

end Load

/-- The only document of a YAML text. Two steps for each token are enough. -/
def tree? (s : String) : Option Tree := do
  let tokens ← tokens? s
  let load : Load Node := do
    let root ← Load.document (3 * tokens.length + 3)
    Load.finish
    return root
  let (root, final) ← load.run ⟨tokens, [], [], [], 0⟩
  return ⟨root, final.anchored, final.size⟩

end RelQuery.Yaml
