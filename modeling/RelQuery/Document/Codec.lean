import RelQuery.Data
import RelQuery.Document

/-!
# RelQuery.Document.Codec

The data form of query documents.

A node is a map whose entry `op` names the kind of node, next to the entries of its fields. Reading
accepts the kind also in front of a list of the fields. Optional parts may be left out; writing
writes all of them. Maps are read as dictionaries, so of two entries with one key the later counts,
whereas a record with two values for one field is refused.
-/

namespace RelQuery

namespace Data

/-- A dictionary, as a map. -/
def ofDictionary {α : Type} (f : α → Data) (d : Dictionary α) : Data :=
  object (d.entries.map fun (name, a) => (name, f a))

/-- The dictionary of a map whose keys are texts. -/
def dictionary? {α : Type} (f : Data → Option α) : Data → Option (Dictionary α)
  | map entries => do
    return Dictionary.ofList (← entries.mapM fun (key, v) => return (← key.text?, ← f v))
  | _ => none

/-- A pair of texts, as a list. -/
def ofPair (p : String × String) : Data := texts [p.1, p.2]

/-- The pair of texts that a list holds. -/
def pair? : Data → Option (String × String)
  | list [a, b] => return (← a.text?, ← b.text?)
  | _ => none

/-- A list of values. -/
def listOf? {α : Type} (f : Data → Option α) (d : Data) : Option (List α) :=
  d.list?.bind fun xs => xs.mapM f

end Data

namespace Document

namespace ColumnDecl

/-- The data form of a declared column. -/
def toData (c : ColumnDecl) : Data :=
  .object [("name", .text c.name), ("type", .text c.type), ("nullable", .bool c.nullable)]

/-- The declared column with this data form; it is not nullable unless it says so. -/
def ofData? (d : Data) : Option ColumnDecl := do
  match ← d.record? ["name", "type", "nullable"] with
  | [some name, some type, nullable] =>
    return ⟨← name.text?, ← type.text?, ← Data.optional? false Data.bool? nullable⟩
  | _ => none

end ColumnDecl

namespace AggregateDecl

/-- The data form of an aggregate, with its column and its label written out. -/
def toData (a : AggregateDecl) : Data :=
  .object [("type", .text a.kind), ("column", Data.ofOption .text a.column),
    ("alias", Data.ofOption .text a.label)]

/-- The aggregate with this data form. -/
def ofData? (d : Data) : Option AggregateDecl := do
  match ← d.record? ["type", "column", "alias"] with
  | [some kind, column, label] =>
    return ⟨← kind.text?, ← Data.optional? none (Data.option? Data.text?) column,
      ← Data.optional? none (Data.option? Data.text?) label⟩
  | _ => none

end AggregateDecl

namespace Node

/-- The kinds of nodes, and the names of their fields in order. -/
def fieldNames : List (String × List String) :=
  [("scan", ["relation"]), ("filter", ["input", "expr"]), ("project", ["input", "columns"]),
    ("rename", ["input", "relation", "columns"]), ("aggregate", ["input", "group_by", "aggs"]),
    ("join", ["left", "right", "type", "on"])]

/-- The type of a join that does not give one. -/
def defaultJoinType : String := "inner"

/-- The data form of a node, with every optional part written out. -/
def toData : Node → Data
  | scan relation => .object [("op", .text "scan"), ("relation", .text relation)]
  | filter input expr =>
    .object [("op", .text "filter"), ("input", input.toData), ("expr", .text expr)]
  | project input columns =>
    .object [("op", .text "project"), ("input", input.toData), ("columns", .texts columns)]
  | rename input relation columns =>
    .object [("op", .text "rename"), ("input", input.toData),
      ("relation", Data.ofOption .text relation), ("columns", Data.ofDictionary .text columns)]
  | aggregate input keys aggregates =>
    .object [("op", .text "aggregate"), ("input", input.toData), ("group_by", .texts keys),
      ("aggs", .list (aggregates.map AggregateDecl.toData))]
  | join left right type pairs =>
    .object [("op", .text "join"), ("left", left.toData), ("right", right.toData),
      ("type", .text type), ("on", .list (pairs.map Data.ofPair))]

/-- Whether a key is the one that names the kind of a node. -/
def isKindKey : Data → Bool
  | .text "op" => true
  | _ => false

/-- The kind of a node and its fields, in the two forms a node can have. A map has to name the kind
exactly once. -/
def split? : Data → Option (Data × Data)
  | .map entries =>
    match entries.filter fun e => isKindKey e.1 with
    | [kind] => some (kind.2, .map (entries.filter fun e => !isKindKey e.1))
    | _ => none
  | .list (kind :: fields) => some (kind, .list fields)
  | _ => none

/-- The name of a kind of node. Below the topmost node, a kind may also be given by its number. -/
def kindOf? (nested : Bool) : Data → Option String
  | .text name => if (fieldNames.lookup name).isSome then some name else none
  | .int n => if nested && 0 ≤ n then fieldNames[n.toNat]?.map Prod.fst else none
  | _ => none

/-- The kind of a node and the values of its fields. -/
def fields? (nested : Bool) (d : Data) : Option (String × List (Option Data)) := do
  let (kind, rest) ← split? d
  let kind ← kindOf? nested kind
  let values ← rest.record? (← fieldNames.lookup kind)
  return (kind, values)

/-- The node with this data form, for a bound on the depth of the tree. -/
def ofDataWithin? (depth : Nat) (nested : Bool) (d : Data) : Option Node :=
  match depth with
  | 0 => none
  | depth + 1 => do
    match ← fields? nested d with
    | ("scan", [some relation]) => return scan (← relation.text?)
    | ("filter", [some input, some expr]) =>
      return filter (← ofDataWithin? depth true input) (← expr.text?)
    | ("project", [some input, some columns]) =>
      return project (← ofDataWithin? depth true input) (← columns.texts?)
    | ("rename", [some input, relation, columns]) =>
      return rename (← ofDataWithin? depth true input)
        (← Data.optional? none (Data.option? Data.text?) relation)
        (← Data.optional? .empty (Data.dictionary? Data.text?) columns)
    | ("aggregate", [some input, keys, some aggregates]) =>
      return aggregate (← ofDataWithin? depth true input)
        (← Data.optional? [] Data.texts? keys) (← Data.listOf? AggregateDecl.ofData? aggregates)
    | ("join", [some left, some right, type, pairs]) =>
      return join (← ofDataWithin? depth true left) (← ofDataWithin? depth true right)
        (← Data.optional? defaultJoinType Data.text? type)
        (← Data.optional? [] (Data.listOf? Data.pair?) pairs)
    | _ => none

/-- The node with this data form. A part of data is smaller than the whole, so the size of the data
bounds the depth of the tree. -/
def ofData? (d : Data) : Option Node :=
  ofDataWithin? d.size false d

end Node

/-- The data form of a document, with every optional part written out. -/
def toData (d : Document) : Data :=
  .object [("inputs", Data.ofDictionary (fun cs => .list (cs.map ColumnDecl.toData)) d.inputs),
    ("query", d.query.toData), ("sort_by", .texts d.sortBy),
    ("limit", Data.ofOption (fun n : UInt64 => .int n.toNat) d.limit),
    ("description", Data.ofOption .text d.description)]

/-- The document with this data form. -/
def ofData? (d : Data) : Option Document := do
  match ← d.record? ["inputs", "query", "sort_by", "limit", "description"] with
  | [some inputs, some query, sortBy, limit, description] =>
    return ⟨← Data.dictionary? (Data.listOf? ColumnDecl.ofData?) inputs, ← Node.ofData? query,
      ← Data.optional? [] Data.texts? sortBy,
      ← Data.optional? none (Data.option? Data.word?) limit,
      ← Data.optional? none (Data.option? Data.text?) description⟩
  | _ => none

end Document

end RelQuery
