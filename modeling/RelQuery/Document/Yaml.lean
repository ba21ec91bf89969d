import RelQuery.Document.Codec
import RelQuery.Yaml.Reading

/-!
# RelQuery.Document.Yaml

Query documents written in YAML.

The frame of a document is read by the types of its fields, so that a name may be written without
quotes even if it looks like a number. The query tree is read as data first, where it does matter
how a scalar is written: a name that looks like a number has to be quoted there. The kind of its
topmost node still belongs to the frame.
-/

namespace RelQuery

namespace Document

open Yaml (Tree Reading Node)

namespace ColumnDecl

/-- The declaration of a column that a node holds. -/
def ofYaml (t : Tree) (node : Yaml.Node) : Reading ColumnDecl := do
  match ← t.fields ["name", "type", "nullable"] node with
  | [some name, some type, nullable] =>
    return ⟨← t.text name, ← t.text type, ← Tree.optional false t.bool nullable⟩
  | _ => Reading.refuse

end ColumnDecl

namespace Node

/-- The data inside the topmost node of a query tree. -/
def partOfYaml (t : Tree) (node : Yaml.Node) : Reading Data :=
  t.data (Yaml.greatestDepth - 1) node

/-- The data of the kind of the topmost node: its text, whatever its tag and its style are. -/
def kindOfYaml (t : Tree) (node : Yaml.Node) : Reading Data :=
  return .text (← t.text node)

/-- The data of the topmost node of a query tree. -/
def dataOfYaml (t : Tree) (node : Yaml.Node) : Reading Data := do
  match ← t.follow node with
  | .sequence tag (kind :: items) =>
    if Yaml.isForeign tag then Reading.refuse
    else return .list ((← kindOfYaml t kind) :: (← items.mapM (partOfYaml t)))
  | .mapping tag entries =>
    if Yaml.isForeign tag then Reading.refuse
    else
      return .map (← entries.mapM fun (k, v) => do
        let k ← partOfYaml t k
        return (k, ← if isKindKey k then kindOfYaml t v else partOfYaml t v))
  | _ => Reading.refuse

/-- The query tree that a node holds. -/
def ofYaml (t : Tree) (node : Yaml.Node) : Reading Document.Node := do
  Reading.ofOption (Node.ofData? (← dataOfYaml t node))

end Node

/-- The document that a node holds. -/
def ofYamlNode (t : Tree) (node : Yaml.Node) : Reading Document := do
  match ← t.fields ["inputs", "query", "sort_by", "limit", "description"] node with
  | [some inputs, some query, sortBy, limit, description] =>
    return ⟨← t.dictionary (t.list (ColumnDecl.ofYaml t)) inputs, ← Node.ofYaml t query,
      ← Tree.optional [] (t.list t.text) sortBy,
      ← Tree.optional none (t.option t.count) limit,
      ← Tree.optional none (t.option t.text) description⟩
  | _ => Reading.refuse

/-- The document that a YAML text holds. -/
def ofYaml? (s : String) : Option Document := do
  let t ← Yaml.tree? s
  t.read? (ofYamlNode t)

end Document

end RelQuery
