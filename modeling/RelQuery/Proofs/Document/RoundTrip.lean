import RelQuery.Proofs.Data.Record
import RelQuery.Proofs.Json.RoundTrip

/-!
# RelQuery.Proofs.Document.RoundTrip

**A query document is read back as it was written.**

A document has many forms: the entries of a record may stand in any order, further entries are
passed over, and a part at its default may be left out. `Written` says which forms there are, one
rule for each kind of node. `readBy_ofData?` follows the rules: every form is read as its document.
What is written is one of the forms, the one that leaves nothing out, so it is read back; and since
it has only texts as keys and no number that is not an integer of 64 bits, so is its JSON text.
-/

namespace RelQuery

namespace Document

open Data (Form Nullable Defaulting ListOf DictionaryOf)

/-! ### The forms of a document -/

/-- The forms of the declaration of a column. -/
inductive ColumnDecl.Written : ColumnDecl → Data → Prop where
  | intro {c : ColumnDecl} {fields : List (String × Data)} :
    (fields.map Prod.fst).Nodup →
    fields.lookup "name" = some (.text c.name) →
    fields.lookup "type" = some (.text c.type) →
    Defaulting (Form .bool) false c.nullable (fields.lookup "nullable") →
    Written c (.object fields)

/-- The forms of the declaration of an aggregate. -/
inductive AggregateDecl.Written : AggregateDecl → Data → Prop where
  | intro {a : AggregateDecl} {fields : List (String × Data)} :
    (fields.map Prod.fst).Nodup →
    fields.lookup "type" = some (.text a.kind) →
    Defaulting (Nullable (Form .text)) none a.column (fields.lookup "column") →
    Defaulting (Nullable (Form .text)) none a.label (fields.lookup "alias") →
    Written a (.object fields)

/-- The forms of a node. The entry `op` names the kind of node; the entries of the fields of the
kind may stand in any order, and among others. -/
inductive Node.Written : Node → Data → Prop where
  | scan {relation : String} {fields : List (String × Data)} :
    (fields.map Prod.fst).Nodup →
    fields.lookup "op" = some (.text "scan") →
    fields.lookup "relation" = some (.text relation) →
    Written (.scan relation) (.object fields)
  | filter {node : Node} {expr : String} {input : Data} {fields : List (String × Data)} :
    (fields.map Prod.fst).Nodup →
    fields.lookup "op" = some (.text "filter") →
    fields.lookup "input" = some input → Written node input →
    fields.lookup "expr" = some (.text expr) →
    Written (.filter node expr) (.object fields)
  | project {node : Node} {columns : List String} {input : Data}
      {fields : List (String × Data)} :
    (fields.map Prod.fst).Nodup →
    fields.lookup "op" = some (.text "project") →
    fields.lookup "input" = some input → Written node input →
    fields.lookup "columns" = some (.texts columns) →
    Written (.project node columns) (.object fields)
  | rename {node : Node} {relation : Option String} {columns : Dictionary String} {input : Data}
      {fields : List (String × Data)} :
    (fields.map Prod.fst).Nodup →
    fields.lookup "op" = some (.text "rename") →
    fields.lookup "input" = some input → Written node input →
    Defaulting (Nullable (Form .text)) none relation (fields.lookup "relation") →
    Defaulting (DictionaryOf (Form .text)) .empty columns (fields.lookup "columns") →
    Written (.rename node relation columns) (.object fields)
  | aggregate {node : Node} {keys : List String} {aggregates : List AggregateDecl}
      {input aggs : Data} {fields : List (String × Data)} :
    (fields.map Prod.fst).Nodup →
    fields.lookup "op" = some (.text "aggregate") →
    fields.lookup "input" = some input → Written node input →
    Defaulting (Form .texts) [] keys (fields.lookup "group_by") →
    fields.lookup "aggs" = some aggs → ListOf AggregateDecl.Written aggregates aggs →
    Written (.aggregate node keys aggregates) (.object fields)
  | join {l r : Node} {type : String} {pairs : List (String × String)} {left right : Data}
      {fields : List (String × Data)} :
    (fields.map Prod.fst).Nodup →
    fields.lookup "op" = some (.text "join") →
    fields.lookup "left" = some left → Written l left →
    fields.lookup "right" = some right → Written r right →
    Defaulting (Form .text) Node.defaultJoinType type (fields.lookup "type") →
    Defaulting (ListOf (Form Data.ofPair)) [] pairs (fields.lookup "on") →
    Written (.join l r type pairs) (.object fields)

/-- The forms of a document. -/
inductive Written : Document → Data → Prop where
  | intro {d : Document} {inputs query : Data} {fields : List (String × Data)} :
    (fields.map Prod.fst).Nodup →
    fields.lookup "inputs" = some inputs →
    DictionaryOf (ListOf ColumnDecl.Written) d.inputs inputs →
    fields.lookup "query" = some query → d.query.Written query →
    Defaulting (Form .texts) [] d.sortBy (fields.lookup "sort_by") →
    Defaulting (Nullable (Form Data.ofWord)) none d.limit (fields.lookup "limit") →
    Defaulting (Nullable (Form .text)) none d.description (fields.lookup "description") →
    Written d (.object fields)

/-! ### Reading -/

/-- Texts that may be missing, such as the column of an aggregate. -/
theorem readBy_option_text : Data.ReadBy (Nullable (Form .text)) (Data.option? Data.text?) :=
  Data.readBy_text.nullable rfl

theorem ColumnDecl.readBy_ofData? : Data.ReadBy Written ofData? := by
  intro c d h
  obtain ⟨hdistinct, hname, htype, hnullable⟩ := h
  rw [ofData?, Data.record?_object (by decide) hdistinct]
  simp [hname, htype, Data.readBy_bool.defaulting hnullable, Data.text?]

theorem AggregateDecl.readBy_ofData? : Data.ReadBy Written ofData? := by
  intro a d h
  obtain ⟨hdistinct, hkind, hcolumn, hlabel⟩ := h
  rw [ofData?, Data.record?_object (by decide) hdistinct]
  simp [hkind, readBy_option_text.defaulting hcolumn, readBy_option_text.defaulting hlabel,
    Data.text?]

namespace Node

/-- The names of the fields of a kind differ from each other and from the key of the kind. -/
theorem distinct_of_lookup_fieldNames {kind : String} {names : List String}
    (h : fieldNames.lookup kind = some names) : names.Nodup ∧ "op" ∉ names := by
  have hall : ∀ entry ∈ fieldNames, entry.2.Nodup ∧ "op" ∉ entry.2 := by decide
  obtain ⟨before, after, heq, -⟩ := List.lookup_eq_some_iff.mp h
  exact hall (kind, names) (by rw [heq]; simp)

theorem isKindKey_text (s : String) : isKindKey (.text s) = (s == "op") := by
  by_cases h : s = "op"
  · rw [h]
    rfl
  · simp [isKindKey, h]

/-- The key of the kind is set aside, and the others are the fields. -/
theorem split?_object {fields : List (String × Data)} (hdistinct : (fields.map Prod.fst).Nodup)
    {kind : Data} (hkind : fields.lookup "op" = some kind) :
    split? (.object fields) =
      some (kind, .object (fields.filter fun field => !(field.1 == "op"))) := by
  have hfilter := filter_eq_lookup "op" hdistinct
  rw [hkind] at hfilter
  simp [split?, Data.object, List.filter_map, Function.comp_def, isKindKey_text, hfilter]

/-- The kind of a node and what its record holds under the names of its fields. -/
theorem fields?_object {fields : List (String × Data)} (hdistinct : (fields.map Prod.fst).Nodup)
    {kind : String} (hkind : fields.lookup "op" = some (.text kind)) {names : List String}
    (hnames : fieldNames.lookup kind = some names) (nested : Bool) :
    fields? nested (.object fields) = some (kind, names.map (fields.lookup ·)) := by
  obtain ⟨hdiffer, hop⟩ := distinct_of_lookup_fieldNames hnames
  have hrest : ((fields.filter fun field => !(field.1 == "op")).map Prod.fst).Nodup :=
    hdistinct.sublist (List.filter_sublist.map _)
  have hlookup : ∀ name ∈ names,
      (fields.filter fun field => !(field.1 == "op")).lookup name = fields.lookup name := by
    intro name hname
    refine lookup_filter_of_pos (p := fun name => !(name == "op")) ?_ fields
    have hne : name ≠ "op" := fun heq => hop (heq ▸ hname)
    simp [hne]
  rw [fields?, split?_object hdistinct hkind]
  simpa [kindOf?, hnames, Data.record?_object hdiffer hrest] using hlookup

/-- A bound for a record leaves one for each of its fields. -/
theorem exists_depth {fields : List (String × Data)} {depth : Nat}
    (h : (Data.object fields).size ≤ depth) :
    ∃ n, depth = n + 1 ∧ ∀ {key : String} {d : Data}, fields.lookup key = some d → d.size ≤ n := by
  cases depth with
  | zero => exact absurd h (by rw [Data.object, Data.size]; exact Nat.not_succ_le_zero _)
  | succ n =>
      exact ⟨n, rfl, fun hd => Nat.le_of_lt_succ (Nat.lt_of_lt_of_le (Data.size_lt_of_lookup hd) h)⟩

/-- A node is read back from each of its forms, within any bound on the depth that is not less than
the size of the form. -/
theorem ofDataWithin?_of_written {node : Node} {d : Data} (h : node.Written d) :
    ∀ {depth : Nat} (nested : Bool), d.size ≤ depth →
      ofDataWithin? depth nested d = some node := by
  -- Nodes are nested everywhere but at the top; both are shown at once, as their texts read alike.
  induction h with
  | scan hdistinct hkind hrelation =>
      intro _ nested hdepth
      obtain ⟨depth, rfl, -⟩ := exists_depth hdepth
      rw [ofDataWithin?, fields?_object hdistinct hkind rfl]
      simp [hrelation, Data.text?]
  | filter hdistinct hkind hinput _ hexpr ih =>
      intro _ nested hdepth
      obtain ⟨depth, rfl, hparts⟩ := exists_depth hdepth
      rw [ofDataWithin?, fields?_object hdistinct hkind rfl]
      simp [hinput, ih true (hparts hinput), hexpr, Data.text?]
  | project hdistinct hkind hinput _ hcolumns ih =>
      intro _ nested hdepth
      obtain ⟨depth, rfl, hparts⟩ := exists_depth hdepth
      rw [ofDataWithin?, fields?_object hdistinct hkind rfl]
      simp [hinput, ih true (hparts hinput), hcolumns, Data.readBy_texts _ _ rfl]
  | rename hdistinct hkind hinput _ hrelation hcolumns ih =>
      intro _ nested hdepth
      obtain ⟨depth, rfl, hparts⟩ := exists_depth hdepth
      rw [ofDataWithin?, fields?_object hdistinct hkind rfl]
      simp [hinput, ih true (hparts hinput), readBy_option_text.defaulting hrelation,
        Data.readBy_text.dictionaryOf.defaulting hcolumns]
  | aggregate hdistinct hkind hinput _ hkeys haggs haggregates ih =>
      intro _ nested hdepth
      obtain ⟨depth, rfl, hparts⟩ := exists_depth hdepth
      rw [ofDataWithin?, fields?_object hdistinct hkind rfl]
      simp [hinput, ih true (hparts hinput), Data.readBy_texts.defaulting hkeys, haggs,
        AggregateDecl.readBy_ofData?.listOf _ _ haggregates]
  | join hdistinct hkind hleft _ hright _ htype hpairs ihl ihr =>
      intro _ nested hdepth
      obtain ⟨depth, rfl, hparts⟩ := exists_depth hdepth
      rw [ofDataWithin?, fields?_object hdistinct hkind rfl]
      simp [hleft, ihl true (hparts hleft), hright, ihr true (hparts hright),
        Data.readBy_text.defaulting htype, Data.readBy_pair.listOf.defaulting hpairs]

theorem readBy_ofData? : Data.ReadBy Written ofData? :=
  fun _ _ h => ofDataWithin?_of_written h false (Nat.le_refl _)

end Node

/-- **A document is read from each of its forms.** -/
theorem readBy_ofData? : Data.ReadBy Written ofData? := by
  intro document d h
  obtain ⟨hdistinct, hinputs, hcolumns, hquery, hnode, hsort, hlimit, hdescription⟩ := h
  rw [ofData?, Data.record?_object (by decide) hdistinct]
  simp [hinputs, ColumnDecl.readBy_ofData?.listOf.dictionaryOf _ _ hcolumns, hquery,
    Node.readBy_ofData? _ _ hnode, Data.readBy_texts.defaulting hsort,
    (Data.readBy_word.nullable rfl).defaulting hlimit, readBy_option_text.defaulting hdescription]

/-! ### Writing -/

theorem ColumnDecl.written_toData (c : ColumnDecl) : c.Written c.toData :=
  .intro (by simp) rfl rfl (.given rfl)

theorem AggregateDecl.written_toData (a : AggregateDecl) : a.Written a.toData :=
  .intro (by simp) rfl (.given (Data.nullable_ofOption (Data.form_self _) _))
    (.given (Data.nullable_ofOption (Data.form_self _) _))

theorem Node.written_toData (node : Node) : node.Written node.toData := by
  induction node with
  | scan relation => exact .scan (by simp) rfl rfl
  | filter input expr ih => exact .filter (by simp) rfl rfl ih rfl
  | project input columns ih => exact .project (by simp) rfl rfl ih rfl
  | rename input relation columns ih =>
      exact .rename (by simp) rfl rfl ih (.given (Data.nullable_ofOption (Data.form_self _) _))
        (.given (Data.dictionaryOf_ofDictionary (Data.form_self _) _))
  | aggregate input keys aggregates ih =>
      exact .aggregate (by simp) rfl rfl ih (.given rfl) rfl
        (Data.listOf_map fun a _ => a.written_toData)
  | join left right type pairs ihl ihr =>
      exact .join (by simp) rfl rfl ihl rfl ihr (.given rfl)
        (.given (Data.listOf_map fun _ _ => rfl))

/-- What is written is a form of the document, in which no part is left out. -/
theorem written_toData (d : Document) : d.Written d.toData :=
  .intro (by simp) rfl
    (Data.dictionaryOf_ofDictionary (fun _ => Data.listOf_map fun c _ => c.written_toData) _) rfl
    d.query.written_toData (.given rfl) (.given (Data.nullable_ofOption (Data.form_self _) _))
    (.given (Data.nullable_ofOption (Data.form_self _) _))

/-! ### JSON texts -/

theorem exact_list_map {α : Type} {write : α → Data} (h : ∀ a, (write a).Exact) (xs : List α) :
    (Data.list (xs.map write)).Exact := by
  refine .list fun d hd => ?_
  obtain ⟨a, -, rfl⟩ := List.mem_map.mp hd
  exact h a

theorem exact_texts (xs : List String) : (Data.texts xs).Exact :=
  exact_list_map Data.Exact.text xs

theorem exact_ofOption {α : Type} {write : α → Data} (h : ∀ a, (write a).Exact) :
    ∀ a : Option α, (Data.ofOption write a).Exact
  | none => .null
  | some a => h a

theorem exact_ofDictionary {α : Type} {write : α → Data} (h : ∀ a, (write a).Exact)
    (d : Dictionary α) : (Data.ofDictionary write d).Exact := by
  refine .object fun field hfield => ?_
  obtain ⟨e, -, rfl⟩ := List.mem_map.mp hfield
  exact h e.2

theorem exact_ofWord (n : UInt64) : (Data.ofWord n).Exact := by
  have hlt : n.toNat < UInt64.size := n.toNat_lt
  have hmin : Int64.minValue.toInt ≤ 0 := by decide
  exact .int (by omega) (by omega)

theorem ColumnDecl.exact_toData (c : ColumnDecl) : c.toData.Exact :=
  .object (by simp [Data.Exact.text, Data.Exact.bool])

theorem AggregateDecl.exact_toData (a : AggregateDecl) : a.toData.Exact :=
  .object (by simp [Data.Exact.text, exact_ofOption Data.Exact.text])

theorem Node.exact_toData (node : Node) : node.toData.Exact := by
  induction node with
  | scan relation => exact .object (by simp [Data.Exact.text])
  | filter input expr ih => exact .object (by simp [Data.Exact.text, ih])
  | project input columns ih => exact .object (by simp [Data.Exact.text, ih, exact_texts])
  | rename input relation columns ih =>
      exact .object (by
        simp [Data.Exact.text, ih, exact_ofOption Data.Exact.text,
          exact_ofDictionary Data.Exact.text])
  | aggregate input keys aggregates ih =>
      exact .object (by
        simp [Data.Exact.text, ih, exact_texts, exact_list_map AggregateDecl.exact_toData])
  | join left right type pairs ihl ihr =>
      have hpair : ∀ p, (Data.ofPair p).Exact := fun p => exact_texts _
      exact .object (by simp [Data.Exact.text, ihl, ihr, exact_list_map hpair])

theorem exact_toData (d : Document) : d.toData.Exact := by
  have hinputs := exact_ofDictionary (exact_list_map ColumnDecl.exact_toData) d.inputs
  have hlimit : (Data.ofOption (fun n : UInt64 => .int n.toNat) d.limit).Exact :=
    exact_ofOption exact_ofWord d.limit
  exact .object (by
    simp [hinputs, d.query.exact_toData, exact_texts, hlimit, exact_ofOption Data.Exact.text])

/-- The JSON text of a document. -/
def toJson (d : Document) : String :=
  Json.write d.toData

/-- The document that a JSON text denotes. -/
def ofJson? (s : String) : Option Document :=
  (Json.read? s).bind ofData?

theorem ofJson?_toJson (d : Document) : ofJson? d.toJson = some d := by
  rw [ofJson?, toJson, Json.read?_write d.exact_toData]
  exact readBy_ofData? d _ d.written_toData

/-- **Documents survive being written.** The JSON text of a document is read back as the document;
whatever JSON text a document was read from, its own text is read as the same document; and every
form of a document is read as that document, whether its optional parts are written out, as in the
form that is written, or left out at their defaults. -/
theorem rereads :
    (∀ d : Document, ofJson? d.toJson = some d) ∧
      (∀ s : String, (ofJson? s).bind (fun d => ofJson? d.toJson) = ofJson? s) ∧
      (∀ d : Document, d.Written d.toData) ∧
      ∀ (d : Document) (data : Data), d.Written data → ofData? data = some d := by
  refine ⟨ofJson?_toJson, fun s => ?_, written_toData, readBy_ofData?⟩
  cases ofJson? s with
  | none => rfl
  | some d => exact ofJson?_toJson d

/-- Written with blanks, and read with defaults. -/
example :
    ofJson? ("\x7b\"inputs\": \x7b\x7d, " ++
      "\"query\": \x7b\"op\": \"scan\", \"relation\": \"beds\"\x7d\x7d") =
    some ⟨.empty, .scan "beds", [], none, none⟩ := by
  cbv

/-- All pairs of rows of an input and its number of rows, with every default. -/
def tally : Document where
  inputs := Dictionary.empty.insert "beds" [⟨"id", "Int64", false⟩]
  query := .join (.rename (.scan "beds") none .empty)
    (.aggregate (.scan "beds") [] [⟨"count_rows", none, none⟩]) "inner" []
  sortBy := []
  limit := none
  description := none

/-- The same with everything left out that can be, and a key that names nothing. -/
def tallyInBrief : Data :=
  let beds := .object [("relation", .text "beds"), ("op", .text "scan")]
  .object [("query", .object [("op", .text "join"),
      ("left", .object [("input", beds), ("op", .text "rename")]),
      ("right", .object [("op", .text "aggregate"), ("input", beds),
        ("aggs", .list [.object [("type", .text "count_rows")]])])]),
    ("note", .null),
    ("inputs", .object [("beds", .list [.object [("type", .text "Int64"),
      ("name", .text "id")]])])]

theorem rereads_tally : tally.Written tallyInBrief ∧ ofData? tallyInBrief = some tally := by
  have hbeds : (Node.scan "beds").Written
      (.object [("relation", .text "beds"), ("op", .text "scan")]) :=
    .scan (by simp) rfl rfl
  have hcount : AggregateDecl.Written ⟨"count_rows", none, none⟩
      (.object [("type", .text "count_rows")]) :=
    .intro (by simp) rfl .missing .missing
  have hid : ColumnDecl.Written ⟨"id", "Int64", false⟩
      (.object [("type", .text "Int64"), ("name", .text "id")]) :=
    .intro (by simp) rfl rfl .missing
  have hwritten : tally.Written tallyInBrief := by
    refine .intro (by simp) rfl ?_ rfl ?_ .missing .missing .missing
    · exact .intro (.refl _) (.cons ⟨rfl, .intro (.cons hid .nil)⟩ .nil)
    · refine .join (by simp) rfl rfl ?_ rfl ?_ .missing .missing
      · exact .rename (by simp) rfl rfl hbeds .missing .missing
      · exact .aggregate (by simp) rfl rfl hbeds .missing rfl (.intro (.cons hcount .nil))
  exact ⟨hwritten, rereads.2.2.2 tally tallyInBrief hwritten⟩

end Document

end RelQuery
