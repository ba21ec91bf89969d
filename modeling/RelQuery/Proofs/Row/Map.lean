import RelQuery.Algebra.RowMap
import RelQuery.Proofs.Row.Conform

/-!
# RelQuery.Proofs.Row.Map

Where the **output columns of a map** come from.

What a map is written as says by names alone what each output column is called and what stands in
it: these are the `entries` of its form. Planning makes two other lists, the output columns and what
feeds each of them, and a map applied to a row looks at the feeds alone. So planning has to see to
it that the three belong together: a column that is copied is fed from the position at which its
name is found (`plan_supplies`), has the type of the input column there, and takes null where that
does (`plan_fedBy`). A column is found again by its name only if the names of the input differ. A
plan with a star or a rename lists all of them, and it would have been refused if they did not.
-/

namespace RelQuery

/-- Two lists that belong to a third, element by element, belong to each other. -/
theorem forall₂_through {α β γ : Type} {R : α → β → Prop} {S : α → γ → Prop} {T : β → γ → Prop}
    (h : ∀ a b c, R a b → S a c → T b c) : ∀ {as : List α} {bs : List β} {cs : List γ},
    List.Forall₂ R as bs → List.Forall₂ S as cs → List.Forall₂ T bs cs
  | _, _, _, .nil, .nil => .nil
  | _, _, _, .cons hab hbs, .cons hac hcs =>
      .cons (h _ _ _ hab hac) (forall₂_through h hbs hcs)

/-- An element of a list belongs to one of the other. -/
theorem exists_of_mem_forall₂ {α β : Type} {R : α → β → Prop} {as : List α} {bs : List β}
    (h : List.Forall₂ R as bs) {a : α} (ha : a ∈ as) : ∃ b ∈ bs, R a b := by
  obtain ⟨i, hi, rfl⟩ := List.getElem_of_mem ha
  have hi' : i < bs.length := List.Forall₂.length_eq h ▸ hi
  exact ⟨bs[i], List.getElem_mem hi', List.Forall₂.get h hi hi'⟩

/-- What stands in an output column: the value of an input column, or that of an expression. -/
inductive Content where
  | copied (column : String)
  | computed (expr : ValueExpr)

/-- The output columns that an item stands for, each under its name. -/
def OutputItem.entries (source : Schema) : OutputItem → List (String × Content)
  | .all => source.names.map fun name => (name, .copied name)
  | .column name label => [(label.getD name, .copied name)]
  | .computed name expr => [(name, .computed expr)]

/-- The output columns that a map is written as, in order. A rename keeps all columns, those that it
does not list under their own names. -/
def MapForm.entries (source : Schema) : MapForm → List (String × Content)
  | .projection columns => columns.flatMap fun name => (OutputItem.ofName name).entries source
  | .rename _ renames => source.names.map fun name =>
    ((renames.lookup name).getD name, .copied name)
  | .extension items => items.flatMap (·.entries source)

namespace RowMap

/-- The output column is as the entry says: a copy of the input column of this name, or of the type
of the expression. -/
inductive Writes (source : Schema) : Column × Option ValueExpr → String × Content → Prop
  | copied (label : String) {name : String} {c : Column} : source.columnNamed name = .ok c →
      Writes source (⟨label, c.type, c.nullable, .named name⟩, none) (label, .copied name)
  | computed (name : String) {expr : ValueExpr} {type : ColumnType} :
      expr.typeIn source = .ok type →
      Writes source (⟨name, type, true, .derived⟩, some expr) (name, .computed expr)

/-- The feed takes its value from where the entry says. -/
inductive Supplies (source : Schema) : Feed → String × Content → Prop
  | input (label : String) {name : String} {i : Nat} : source.require name = .ok i →
      Supplies source (.input i) (label, .copied name)
  | computed (name : String) (expr : ValueExpr) :
      Supplies source (.computed expr) (name, .computed expr)

/-- What feeds an output column: the input column at a position, which has its type and is nullable
if it is, or an expression of its type. -/
def FedBy (source : Schema) (c : Column) : Feed → Prop
  | .input i => ∃ d, source.columns[i]? = some d ∧ c.type = d.type ∧ c.nullable = d.nullable
  | .computed expr => expr.typeIn source = .ok c.type ∧ c.nullable = true

variable {source : Schema} {form : MapForm} {m : RowMap}

/-! ### Planning -/

theorem writes_of_itemColumns {item : OutputItem} {outputs : List (Column × Option ValueExpr)}
    (hnames : (outputs.map fun output => output.1.name).Nodup)
    (h : itemColumns source item = .ok outputs) :
    List.Forall₂ (Writes source) outputs (item.entries source) := by
  cases item with
  | all =>
      -- A star draws every column by its name, which finds it again only if names differ.
      obtain rfl := Except.ok.inj h
      rw [List.map_map] at hnames
      rw [OutputItem.entries, Schema.names, List.map_map, List.forall₂_map_left_iff,
        List.forall₂_map_right_iff, List.forall₂_same]
      exact fun c hc => .copied c.name (Schema.columnNamed_of_mem hnames hc)
  | column name label =>
      obtain ⟨c, hc, h⟩ := bind_eq_ok_iff.mp h
      obtain rfl := pure_eq_ok_iff.mp h
      exact .cons (.copied _ hc) .nil
  | computed name expr =>
      obtain ⟨type, htype, h⟩ := bind_eq_ok_iff.mp h
      obtain rfl := pure_eq_ok_iff.mp h
      exact .cons (.computed name htype) .nil

theorem writes_of_listColumns {items : List OutputItem}
    {outputs : List (Column × Option ValueExpr)}
    (hnames : (outputs.map fun output => output.1.name).Nodup)
    (h : listColumns source items = .ok outputs) :
    List.Forall₂ (Writes source) outputs (items.flatMap (·.entries source)) := by
  obtain ⟨lists, hlists, hflatten⟩ := bind_eq_ok_iff.mp h
  obtain rfl := pure_eq_ok_iff.mp hflatten
  rw [mapM_eq_ok_iff] at hlists
  clear h hflatten
  induction hlists with
  | nil => exact .nil
  | cons hitem _ ih =>
      rw [List.flatten_cons, List.map_append, List.nodup_append] at hnames
      rw [List.flatten_cons, List.flatMap_cons]
      exact List.rel_append (writes_of_itemColumns hnames.1 hitem) (ih hnames.2.1)

theorem newName_eq_lookup (name : String) : ∀ renames : List (String × String),
    newName renames name = (renames.lookup name).getD name
  | [] => rfl
  | (old, new) :: renames => by
      have ih := newName_eq_lookup name renames
      unfold newName at ih ⊢
      rw [List.find?_cons, List.lookup_cons, BEq.comm]
      dsimp only
      cases old == name with
      | true => rfl
      | false => exact ih

theorem writes_of_renamedColumns {relation : Option String} {renames : List (String × String)}
    {outputs : List (Column × Option ValueExpr)}
    (hnames : (outputs.map fun output => output.1.name).Nodup)
    (h : renamedColumns source renames = .ok outputs) :
    List.Forall₂ (Writes source) outputs ((MapForm.rename relation renames).entries source) := by
  obtain ⟨_, -, h⟩ := bind_eq_ok_iff.mp h
  obtain rfl := pure_eq_ok_iff.mp h
  have hnodup : (source.names.map (newName renames)).Nodup := by
    rw [List.map_map] at hnames
    rwa [Schema.names, List.map_map]
  rw [MapForm.entries, Schema.names, List.map_map, List.forall₂_map_left_iff,
    List.forall₂_map_right_iff, List.forall₂_same]
  intro c hc
  simp only [Function.comp_apply, ← newName_eq_lookup]
  exact .copied _ (Schema.columnNamed_of_mem (List.Nodup.of_map _ hnodup) hc)

/-- The output columns of a map are those that it is written as. -/
theorem writes_of_outputOf {name : String} {outputs : List (Column × Option ValueExpr)}
    (hnames : (outputs.map fun output => output.1.name).Nodup)
    (h : outputOf source form = .ok (name, outputs)) :
    List.Forall₂ (Writes source) outputs (form.entries source) := by
  cases form with
  | projection columns =>
      obtain ⟨outputs', houtputs, h⟩ := bind_eq_ok_iff.mp h
      obtain ⟨-, rfl⟩ := Prod.mk.inj (pure_eq_ok_iff.mp h)
      have hwrites := writes_of_listColumns hnames houtputs
      rwa [List.flatMap_map] at hwrites
  | rename relation columns =>
      obtain ⟨outputs', houtputs, h⟩ := bind_eq_ok_iff.mp h
      obtain ⟨-, rfl⟩ := Prod.mk.inj (pure_eq_ok_iff.mp h)
      exact writes_of_renamedColumns hnames houtputs
  | extension items =>
      obtain ⟨outputs', houtputs, h⟩ := bind_eq_ok_iff.mp h
      obtain ⟨-, rfl⟩ := Prod.mk.inj (pure_eq_ok_iff.mp h)
      exact writes_of_listColumns hnames houtputs

/-- A copied column is fed from its input column, a computed one by its expression. -/
theorem supplies_of_feedOf {output : Column × Option ValueExpr} {entry : String × Content}
    {feed : Feed} (hwrites : Writes source output entry) (h : feedOf source output = .ok feed) :
    Supplies source feed entry ∧ FedBy source output.1 feed := by
  cases hwrites with
  | copied label hc =>
      obtain ⟨i, hi, h⟩ := bind_eq_ok_iff.mp h
      obtain rfl := pure_eq_ok_iff.mp h
      exact ⟨.input label hi, _, (Schema.column_of_require hi hc).1, rfl, rfl⟩
  | computed name htype =>
      obtain rfl := Except.ok.inj h
      exact ⟨.computed name _, htype, rfl⟩

/-- What a planned map is made of: the output columns, whose names differ, as the map is written,
and a feed for each. -/
theorem plan_eq_ok (h : plan source form = .ok m) :
    ∃ outputs, m.schema.columns = outputs.map Prod.fst ∧ m.schema.names.Nodup ∧
      List.Forall₂ (Writes source) outputs (form.entries source) ∧
      List.Forall₂ (fun output feed => feedOf source output = .ok feed) outputs m.feeds := by
  obtain ⟨⟨name, outputs⟩, houtputs, h⟩ := bind_eq_ok_iff.mp h
  obtain ⟨schema, hschema, h⟩ := bind_eq_ok_iff.mp h
  obtain ⟨feeds, hfeeds, h⟩ := bind_eq_ok_iff.mp h
  obtain rfl := pure_eq_ok_iff.mp h
  have hnodup := Schema.nodup_of_ofColumns hschema
  obtain rfl := Schema.ofColumns_eq_ok hschema
  refine ⟨outputs, rfl, hnodup, writes_of_outputOf ?_ houtputs, mapM_eq_ok_iff.mp hfeeds⟩
  rwa [Schema.names, List.map_map] at hnodup

theorem nodup_of_plan (h : plan source form = .ok m) : m.schema.names.Nodup := by
  obtain ⟨_, -, hnodup, -⟩ := plan_eq_ok h
  exact hnodup

/-- A planned map feeds each output column from where it is written to come from. -/
theorem plan_supplies (h : plan source form = .ok m) :
    List.Forall₂ (Supplies source) m.feeds (form.entries source) := by
  obtain ⟨outputs, -, -, hwrites, hfeeds⟩ := plan_eq_ok h
  refine forall₂_through ?_ hfeeds hwrites
  exact fun output feed entry hfeed hwrite => (supplies_of_feedOf hwrite hfeed).1

/-- A planned map feeds each output column from what belongs to it. -/
theorem plan_fedBy (h : plan source form = .ok m) :
    List.Forall₂ (FedBy source) m.schema.columns m.feeds := by
  obtain ⟨outputs, hcolumns, -, hwrites, hfeeds⟩ := plan_eq_ok h
  rw [hcolumns, List.forall₂_map_left_iff]
  rw [List.forall₂_iff_zip] at hfeeds ⊢
  refine ⟨hfeeds.1, fun {output feed} hmem => ?_⟩
  obtain ⟨entry, -, hwrite⟩ := exists_of_mem_forall₂ hwrites (List.of_mem_zip hmem).1
  exact (supplies_of_feedOf hwrite (hfeeds.2 hmem)).2

/-- Projections and renames compute nothing. -/
theorem copied_of_mem_entries (hform : ∀ items, form ≠ .extension items)
    {entry : String × Content} (hentry : entry ∈ form.entries source) :
    ∃ name, entry.2 = .copied name := by
  cases form with
  | projection columns =>
      obtain ⟨column, -, hentry⟩ := List.mem_flatMap.mp hentry
      unfold OutputItem.ofName at hentry
      split at hentry
      · obtain ⟨name, -, rfl⟩ := List.mem_map.mp hentry
        exact ⟨name, rfl⟩
      · rw [List.mem_singleton.mp hentry]
        exact ⟨column, rfl⟩
  | rename relation renames =>
      obtain ⟨name, -, rfl⟩ := List.mem_map.mp hentry
      exact ⟨name, rfl⟩
  | extension items => exact absurd rfl (hform items)

end RowMap

end RelQuery
