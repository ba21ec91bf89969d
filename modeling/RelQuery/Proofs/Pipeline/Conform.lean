import RelQuery.Proofs.Grouping.Overflow
import RelQuery.Proofs.Join.Cursor
import RelQuery.Proofs.Pipeline.Shape

/-!
# RelQuery.Proofs.Pipeline.Conform

**Every operator keeps the promise of its schema.**

A row carries the schema it was made for, and that need not be the schema of the relation it stands
in: a bound relation may hold rows that only fit its schema, and a bound schema may only fit the
leaf. Nulls that pad a row of an outer join need not even suit the schema they are nulls of. What
holds at every operator is `Relation.Conforms`: the values of each row may stand in the columns of
the operator's schema.

Only a source and a filter depend on their input for that. Maps, groupings and joins make their rows
with `Row.ofValues`, whatever the functions in them do, so they conform by themselves. An operator
in the depth of a pipeline is the pipeline of a part of the expression
(`exists_compile_of_mem_walk`), which makes the invariant of the root an invariant of all of them.
-/

namespace RelQuery

/-- Every row of the relation has been made by `Row.ofValues`, for a schema that fits that of the
relation. -/
def Relation.Checked (r : Relation) : Prop :=
  ∀ row, .ok row ∈ r.items →
    Row.ofValues row.schema row.values = .ok row ∧ row.schema.fits r.schema = true

/-- Every bound relation is checked. -/
def Bindings.Checked (bindings : Bindings) : Prop :=
  ∀ name input, bindings.get? name = some input → input.relation.Checked

/-- It is enough to look at the entries. -/
theorem Bindings.checked_of_entries {bindings : Bindings}
    (h : ∀ entry ∈ bindings.entries, entry.2.relation.Checked) : bindings.Checked := by
  intro name input hget
  obtain ⟨before, after, hentries, -⟩ := List.lookup_eq_some_iff.mp hget
  exact h (name, input) (by rw [hentries]; simp)

/-- The relation can stand where the schema is expected, and every row of it suits its own schema.
Some of its items may be errors. -/
structure Relation.Conforms (r : Relation) (s : Schema) : Prop where
  /-- The relation can stand where the schema is expected. -/
  fits : r.schema.fits s = true
  rows : ∀ row, .ok row ∈ r.items → row.Suits r.schema

theorem Relation.Conforms.suits {r : Relation} {s : Schema} (h : r.Conforms s) {row : Row}
    (hrow : .ok row ∈ r.items) : row.Suits s :=
  (h.rows row hrow).of_fits h.fits

theorem Relation.Checked.conforms {r : Relation} (h : r.Checked) {s : Schema}
    (hfits : r.schema.fits s = true) : r.Conforms s := by
  refine ⟨hfits, fun row hrow => ?_⟩
  obtain ⟨hmade, hrowfits⟩ := h row hrow
  exact (Row.suits_of_ofValues hmade).of_fits hrowfits

/-- A stream under a schema that its rows suit. -/
theorem Relation.conforms_stream {s : Schema} {items : List Item}
    (h : ∀ row, .ok row ∈ items → row.Suits s) : (Relation.stream ⟨s, items⟩).Conforms s :=
  ⟨s.fits_refl, h⟩

namespace Operator

/-- Every run that succeeds from now on yields rows that conform to the schema of the operator. -/
def Conforming (h : Handouts) (op : Operator) : Prop :=
  ∀ h' r, h.Before h' → (op.run h').1 = .ok r → r.Conforms op.schema

variable {settings : Settings} {bindings : Bindings} {h : Handouts} {a b op : Operator}
variable {e : RelExpr}

/-! ### One operator -/

/-- A source was compared with its leaf when it was bound, unless its stream was gone already. Then
there is no run that succeeds. -/
theorem conforming_source {name : String} {s : Schema} {input : Input}
    (hchecked : input.relation.Checked)
    (hfits : ∀ actual, input.schema? h = some actual → actual.fits s = true) :
    (source name s input).Conforming h := by
  intro h' r hbefore hrun
  obtain ⟨rfl, hunspent⟩ := Input.take_eq_ok hrun
  refine hchecked.conforms (hfits _ (Input.schema?_eq_some fun ticket hticket => ?_))
  rw [Bool.eq_false_iff]
  intro hspent
  have hgone := hbefore ticket hspent
  rw [hunspent ticket hticket] at hgone
  exact absurd hgone (by simp)

/-- A row that a condition keeps is the row that came in. -/
theorem eq_of_filterItem {p : Predicate} {item : Item} {row : Row}
    (hkept : filterItem p item = some (.ok row)) : item = .ok row := by
  cases item with
  | error e => simp [filterItem] at hkept
  | ok row' =>
      unfold filterItem at hkept
      dsimp only at hkept
      split at hkept
      · exact Option.some.inj hkept
      · simp at hkept
      · simp at hkept

/-- A filter hands on rows of its input. -/
theorem Conforming.filter (ha : a.Conforming h) (p : Predicate) : (filter a p).Conforming h := by
  intro h' r hbefore hrun
  rw [run_filter_fst, map_eq_ok_iff] at hrun
  obtain ⟨r', hrun, rfl⟩ := hrun
  have hr' := ha h' r' hbefore hrun
  refine Relation.conforms_stream fun row hrow => ?_
  obtain ⟨item, hitem, hkept⟩ := List.mem_filterMap.mp hrow
  obtain rfl := eq_of_filterItem hkept
  exact hr'.suits hitem

/-- A map checks what it makes. -/
theorem conforming_map (a : Operator) (m : RowMap) : (map a m).Conforming h := by
  intro h' r _ hrun
  rw [run_map_fst, map_eq_ok_iff] at hrun
  obtain ⟨r', -, rfl⟩ := hrun
  refine Relation.conforms_stream fun row hrow => ?_
  obtain ⟨item, -, hmapped⟩ := List.mem_map.mp hrow
  cases item with
  | error e => simp [mapItem] at hmapped
  | ok row' =>
      obtain ⟨values, -, hmade⟩ := bind_eq_ok_iff.mp hmapped
      exact Row.suits_of_ofValues hmade

/-- So does a grouping. -/
theorem conforming_group (a : Operator) (g : Grouping) : (group a g).Conforming h := by
  intro h' r _ hrun
  rw [run_group_fst] at hrun
  obtain ⟨r', -, hrun⟩ := bind_eq_ok_iff.mp hrun
  obtain ⟨t, hgroups, rfl⟩ := map_eq_ok_iff.mp hrun
  obtain ⟨hschema, hrows⟩ := Grouping.suits_of_run hgroups
  refine ⟨?_, fun row hrow => ?_⟩
  · show t.schema.fits g.schema = true
    rw [hschema]
    exact Schema.fits_refl _
  · obtain ⟨row', hmem, heq⟩ := List.mem_map.mp hrow
    obtain rfl := Except.ok.inj heq
    show row'.Suits t.schema
    rw [hschema]
    exact hrows row' hmem

/-- So does a join, padded rows included. -/
theorem conforming_join (a b : Operator) (j : Join) (strategy : JoinStrategy) (verify : Bool) :
    (join a b j strategy verify).Conforming h := by
  intro h' r _ hrun
  obtain ⟨l, r', m, -, -, -, rfl⟩ := run_join_eq_ok hrun
  refine Relation.conforms_stream fun row hrow => ?_
  rw [JoinCursor.drain_start] at hrow
  obtain ⟨left, right, hmade⟩ := Join.exists_combine_of_mem_due (mem_of_mem_untilError hrow)
  exact Row.suits_of_ofValues hmade

/-! ### Pipelines -/

/-- A pipeline over checked relations conforms at its root. -/
theorem conforming_of_compile (hchecked : bindings.Checked) : ∀ {e : RelExpr} {op : Operator},
    compile settings bindings h e = .ok op → op.Conforming h
  | .scan leaf, op, hcompile => by
      obtain ⟨input, hget, rfl, hfits⟩ := compileLeaf_eq_ok hcompile
      exact conforming_source (hchecked _ _ hget) hfits
  | .select input p, op, hcompile => by
      obtain ⟨a, ha, rfl⟩ := compile_select_eq_ok hcompile
      exact (conforming_of_compile hchecked ha).filter p
  | .map input m, op, hcompile => by
      obtain ⟨a, -, rfl⟩ := compile_map_eq_ok hcompile
      exact conforming_map a m
  | .group input g, op, hcompile => by
      obtain ⟨a, -, rfl⟩ := compile_group_eq_ok hcompile
      exact conforming_group a g
  | .join left right j, op, hcompile => by
      obtain ⟨a, b, -, -, rfl⟩ := compile_join_eq_ok hcompile
      exact conforming_join a b j _ _

/-- What a pipeline over checked relations yields conforms to the schema of its expression. -/
theorem conforms_of_compile (hchecked : bindings.Checked)
    (hcompile : compile settings bindings h e = .ok op) {h' : Handouts} (hbefore : h.Before h')
    {r : Relation} (hrun : (op.run h').1 = .ok r) : r.Conforms e.schema :=
  compile_schema hcompile ▸ conforming_of_compile hchecked hcompile h' r hbefore hrun

/-- **Every row of every operator suits the operator's schema.** Take any expression that compiles
over checked relations, and any operator of the pipeline, at any depth. Whenever it is run from then
on and the run succeeds, each row in the relation it gives has one value for each column of the
operator's schema, and each value passes the check of its column. -/
theorem checks_of_run (hchecked : bindings.Checked)
    (hcompile : compile settings bindings h e = .ok op) {depth : Nat} {part : Operator}
    (hpart : .enter depth part ∈ op.walk) {h' : Handouts} (hbefore : h.Before h') {r : Relation}
    (hrun : (part.run h').1 = .ok r) {row : Row} (hrow : .ok row ∈ r.items) :
    row.values.length = part.schema.width ∧
      ∀ (i : Nat) (c : Column) (v : Value),
        part.schema.columns[i]? = some c → row.values[i]? = some v → c.check v = .ok () := by
  obtain ⟨e', hcompile'⟩ := exists_compile_of_mem_walk hcompile hpart
  have hsuits := (conforming_of_compile hchecked hcompile' h' r hbefore hrun).suits hrow
  refine ⟨hsuits.holds.length, fun i c v hc hv => ?_⟩
  have hholds := hsuits.holds.get hc
  rw [hv] at hholds
  exact hholds

/-- Parcels, made for a schema that takes no null; the one they are stored under does. -/
def parcels : Table :=
  let s : Schema := ⟨"parcels", [⟨"weight", .int32, true, .position 0⟩]⟩
  let made : Schema := ⟨"weighed", [⟨"weight", .int32, false, .position 0⟩]⟩
  ⟨s, [⟨made, [.int32 7], rfl⟩], by decide⟩

/-- Tariffs, which take no null. -/
def tariffs : Stream :=
  let s : Schema := ⟨"tariffs", [⟨"limit", .int32, false, .position 0⟩]⟩
  .ofRows s [⟨s, [.int32 5], rfl⟩]

/-- Bindings of the parcels and of the tariffs. -/
def parcelsAndTariffs : Bindings :=
  ⟨[("parcels", .table parcels), ("tariffs", .stream 0 tariffs)],
    List.pairwise_pair.mpr (show "parcels" < "tariffs" by decide)⟩

theorem checked_parcelsAndTariffs : parcelsAndTariffs.Checked := by
  refine Bindings.checked_of_entries (List.forall_mem_cons.mpr ⟨?_, ?_⟩)
  · intro row hrow
    obtain rfl := Except.ok.inj (List.mem_singleton.mp hrow)
    exact ⟨rfl, by decide⟩
  · refine List.forall_mem_singleton.mpr fun row hrow => ?_
    obtain rfl := Except.ok.inj (List.mem_singleton.mp hrow)
    exact ⟨rfl, by decide⟩

/-- A parcel without a tariff is padded with a null, which the output column takes. -/
theorem checks_of_run_padded :
    ∃ e op r row,
      (RelExpr.scan parcels.schema).joinWith (.scan tariffs.schema) .leftOuter
        (.equi [("weight", "limit")]) = .ok e ∧
      compile ⟨0, .nestedLoop, false, none⟩ parcelsAndTariffs .none e = .ok op ∧
      (op.run .none).1 = .ok r ∧ .ok row ∈ r.items ∧ row.values = [.int32 7, .null] ∧
      row.values.length = op.schema.width ∧
      ∀ (i : Nat) (c : Column) (v : Value),
        op.schema.columns[i]? = some c → row.values[i]? = some v → c.check v = .ok () := by
  obtain ⟨e, hjoin⟩ : ∃ e, (RelExpr.scan parcels.schema).joinWith (.scan tariffs.schema) .leftOuter
      (.equi [("weight", "limit")]) = .ok e := ⟨_, rfl⟩
  obtain ⟨op, hcompile⟩ : ∃ op,
      compile ⟨0, .nestedLoop, false, none⟩ parcelsAndTariffs .none e = .ok op := by
    cases hjoin
    exact ⟨_, rfl⟩
  obtain ⟨r, hrun, hitems⟩ : ∃ r, (op.run .none).1 = .ok r ∧
      r.items.map (Except.map Row.values) = [.ok [.int32 7, .null]] := by
    cases hjoin
    cases hcompile
    refine ⟨_, rfl, ?_⟩
    show (JoinCursor.start _ _ _).drain.map _ = _
    rw [JoinCursor.drain_start]
    rfl
  obtain ⟨item, hitems, hitem⟩ := List.map_eq_singleton_iff.mp hitems
  obtain ⟨row, rfl, hvalues⟩ := map_eq_ok_iff.mp hitem
  have hrow : .ok row ∈ r.items := hitems ▸ List.mem_singleton.mpr rfl
  have hpart : .enter 0 op ∈ op.walk := enter_mem_walkFrom_iff.mpr (Or.inl ⟨rfl, rfl⟩)
  exact ⟨e, op, r, row, hjoin, hcompile, hrun, hrow, hvalues,
    checks_of_run checked_parcelsAndTariffs hcompile hpart (Handouts.Before.refl _) hrun hrow⟩

end Operator

end RelQuery
