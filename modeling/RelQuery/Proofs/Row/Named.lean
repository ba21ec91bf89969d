import RelQuery.Proofs.Row.Map

/-!
# RelQuery.Proofs.Row.Named

**A map means what its column names say.**

A planned map reads positions, and its expressions look columns up by name in the row that they are
given. The entries of its form know names only. Here a map is applied to any row that suits its
input, and read back by name: under the name of each entry stands what the entry says
(`apply_by_name`), whether columns change places, take each other's names or come from a star.

A copied value always fits its column, so only expressions can make the map fail: by an error of
their own, or by a value that is not of the type declared for the column. `firstFault?` is the first
of these errors. All values are computed before any is checked, so an expression that fails is
reported before one of a wrong type that stands ahead of it. Projections and renames compute
nothing, and make a row of every row that suits their input (`exists_apply`).
-/

namespace RelQuery

namespace Content

/-- What the entry says should stand in an output column. -/
def value (row : Row) : Content → Except Error Value
  | .copied column => row.value column
  | .computed expr => expr.eval row

/-- The error of a computed value that could not be computed. -/
def failure? (row : Row) : Content → Option Error
  | .copied _ => none
  | .computed expr => RelQuery.failure? (expr.eval row)

/-- The error of a computed value that is neither null nor of the type declared for its column. -/
def mismatch? (source : Schema) (row : Row) (label : String) : Content → Option Error
  | .copied _ => none
  | .computed expr =>
    match expr.typeIn source, expr.eval row with
    | .ok type, .ok v =>
      if v = .null ∨ v.type? = some type then none
      else some (.typeMismatch label type v.typeName)
    | _, _ => none

end Content

/-- The error that a list of output columns makes of a row: the first value that cannot be computed,
and where all can, the first that does not have the type declared for its column. -/
def firstFault? (source : Schema) (row : Row) (entries : List (String × Content)) : Option Error :=
  (entries.findSome? fun entry => entry.2.failure? row).or
    (entries.findSome? fun entry => entry.2.mismatch? source row entry.1)

theorem Row.cell_of_getElem? {r : Row} {i : Nat} {v : Value} (h : r.values[i]? = some v) :
    r.cell i = v := by
  rw [Row.cell, Row.get?, h]
  rfl

/-- Where names differ, the value under a name is the one at its position. -/
theorem Row.value_of_getElem? {r : Row} (hnodup : r.schema.names.Nodup) {i : Nat} {name : String}
    (h : r.schema.names[i]? = some name) : r.value name = .ok (r.cell i) := by
  rw [Row.value, Schema.require_of_getElem? hnodup h]
  rfl

/-- Values that stand under all names of a row, in order, are the values of the row. -/
theorem Row.values_eq_of_names {r : Row} (hnodup : r.schema.names.Nodup) {vs : List Value}
    (h : List.Forall₂ (fun name v => r.value name = .ok v) r.schema.names vs) : vs = r.values := by
  have hlength : r.schema.names.length = r.values.length := by
    rw [Schema.length_names, r.length_values]
  refine List.ext_getElem (h.length_eq.symm.trans hlength) fun i hi hi' => ?_
  have hname := List.getElem?_eq_getElem (hlength ▸ hi')
  have hvalue := (Row.value_of_getElem? hnodup hname).symm.trans (h.get (hlength ▸ hi') hi)
  exact (Except.ok.inj hvalue).symm.trans (Row.cell_of_getElem? (List.getElem?_eq_getElem hi'))

/-- A row of the right length fails only by the checks of its values. -/
theorem Row.failure?_ofValues {s : Schema} {vs : List Value} (h : vs.length = s.width) :
    failure? (Row.ofValues s vs) = failure? (Row.checkAll s.columns vs) := by
  rw [Row.ofValues, dif_pos h]
  cases Row.checkAll s.columns vs <;> rfl

namespace RowMap

variable {source : Schema} {form : MapForm} {m : RowMap} {row : Row}

/-! ### The values -/

/-- A feed takes the value that the entry names, and fails only if it is computed. -/
theorem Supplies.valueOf_eq {feed : Feed} {entry : String × Content}
    (h : Supplies source feed entry) (hrow : row.Suits source) :
    valueOf row feed = entry.2.value row ∧ failure? (valueOf row feed) = entry.2.failure? row := by
  cases h with
  | input label hi => exact ⟨(Row.value_of_require hrow.fits hi).symm, rfl⟩
  | computed name expr => exact ⟨rfl, rfl⟩

/-- The values for a row fail where the first computed one does. -/
theorem failure?_values {feeds : List Feed} {entries : List (String × Content)}
    (hrow : row.Suits source) (h : List.Forall₂ (Supplies source) feeds entries) :
    failure? (feeds.mapM (valueOf row)) = entries.findSome? fun entry => entry.2.failure? row := by
  rw [failure?_mapM]
  induction h with
  | nil => rfl
  | cons hsupplies _ ih =>
      rw [List.findSome?_cons, List.findSome?_cons, (hsupplies.valueOf_eq hrow).2, ih]

/-- The values that a row gives are those that the entries name. -/
theorem values_of_supplies {feeds : List Feed} {entries : List (String × Content)}
    (hrow : row.Suits source) (h : List.Forall₂ (Supplies source) feeds entries)
    {values : List Value} (hvalues : feeds.mapM (valueOf row) = .ok values) :
    List.Forall₂ (fun entry v => entry.2.value row = .ok v) entries values := by
  refine forall₂_through ?_ h (mapM_eq_ok_iff.mp hvalues)
  intro feed entry v hsupplies hv
  rw [← (hsupplies.valueOf_eq hrow).1, hv]

/-! ### The checks -/

/-- A copied value fits its column, and a computed one if it has the type of the expression. -/
theorem Writes.failure?_check {output : Column × Option ValueExpr} {entry : String × Content}
    (h : Writes source output entry) (hrow : row.Suits source) {v : Value}
    (hv : entry.2.value row = .ok v) :
    failure? (output.1.check v) = entry.2.mismatch? source row entry.1 := by
  cases h with
  | @copied label name c hc =>
      obtain ⟨i, hi⟩ := Schema.exists_require_of_columnNamed hc
      obtain rfl := Except.ok.inj ((Row.value_of_require hrow.fits hi).symm.trans hv)
      have hcell := Column.holds_iff.mp (hrow.holds.cell (Schema.column_of_require hi hc).1)
      have hholds : Column.Holds ⟨label, c.type, c.nullable, .named name⟩ (row.cell i) :=
        Column.holds_iff.mpr hcell
      rw [hholds]
      rfl
  | @computed name expr type htype =>
      have heval : expr.eval row = .ok v := hv
      simp only [Content.mismatch?, htype, heval]
      unfold Column.check
      cases ht : v.type? with
      | none => simp [Value.type?_eq_none_iff.mp ht]
      | some t =>
          have hnull : v ≠ .null := fun h => by simp [h, Value.type?] at ht
          by_cases h : t = type <;> simp [h, hnull]

/-- The checks of a row fail at the first value that does not have the type declared for it. -/
theorem failure?_checkAll {outputs : List (Column × Option ValueExpr)}
    {entries : List (String × Content)} {values : List Value} (hrow : row.Suits source)
    (hwrites : List.Forall₂ (Writes source) outputs entries)
    (hvalues : List.Forall₂ (fun entry v => entry.2.value row = .ok v) entries values) :
    failure? (Row.checkAll (outputs.map Prod.fst) values) =
      entries.findSome? fun entry => entry.2.mismatch? source row entry.1 := by
  induction hwrites generalizing values with
  | nil =>
      cases hvalues
      rfl
  | cons hwrite _ ih =>
      cases hvalues with
      | cons hv hvalues =>
          rw [List.map_cons, Row.checkAll, failure?_seq, hwrite.failure?_check hrow hv, ih hvalues,
            List.findSome?_cons]
          cases Content.mismatch? source row _ _ <;> rfl

/-! ### The row -/

/-- The output columns of a planned map bear the names that it is written with. -/
theorem names_of_plan (hplan : plan source form = .ok m) :
    m.schema.names = (form.entries source).map Prod.fst := by
  obtain ⟨outputs, hcolumns, -, hwrites, -⟩ := plan_eq_ok hplan
  rw [Schema.names, hcolumns, List.map_map, ← List.forall₂_eq_eq_eq, List.forall₂_map_left_iff,
    List.forall₂_map_right_iff]
  refine hwrites.imp fun output entry hwrite => ?_
  cases hwrite <;> rfl

/-- A map fails with the first fault of its output columns, and if they have none it does not. -/
theorem failure?_apply (hplan : plan source form = .ok m) (hrow : row.Suits source) :
    failure? (m.apply row) = firstFault? source row (form.entries source) := by
  obtain ⟨outputs, hcolumns, -, hwrites, -⟩ := plan_eq_ok hplan
  have hsupplies := plan_supplies hplan
  rw [firstFault?, ← failure?_values hrow hsupplies, apply]
  cases hvalues : m.feeds.mapM (valueOf row) with
  | error e => rfl
  | ok values =>
      have hnamed := values_of_supplies hrow hsupplies hvalues
      have hlength : values.length = m.schema.width := by
        rw [Schema.width, hcolumns, List.length_map, hwrites.length_eq, hnamed.length_eq]
      rw [← failure?_checkAll hrow hwrites hnamed, ← hcolumns]
      exact Row.failure?_ofValues hlength

/-- In a row that a map has made, the values stand under the names of their entries. -/
theorem value_of_apply (hplan : plan source form = .ok m) (hrow : row.Suits source) {out : Row}
    (hout : m.apply row = .ok out) {entry : String × Content}
    (hentry : entry ∈ form.entries source) :
    ∃ v, entry.2.value row = .ok v ∧ out.value entry.1 = .ok v := by
  obtain ⟨values, hvalues, hmade⟩ := bind_eq_ok_iff.mp hout
  obtain ⟨-, hschema, hmade⟩ := Row.holds_of_ofValues hmade
  have hnamed := values_of_supplies hrow (plan_supplies hplan) hvalues
  obtain ⟨i, hi, rfl⟩ := List.getElem_of_mem hentry
  have hi' : i < values.length := hnamed.length_eq ▸ hi
  have hname : out.schema.names[i]? = some (form.entries source)[i].1 := by
    rw [hschema, names_of_plan hplan, List.getElem?_map, List.getElem?_eq_getElem hi]
    rfl
  have hcell : out.cell i = values[i] :=
    Row.cell_of_getElem? (hmade ▸ List.getElem?_eq_getElem hi')
  refine ⟨values[i], hnamed.get hi hi', ?_⟩
  rw [Row.value_of_getElem? (hschema ▸ nodup_of_plan hplan) hname, hcell]

/-- A map that computes nothing has no fault. -/
theorem firstFault?_of_copied (hform : ∀ items, form ≠ .extension items) :
    firstFault? source row (form.entries source) = none := by
  rw [firstFault?, Option.or_eq_none_iff, List.findSome?_eq_none_iff, List.findSome?_eq_none_iff]
  constructor
  · intro entry hentry
    obtain ⟨name, hname⟩ := copied_of_mem_entries hform hentry
    rw [hname, Content.failure?]
  · intro entry hentry
    obtain ⟨name, hname⟩ := copied_of_mem_entries hform hentry
    rw [hname, Content.mismatch?]

/-- A projection or a rename makes a row of every row that suits its input. -/
theorem exists_apply (hform : ∀ items, form ≠ .extension items) (hplan : plan source form = .ok m)
    (hrow : row.Suits source) : ∃ out, m.apply row = .ok out ∧ out.Suits m.schema := by
  have hnone := (failure?_apply hplan hrow).trans (firstFault?_of_copied hform)
  obtain ⟨out, hout⟩ := failure?_eq_none_iff.mp hnone
  obtain ⟨values, -, hmade⟩ := bind_eq_ok_iff.mp hout
  exact ⟨out, hout, Row.suits_of_ofValues hmade⟩

/-- **A map means what its column names say**: it makes of every row that suits its input a row in
which the value of each entry is found under its name, unless a computed value has a fault, and then
it fails with the first. -/
theorem apply_by_name (hplan : plan source form = .ok m) (hrow : row.Suits source) :
    (firstFault? source row (form.entries source) = none →
      ∃ out, m.apply row = .ok out ∧ out.schema = m.schema ∧
        m.schema.names = (form.entries source).map Prod.fst ∧
        ∀ entry ∈ form.entries source,
          ∃ v, entry.2.value row = .ok v ∧ out.value entry.1 = .ok v) ∧
      ∀ e, firstFault? source row (form.entries source) = some e → m.apply row = .error e := by
  rw [← failure?_apply hplan hrow]
  constructor
  · intro hnone
    obtain ⟨out, hout⟩ := failure?_eq_none_iff.mp hnone
    obtain ⟨values, -, hmade⟩ := bind_eq_ok_iff.mp hout
    exact ⟨out, hout, (Row.holds_of_ofValues hmade).2.1, names_of_plan hplan,
      fun entry hentry => value_of_apply hplan hrow hout hentry⟩
  · exact fun e he => failure?_eq_some_iff.mp he

/-- A relation of parts. -/
def parts : Schema :=
  ⟨"parts", [⟨"size", .int32, true, .position 0⟩, ⟨"label", .text, true, .position 1⟩]⟩

/-- A part, under a relation name of its own and with a size that is always known. -/
def part : Row :=
  ⟨⟨"stock", [⟨"size", .int32, false, .position 0⟩, ⟨"label", .text, true, .derived⟩]⟩,
    [.int32 7, .text "nut"], rfl⟩

/-- Two columns that take each other's names, while the expression beside them still reads the
input. -/
def crossed : MapForm :=
  .extension [.column "label" (some "size"), .column "size" (some "label"),
    .computed "sized" (.condition (.compare "size" .ge (.int32 3)))]

theorem apply_by_name_crossed :
    ∃ m out, plan parts crossed = .ok m ∧ m.apply part = .ok out ∧
      out.value "size" = .ok (.text "nut") ∧ out.value "label" = .ok (.int32 7) ∧
      out.value "sized" = .ok (.bool true) := by
  obtain ⟨m, hplan⟩ : ∃ m, plan parts crossed = .ok m := ⟨_, rfl⟩
  have hrow : part.Suits parts :=
    ⟨rfl, .cons rfl (.cons rfl .nil)⟩
  obtain ⟨out, hout, -, -, hvalues⟩ := (apply_by_name hplan hrow).1 rfl
  have hat : ∀ {entry v}, entry ∈ crossed.entries parts → entry.2.value part = .ok v →
      out.value entry.1 = .ok v := by
    intro entry v hentry hv
    obtain ⟨w, hw, hnamed⟩ := hvalues entry hentry
    rwa [Except.ok.inj (hv.symm.trans hw)]
  exact ⟨m, out, hplan, hout, @hat ("size", .copied "label") _ (.head _) rfl,
    @hat ("label", .copied "size") _ (.tail _ (.head _)) rfl,
    @hat ("sized", .computed _) _ (.tail _ (.tail _ (.head _))) rfl⟩

end RowMap

end RelQuery
