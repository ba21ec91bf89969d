import Mathlib.Data.List.Nodup
import RelQuery.Proofs.Except
import RelQuery.Relation

/-!
# RelQuery.Proofs.Row.Conform

**Rows that conform to a schema.**

A row is only a list of values of the right length; that each value may stand in its column is what
`Row.ofValues` checks. `Schema.Holds` says the same as a relation between columns and values, so
that it can be read off for one column (`Schema.Holds.cell`), carried along when a schema is
exchanged for one that asks for less (`Schema.Holds.of_fits`), and turned back into a row
(`ofValues_of_holds`).
-/

namespace RelQuery

/-! ### Repetitions -/

/-- The elements are different from each other and from those seen before. -/
def Unseen {α : Type} (seen xs : List α) : Prop :=
  xs.Nodup ∧ ∀ x ∈ xs, x ∉ seen

theorem unseen_nil_iff {α : Type} {xs : List α} : Unseen [] xs ↔ xs.Nodup := by
  simp [Unseen]

theorem unseen_cons_iff {α : Type} {seen xs : List α} {x : α} :
    Unseen seen (x :: xs) ↔ x ∉ seen ∧ Unseen (x :: seen) xs := by
  rw [Unseen, Unseen, List.nodup_cons, List.forall_mem_cons]
  simp only [List.mem_cons, not_or]
  constructor
  · rintro ⟨⟨hfresh, hnodup⟩, hseen, hrest⟩
    refine ⟨hseen, hnodup, fun y hy => ⟨?_, hrest y hy⟩⟩
    rintro rfl
    exact hfresh hy
  · rintro ⟨hseen, hnodup, hrest⟩
    refine ⟨⟨fun hx => (hrest x hx).1 rfl, hnodup⟩, hseen, ?_⟩
    intro y hy
    exact (hrest y hy).2

/-- A list that repeats nothing has no first repeated element. -/
theorem firstRepeated?_go_eq_none_iff {α : Type} [DecidableEq α] {seen xs : List α} :
    firstRepeated?.go seen xs = none ↔ Unseen seen xs := by
  induction xs generalizing seen with
  | nil => simp [firstRepeated?.go, Unseen]
  | cons x xs ih =>
      rw [firstRepeated?.go, unseen_cons_iff]
      by_cases hx : x ∈ seen
      · simp [hx]
      · simp [hx, ih]

/-! ### Values in a column -/

namespace Column

/-- A value may stand in the column. -/
def Holds (c : Column) (v : Value) : Prop :=
  c.check v = .ok ()

/-- What may stand in a column: values of its type, and null if it is nullable. -/
theorem holds_iff {c : Column} {v : Value} :
    c.Holds v ↔ (v = .null ∧ c.nullable = true) ∨ v.type? = some c.type := by
  unfold Holds check
  cases ht : v.type? with
  | none =>
      have hnull := Value.type?_eq_none_iff.mp ht
      cases hn : c.nullable <;> simp [hnull]
  | some t =>
      have hnull : v ≠ .null := fun h => by simp [h, Value.type?] at ht
      by_cases h : t = c.type <;> simp [h, hnull]

/-- Where a column fits, it takes only values that may stand there. -/
theorem Holds.of_fits {c d : Column} {v : Value} (h : c.Holds v) (hfits : c.fits d = true) :
    d.Holds v := by
  simp only [fits, Bool.and_eq_true, beq_iff_eq, Bool.or_eq_true, Bool.not_eq_true'] at hfits
  obtain ⟨⟨-, htype⟩, hnullable⟩ := hfits
  rw [holds_iff] at h ⊢
  rcases h with ⟨hv, hc⟩ | hv
  · rw [hc] at hnullable
    exact Or.inl ⟨hv, hnullable.resolve_right (by simp)⟩
  · exact Or.inr (htype ▸ hv)

theorem fits_trans {a b c : Column} (hab : a.fits b = true) (hbc : b.fits c = true) :
    a.fits c = true := by
  simp only [fits, Bool.and_eq_true, beq_iff_eq, Bool.or_eq_true, Bool.not_eq_true'] at *
  obtain ⟨⟨hname, htype⟩, hnull⟩ := hab
  obtain ⟨⟨hname', htype'⟩, hnull'⟩ := hbc
  refine ⟨⟨hname.trans hname', htype.trans htype'⟩, ?_⟩
  rcases hnull' with h | h
  · exact Or.inl h
  · rcases hnull with h' | h'
    · rw [h'] at h
      exact absurd h (by simp)
    · exact Or.inr h'

end Column

namespace Schema

/-- The values may stand in the columns, one in each. -/
def Holds (s : Schema) (vs : List Value) : Prop :=
  List.Forall₂ Column.Holds s.columns vs

/-! ### Schemas that fit -/

theorem fits_iff {s t : Schema} :
    s.fits t = true ↔ List.Forall₂ (fun c d => c.fits d = true) s.columns t.columns := by
  rw [List.forall₂_iff_zip]
  simp only [fits, Bool.and_eq_true, beq_iff_eq, List.all_eq_true]
  constructor
  · rintro ⟨hlength, hall⟩
    exact ⟨hlength, fun h => hall _ h⟩
  · rintro ⟨hlength, hall⟩
    exact ⟨hlength, fun p hp => hall hp⟩

theorem fits_trans {s t u : Schema} (hst : s.fits t = true) (htu : t.fits u = true) :
    s.fits u = true := by
  rw [fits_iff] at hst htu ⊢
  generalize s.columns = cs at hst ⊢
  generalize t.columns = ds at hst htu
  generalize u.columns = es at htu ⊢
  induction hst generalizing es with
  | nil =>
      cases htu
      exact List.Forall₂.nil
  | cons hcd _ ih =>
      cases htu with
      | cons hde htu => exact List.Forall₂.cons (Column.fits_trans hcd hde) (ih _ htu)

/-- A schema that fits has the columns of the same names at the same positions. -/
theorem names_of_fits {s t : Schema} (h : s.fits t = true) : s.names = t.names := by
  rw [fits_iff] at h
  unfold names
  generalize s.columns = cs at h
  generalize t.columns = ds at h
  induction h with
  | nil => rfl
  | cons hcd _ ih =>
      simp only [Column.fits, Bool.and_eq_true, beq_iff_eq] at hcd
      rw [List.map_cons, List.map_cons, hcd.1.1, ih]

theorem position?_eq (s : Schema) (name : String) :
    s.position? name = s.names.findIdx? (· == name) := by
  rw [position?, names, List.findIdx?_map]
  rfl

theorem lt_width_of_position? {s : Schema} {name : String} {i : Nat}
    (h : s.position? name = some i) : i < s.width :=
  (List.findIdx?_eq_some_iff_getElem.mp h).1

theorem position?_of_fits {s t : Schema} (h : s.fits t = true) (name : String) :
    s.position? name = t.position? name := by
  rw [position?_eq, position?_eq, names_of_fits h]

theorem contains_iff {s : Schema} {name : String} : s.contains name = true ↔ name ∈ s.names := by
  rw [contains, position?_eq, List.findIdx?_isSome, List.any_eq_true]
  constructor
  · rintro ⟨name', hmem, heq⟩
    exact beq_iff_eq.mp heq ▸ hmem
  · exact fun hmem => ⟨name, hmem, beq_self_eq_true name⟩

theorem position?_eq_none_iff {s : Schema} {name : String} :
    s.position? name = none ↔ s.contains name = false := by
  rw [contains, Option.isSome_eq_false_iff, Option.isNone_iff_eq_none]

theorem require_eq_ok_iff {s : Schema} {name : String} {i : Nat} :
    s.require name = .ok i ↔ s.position? name = some i := by
  unfold require
  cases s.position? name <;> simp

/-- At the position that is found for a name stands that name. -/
theorem name_of_require {s : Schema} {name : String} {i : Nat} (h : s.require name = .ok i) :
    s.names[i]? = some name := by
  rw [require_eq_ok_iff, position?_eq, List.findIdx?_eq_some_iff_getElem] at h
  obtain ⟨hlt, hname, -⟩ := h
  rw [List.getElem?_eq_getElem hlt, beq_iff_eq.mp hname]

theorem exists_require_iff {s : Schema} {name : String} :
    (∃ i, s.require name = .ok i) ↔ name ∈ s.names := by
  rw [← contains_iff, contains, Option.isSome_iff_exists]
  simp only [require_eq_ok_iff]

/-- Where names differ, each is found at its own position. -/
theorem require_of_getElem? {s : Schema} (hnodup : s.names.Nodup) {i : Nat} {name : String}
    (h : s.names[i]? = some name) : s.require name = .ok i := by
  obtain ⟨hi, rfl⟩ := List.getElem?_eq_some_iff.mp h
  rw [require_eq_ok_iff, position?_eq, List.findIdx?_eq_some_iff_getElem]
  refine ⟨hi, beq_self_eq_true _, fun j hj => ?_⟩
  rw [beq_iff_eq]
  exact fun heq => Nat.ne_of_lt hj (hnodup.getElem_inj_iff.mp heq)

/-- Different names are found at different positions. -/
theorem nodup_positions (s : Schema) {names : List String} {positions : List Nat}
    (hat : List.Forall₂ (fun name i => s.require name = .ok i) names positions)
    (hnodup : names.Nodup) : positions.Nodup := by
  have hmap : positions.map (s.names[·]?) = names.map some := by
    clear hnodup
    induction hat with
    | nil => rfl
    | cons hi _ ih => rw [List.map_cons, List.map_cons, name_of_require hi, ih]
  refine List.Nodup.of_map (s.names[·]?) ?_
  rw [hmap]
  exact hnodup.map fun _ _ => Option.some.inj

/-- A column is found at the same position in a schema that fits. -/
theorem require_of_fits {s t : Schema} (h : s.fits t = true) {name : String} {i : Nat} :
    s.require name = .ok i ↔ t.require name = .ok i := by
  rw [require_eq_ok_iff, require_eq_ok_iff, position?_of_fits h]

/-- Columns make a schema if their names differ. -/
theorem ofColumns_eq_ok_iff {name : String} {columns : List Column} {s : Schema} :
    ofColumns name columns = .ok s ↔ s = ⟨name, columns⟩ ∧ (columns.map Column.name).Nodup := by
  rw [← unseen_nil_iff, ← firstRepeated?_go_eq_none_iff, ofColumns, firstRepeated?]
  split
  · rename_i hrepeated
    simp [hrepeated]
  · rename_i hnone
    simp [hnone, eq_comm]

/-- A schema of columns whose names differ is what it is asked to be. -/
theorem ofColumns_eq_ok {name : String} {columns : List Column} {s : Schema}
    (h : ofColumns name columns = .ok s) : s = ⟨name, columns⟩ :=
  (ofColumns_eq_ok_iff.mp h).1

/-- The columns of a schema that has been made have different names. -/
theorem nodup_of_ofColumns {name : String} {columns : List Column} {s : Schema}
    (h : ofColumns name columns = .ok s) : s.names.Nodup := by
  obtain ⟨rfl, hnodup⟩ := ofColumns_eq_ok_iff.mp h
  exact hnodup

/-- The column of a name is the one at its position. -/
theorem column_of_require {s : Schema} {name : String} {i : Nat} {c : Column}
    (hi : s.require name = .ok i) (hc : s.columnNamed name = .ok c) :
    s.columns[i]? = some c ∧ c.name = name := by
  rw [require_eq_ok_iff, position?, List.findIdx?_eq_some_iff_getElem] at hi
  obtain ⟨hlt, hname, hbefore⟩ := hi
  have hfind : s.columns.find? (·.name == name) = some s.columns[i] := by
    rw [List.find?_eq_some_iff_getElem]
    exact ⟨hname, i, hlt, rfl, fun j hj => by simpa using hbefore j hj⟩
  rw [columnNamed, hfind] at hc
  obtain rfl := Except.ok.inj hc
  exact ⟨List.getElem?_eq_getElem hlt, by simpa using hname⟩

/-- A column that is found has a position. -/
theorem exists_require_of_columnNamed {s : Schema} {name : String} {c : Column}
    (hc : s.columnNamed name = .ok c) : ∃ i, s.require name = .ok i := by
  unfold columnNamed at hc
  split at hc
  · rename_i d hfind
    have hd := List.find?_some hfind
    have hmem := List.mem_of_find?_eq_some hfind
    obtain ⟨i, hi⟩ := Option.isSome_iff_exists.mp
      ((List.findIdx?_isSome (p := (·.name == name))).trans (List.any_eq_true.mpr ⟨d, hmem, hd⟩))
    exact ⟨i, require_eq_ok_iff.mpr hi⟩
  · simp at hc

/-- Where names differ, every column is found by its name. -/
theorem columnNamed_of_mem {s : Schema} (hnodup : s.names.Nodup) {c : Column}
    (hc : c ∈ s.columns) : s.columnNamed c.name = .ok c := by
  unfold columnNamed
  have hsome : (s.columns.find? (·.name == c.name)).isSome = true :=
    List.find?_isSome.mpr ⟨c, hc, beq_self_eq_true _⟩
  obtain ⟨d, hfind⟩ := Option.isSome_iff_exists.mp hsome
  rw [hfind]
  refine congrArg Except.ok (List.inj_on_of_nodup_map hnodup ?_ hc ?_)
  · exact List.mem_of_find?_eq_some hfind
  · simpa using List.find?_some hfind

/-! ### Values that may stand in the columns -/

variable {s t : Schema} {vs : List Value}

theorem Holds.length (h : s.Holds vs) : vs.length = s.width :=
  (List.Forall₂.length_eq h).symm

/-- Values that may stand in the columns of a schema may stand in those of one that it fits. -/
theorem Holds.of_fits (h : s.Holds vs) (hfits : s.fits t = true) : t.Holds vs := by
  rw [fits_iff] at hfits
  unfold Holds at h ⊢
  generalize s.columns = cs at h hfits
  generalize t.columns = ds at hfits ⊢
  induction hfits generalizing vs with
  | nil =>
      cases h
      exact List.Forall₂.nil
  | cons hcd _ ih =>
      cases h with
      | cons hv hvs => exact List.Forall₂.cons (hv.of_fits hcd) (ih hvs)

theorem Holds.get (h : s.Holds vs) {i : Nat} {c : Column} (hc : s.columns[i]? = some c) :
    c.Holds (vs[i]?.getD .null) := by
  obtain ⟨hi, rfl⟩ := List.getElem?_eq_some_iff.mp hc
  have hlt : i < vs.length := List.Forall₂.length_eq h ▸ hi
  rw [List.getElem?_eq_getElem hlt]
  exact List.Forall₂.get h hi hlt

/-- In a row that conforms, a column's value may stand in it. -/
theorem Holds.cell {r : Row} (h : s.Holds r.values) {i : Nat} {c : Column}
    (hc : s.columns[i]? = some c) : c.Holds (r.cell i) :=
  h.get hc

end Schema

namespace Row

/-- The value in a column that a schema has, in a row that fits the schema. -/
theorem value_of_require {r : Row} {s : Schema} (hfits : r.schema.fits s = true) {name : String}
    {i : Nat} (h : s.require name = .ok i) : r.value name = .ok (r.cell i) := by
  rw [value, (Schema.require_of_fits hfits).mpr h]
  rfl

theorem checkAll_eq_ok_iff : ∀ {cs : List Column} {vs : List Value}, vs.length = cs.length →
    (checkAll cs vs = .ok () ↔ List.Forall₂ Column.Holds cs vs)
  | [], [], _ => by simp [checkAll]
  | [], _ :: _, h => by simp at h
  | _ :: _, [], h => by simp at h
  | c :: cs, v :: vs, h => by
      rw [checkAll, bind_eq_ok_iff, List.forall₂_cons,
        ← checkAll_eq_ok_iff (Nat.succ.inj h)]
      exact ⟨fun ⟨_, hv, hvs⟩ => ⟨hv, hvs⟩, fun ⟨hv, hvs⟩ => ⟨(), hv, hvs⟩⟩

/-- A row that was checked conforms to its schema. -/
theorem holds_of_ofValues {s : Schema} {vs : List Value} {r : Row}
    (h : ofValues s vs = .ok r) : s.Holds vs ∧ r.schema = s ∧ r.values = vs := by
  obtain ⟨hcheck, rfl, rfl⟩ := ofValues_eq_ok_iff.mp h
  exact ⟨(checkAll_eq_ok_iff r.length_values).mp hcheck, rfl, rfl⟩

/-- Values that may stand in the columns make a row. -/
theorem ofValues_of_holds {s : Schema} {vs : List Value} (h : s.Holds vs) :
    ofValues s vs = .ok ⟨s, vs, h.length⟩ :=
  ofValues_eq_ok_iff.mpr ⟨(checkAll_eq_ok_iff h.length).mpr h, rfl, rfl⟩

/-- The row can stand where rows of the schema are expected, and its values may stand in the columns
of the schema. -/
structure Suits (r : Row) (s : Schema) : Prop where
  fits : r.schema.fits s = true
  holds : s.Holds r.values

/-- A row that was checked suits its schema. -/
theorem suits_of_ofValues {s : Schema} {vs : List Value} {r : Row} (h : ofValues s vs = .ok r) :
    r.Suits s := by
  obtain ⟨hholds, rfl, rfl⟩ := holds_of_ofValues h
  exact ⟨Schema.fits_refl _, hholds⟩

/-- A row that suits a schema suits every schema that it fits. -/
theorem Suits.of_fits {r : Row} {s t : Schema} (h : r.Suits s) (hfits : s.fits t = true) :
    r.Suits t :=
  ⟨Schema.fits_trans h.fits hfits, h.holds.of_fits hfits⟩

end Row

end RelQuery
