import Mathlib.Data.List.Perm.Basic
import RelQuery.Proofs.Except
import RelQuery.Relation

/-!
# RelQuery.Proofs.Relation.Items

**Lists of items**, each a row or the error in its place.

A pass over a relation yields such a list. `okRows` are the rows in it, `untilError` is what is left
of it when its first error ends it, and `Stream.gather` succeeds exactly on lists without an error
(`gather_eq_ok_iff`); otherwise it fails with the first (`firstError?`). Storing a relation keeps
what a pass over it yields (`exists_store`).
-/

namespace RelQuery

/-! ### The rows -/

/-- The rows among items; the errors are passed over. -/
def okRows : List Item → List Row
  | [] => []
  | .error _ :: items => okRows items
  | .ok row :: items => row :: okRows items

theorem okRows_eq_filterMap : ∀ items : List Item, okRows items = items.filterMap Except.toOption
  | [] => rfl
  | .error _ :: items => by rw [okRows, okRows_eq_filterMap items]; rfl
  | .ok row :: items => by rw [okRows, okRows_eq_filterMap items]; rfl

@[simp] theorem okRows_map_ok : ∀ rows : List Row, okRows (rows.map .ok) = rows
  | [] => rfl
  | row :: rows => by rw [List.map_cons, okRows, okRows_map_ok rows]

theorem mem_okRows {row : Row} : ∀ {items : List Item}, row ∈ okRows items ↔ .ok row ∈ items
  | [] => by simp [okRows]
  | .error _ :: items => by
      rw [okRows, mem_okRows, List.mem_cons]
      simp
  | .ok row' :: items => by
      rw [okRows, List.mem_cons, List.mem_cons, mem_okRows, Except.ok.injEq]

/-- Items without an error are their rows. -/
theorem eq_map_okRows : ∀ {items : List Item}, (∀ e, .error e ∉ items) →
    items = (okRows items).map .ok
  | [], _ => rfl
  | .error e :: items, h => absurd List.mem_cons_self (h e)
  | .ok row :: items, h => by
      rw [okRows, List.map_cons, ← eq_map_okRows fun e he => h e (List.mem_cons_of_mem _ he)]

/-- Items that are all rows with a property are rows with that property. -/
theorem exists_rows_of_forall {P : Row → Prop} {items : List Item}
    (h : ∀ item ∈ items, ∃ row, item = .ok row ∧ P row) :
    ∃ rows : List Row, items = rows.map .ok ∧ ∀ row ∈ rows, P row := by
  refine ⟨okRows items, eq_map_okRows fun e he => ?_, fun row hrow => ?_⟩
  · obtain ⟨row, hrow, -⟩ := h _ he
    simp at hrow
  · obtain ⟨row', heq, hP⟩ := h _ (mem_okRows.mp hrow)
    exact Except.ok.inj heq ▸ hP

theorem error_not_mem_map_ok {rows : List Row} {e : Error} :
    Except.error e ∉ rows.map Except.ok := by
  intro h
  obtain ⟨row, -, hrow⟩ := List.mem_map.mp h
  simp at hrow

/-- Items without an error in another order are their rows in another order. -/
theorem exists_rows_of_perm {items : List Item} {rows : List Row}
    (h : items.Perm (rows.map .ok)) :
    ∃ rows' : List Row, items = rows'.map .ok ∧ rows'.Perm rows := by
  refine ⟨okRows items, eq_map_okRows fun e he => error_not_mem_map_ok (h.mem_iff.mp he), ?_⟩
  have hrows := h.filterMap Except.toOption
  rw [← okRows_eq_filterMap, ← okRows_eq_filterMap, okRows_map_ok] at hrows
  exact hrows

/-- Gathering succeeds where there is no error. -/
theorem gather_eq_ok_iff : ∀ {items : List Item} {rows : List Row},
    Stream.gather items = .ok rows ↔ items = rows.map .ok
  | [], rows => by
      rw [Stream.gather, Except.ok.injEq, eq_comm]
      cases rows <;> simp
  | .error e :: items, rows => by
      rw [Stream.gather]
      cases rows <;> simp
  | .ok row :: items, rows => by
      rw [Stream.gather, map_eq_ok_iff]
      simp only [gather_eq_ok_iff]
      cases rows with
      | nil => simp
      | cons row' rows => simp [and_comm, eq_comm]

/-- The first error in a list of items. -/
def firstError? : List Item → Option Error
  | [] => none
  | .error e :: _ => some e
  | .ok _ :: items => firstError? items

/-- Items without a first error are rows. -/
theorem firstError?_eq_none_iff : ∀ {items : List Item},
    firstError? items = none ↔ ∃ rows : List Row, items = rows.map .ok
  | [] => iff_of_true rfl ⟨[], rfl⟩
  | .error e :: items => by
      refine iff_of_false (by simp [firstError?]) ?_
      rintro ⟨rows, hrows⟩
      cases rows <;> simp at hrows
  | .ok row :: items => by
      rw [firstError?, firstError?_eq_none_iff]
      constructor
      · rintro ⟨rows, rfl⟩
        exact ⟨row :: rows, rfl⟩
      · rintro ⟨rows, hrows⟩
        cases rows with
        | nil => simp at hrows
        | cons row' rows => exact ⟨rows, (List.cons.inj hrows).2⟩

theorem error_mem_of_firstError? {e : Error} : ∀ {items : List Item},
    firstError? items = some e → .error e ∈ items
  | .error e' :: items, h => by
      obtain rfl := Option.some.inj h
      exact List.mem_cons_self
  | .ok row :: items, h => List.mem_cons_of_mem _ (error_mem_of_firstError? h)

/-- Gathering fails with the first error. -/
theorem gather_eq_error_iff {e : Error} : ∀ {items : List Item},
    Stream.gather items = .error e ↔ firstError? items = some e
  | [] => by simp [Stream.gather, firstError?]
  | .error e' :: items => by simp [Stream.gather, firstError?]
  | .ok row :: items => by
      rw [Stream.gather, map_eq_error_iff, gather_eq_error_iff, firstError?]

/-- What is stored is what a pass yields. -/
theorem gather_of_store {r : Relation} {t : Table} (h : r.store = .ok t) :
    Stream.gather r.items = .ok t.rows := by
  cases r with
  | stream s =>
      obtain ⟨rows, hrows, h⟩ := bind_eq_ok_iff.mp h
      rw [Table.rows_of_ofRows h]
      exact hrows
  | table t' =>
      obtain rfl := Except.ok.inj h
      exact Stream.gather_map_ok t'.rows
  | sorted t' =>
      obtain rfl := Except.ok.inj h
      exact Stream.gather_map_ok t'.base.rows

theorem schema_of_store {r : Relation} {t : Table} (h : r.store = .ok t) : t.schema = r.schema := by
  cases r with
  | stream s =>
      obtain ⟨rows, -, h⟩ := bind_eq_ok_iff.mp h
      exact Table.schema_of_ofRows h
  | table t' =>
      obtain rfl := Except.ok.inj h
      rfl
  | sorted t' =>
      obtain rfl := Except.ok.inj h
      rfl

/-- A relation that yields an error is not stored. -/
theorem store_eq_error {r : Relation} {e : Error} (h : firstError? r.items = some e) :
    r.store = .error e := by
  have hgather := gather_eq_error_iff.mpr h
  cases r with
  | stream s => exact bind_eq_error_iff.mpr (Or.inl hgather)
  | table t =>
      rw [gather_of_store (show Relation.store (.table t) = .ok t from rfl)] at hgather
      simp at hgather
  | sorted t =>
      rw [gather_of_store (show Relation.store (.sorted t) = .ok t.base from rfl)] at hgather
      simp at hgather

/-- A relation with a row that does not fit it is not stored. Its rows are looked at only if none of
its items is an error. -/
theorem store_of_misfit {r : Relation} {rows : List Row} {i : Nat} {actual : Schema}
    (hrows : Stream.gather r.items = .ok rows)
    (hmisfit : misfit? r.schema rows = some (i, actual)) :
    r.store = .error (.foreignRow i r.schema.name actual.render r.schema.render) := by
  have hstored : ∀ t : Table, t.schema = r.schema → Stream.gather r.items ≠ .ok t.rows := by
    intro t hschema hgather
    obtain rfl := Except.ok.inj (hrows.symm.trans hgather)
    rw [← hschema, misfit?_eq_none_iff.mpr t.rows_fit] at hmisfit
    exact absurd hmisfit (by simp)
  cases r with
  | stream s =>
      refine bind_eq_error_iff.mpr (Or.inr ⟨rows, hrows, ?_⟩)
      unfold Table.ofRows
      split
      · rename_i i' actual' hmisfit'
        obtain ⟨rfl, rfl⟩ := Prod.mk.inj (Option.some.inj (hmisfit.symm.trans hmisfit'))
        rfl
      · rename_i hnone
        exact absurd (hmisfit.symm.trans hnone) (by simp)
  | table t => exact absurd (gather_of_store rfl) (hstored t rfl)
  | sorted t => exact absurd (gather_of_store rfl) (hstored t.base rfl)

/-- A relation that yields rows that fit it is stored with these rows. -/
theorem exists_store {r : Relation} {rows : List Row} (hrows : Stream.gather r.items = .ok rows)
    (hfit : ∀ row ∈ rows, row.schema.fits r.schema = true) :
    ∃ t, r.store = .ok t ∧ t.rows = rows ∧ t.schema = r.schema := by
  cases r with
  | stream s =>
      refine ⟨⟨s.schema, rows, hfit⟩, ?_, rfl, rfl⟩
      simp only [Relation.items] at hrows
      simp only [Relation.store, Stream.collect, hrows]
      exact Table.ofRows_of_fit hfit
  | table t => exact ⟨t, rfl, Except.ok.inj ((gather_of_store rfl).symm.trans hrows), rfl⟩
  | sorted t => exact ⟨t.base, rfl, Except.ok.inj ((gather_of_store rfl).symm.trans hrows), rfl⟩

/-! ### Lists that end with an error -/

/-- The items up to the first error, which is the last of them. -/
def untilError : List Item → List Item
  | [] => []
  | .error e :: _ => [.error e]
  | .ok row :: items => .ok row :: untilError items

/-- Rows alone are not cut. -/
@[simp] theorem untilError_map_ok : ∀ rows : List Row, untilError (rows.map .ok) = rows.map .ok
  | [] => rfl
  | row :: rows => by rw [List.map_cons, untilError, untilError_map_ok rows]

/-- Cutting adds nothing. -/
theorem mem_of_mem_untilError {item : Item} : ∀ {items : List Item},
    item ∈ untilError items → item ∈ items
  | [], h => h
  | .error e :: items, h => List.mem_cons.mpr (Or.inl (List.mem_singleton.mp h))
  | .ok row :: items, h => by
      rw [untilError, List.mem_cons] at h
      exact List.mem_cons.mpr (h.imp_right mem_of_mem_untilError)

/-- Cutting behind the first error does not change what is gathered. -/
theorem gather_untilError : ∀ items : List Item,
    Stream.gather (untilError items) = Stream.gather items
  | [] => rfl
  | .error _ :: _ => rfl
  | .ok row :: items => by rw [untilError, Stream.gather, Stream.gather, gather_untilError items]

end RelQuery
