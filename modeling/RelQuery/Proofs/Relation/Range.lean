import RelQuery.Proofs.Join.Nested

/-!
# RelQuery.Proofs.Relation.Range

**A lookup finds all rows with a key, and no others.**

`Row.HasKey` says in terms of columns and values what it is for a row to have a key: in the column
of each leading sort key it holds the value that the key has at this place. Comparing a row with a
key, which is all that a bisection looks at, tells just that (`SortedTable.compareKey_eq_iff`). So
the range that a lookup finds in a table whose order holds is the range of the rows that have the
key (`SortedTable.Ordered.exists_finds`), and a table holds its order when it has been sorted, or
when it has been declared to be sorted and verification agrees (`SortedTable.lookup_finds`).
-/

namespace RelQuery

/-- The row has the values of the key in the columns of the leading sort keys, as many as the key
has: each of its values stands in the column of the sort key at the same place. -/
def Row.HasKey (row : Row) (keys : List SortKey) (key : List Value) : Prop :=
  ∀ (j : Nat) (v : Value), key[j]? = some v →
    ∃ (k : SortKey) (w : Value), keys[j]? = some k ∧ row.value k.column = .ok w ∧ w.same v = true

namespace Row

variable {row : Row} {keys : List SortKey} {key : List Value}

/-- Every row has the empty key. -/
theorem hasKey_nil : row.HasKey keys [] := by
  simp [HasKey]

/-- A row has a key if it has the first value, and the others in the columns that follow. -/
theorem hasKey_cons {k : SortKey} {v : Value} :
    row.HasKey (k :: keys) (v :: key) ↔
      (∃ w, row.value k.column = .ok w ∧ w.same v = true) ∧ row.HasKey keys key := by
  constructor
  · intro h
    refine ⟨?_, fun j => h (j + 1)⟩
    obtain ⟨k', w, hk, hw⟩ := h 0 v rfl
    obtain rfl := Option.some.inj hk
    exact ⟨w, hw⟩
  · rintro ⟨⟨w, hw⟩, h⟩ j v' hv
    cases j with
    | zero =>
        obtain rfl := Option.some.inj hv
        exact ⟨k, w, rfl, hw⟩
    | succ j => exact h j v' hv

/-- No row has a key that is longer than the list of sort keys. -/
theorem not_hasKey_nil {v : Value} : ¬row.HasKey [] (v :: key) := by
  intro h
  obtain ⟨k, w, hk, -⟩ := h 0 v rfl
  simp at hk

instance (column : String) (v : Value) :
    Decidable (∃ w, row.value column = .ok w ∧ w.same v = true) :=
  decidable_of_iff ((row.value column).toOption.any (·.same v) = true) <| by
    cases row.value column <;> simp [Except.toOption]

instance decidableHasKey : ∀ keys key, Decidable (row.HasKey keys key)
  | _, [] => isTrue hasKey_nil
  | [], _ :: _ => isFalse not_hasKey_nil
  | _ :: keys, _ :: key =>
    haveI := decidableHasKey keys key
    decidable_of_iff _ hasKey_cons.symm

end Row

namespace RowOrder

/-- A row compares as equal to a key exactly if it has the key. -/
theorem compareKeyBy_eq_iff {schema : Schema} {row : Row} (hfits : row.schema.fits schema = true)
    {keys : List SortKey} {positions : List (Nat × Bool)}
    (hresolved : List.Forall₂ (fun k p => schema.require k.column = .ok p.1) keys positions)
    {key : List Value} (hlength : key.length ≤ keys.length) :
    compareKeyBy positions row key = .eq ↔ row.HasKey keys key := by
  induction hresolved generalizing key with
  | nil =>
      obtain rfl := List.length_eq_zero_iff.mp (Nat.le_zero.mp hlength)
      exact iff_of_true rfl Row.hasKey_nil
  | @cons k p keys positions hk _ ih =>
      cases key with
      | nil => exact iff_of_true rfl Row.hasKey_nil
      | cons v key =>
          rw [compareKeyBy, Ordering.then_eq_eq, directed_eq_eq_iff, Row.hasKey_cons,
            ih (Nat.le_of_succ_le_succ hlength), Row.value_of_require hfits hk]
          simp

end RowOrder

namespace SortedTable

/-- The lookup of a key finds the positions `start..stop`, and these are those of the rows that
have the key. -/
structure Finds (t : SortedTable) (key : List Value) (start stop : Nat) : Prop where
  lookup_eq : t.lookup key = .ok (start, stop)
  start_le : start ≤ stop
  stop_le : stop ≤ t.base.size
  /-- A row stands in the range exactly if it has the key. -/
  mem_iff : ∀ i row, t.base.rows[i]? = some row →
    (start ≤ i ∧ i < stop ↔ row.HasKey t.keys key)
  /-- So the rows that the range holds are those with the key, in the order of the table. -/
  rowsAt_eq : t.rowsAt key = .ok (t.base.rows.filter fun row => row.HasKey t.keys key)

variable {t : SortedTable} {key : List Value}

theorem compareKey_eq_iff (hlength : key.length ≤ t.keys.length) {row : Row}
    (hrow : row ∈ t.base.rows) : t.order.compareKey row key = .eq ↔ row.HasKey t.keys key :=
  RowOrder.compareKeyBy_eq_iff (t.base.rows_fit row hrow) (RowOrder.resolve_eq_ok t.resolved)
    hlength

/-- The rows of a range are the rows with a property, if these are the rows in it. -/
theorem rowsAt_of_lookup {start stop : Nat} (hlookup : t.lookup key = .ok (start, stop))
    {p : Row → Prop} [DecidablePred p]
    (hmem : ∀ i row, t.base.rows[i]? = some row → (start ≤ i ∧ i < stop ↔ p row)) :
    t.rowsAt key = .ok (t.base.rows.filter fun row => p row) := by
  have hslice : ((t.base.rows.drop start).take (stop - start)).filterMap some =
      t.base.rows.filterMap (Option.guard fun row => p row) := by
    refine Matcher.filterMap_slice t.base.rows start stop fun i row hrow => ?_
    simp only [Option.guard, hmem i row hrow, decide_eq_true_eq]
  rw [List.filterMap_some, List.filterMap_eq_filter] at hslice
  rw [rowsAt, hlookup, ← hslice]
  rfl

/-- In a table whose order holds, every key that is not longer than the order is found. -/
theorem Ordered.exists_finds (hordered : t.Ordered) (hlength : key.length ≤ t.keys.length) :
    ∃ start stop, t.Finds key start stop := by
  obtain ⟨start, stop, hlookup, hexact⟩ := lookup_exact hordered hlength
  obtain ⟨hstart, hstop⟩ := lookup_le hlookup
  have hmem : ∀ i row, t.base.rows[i]? = some row →
      (start ≤ i ∧ i < stop ↔ row.HasKey t.keys key) := by
    intro i row hrow
    rw [hexact i row hrow, compareKey_eq_iff hlength (List.mem_of_getElem? hrow)]
  exact ⟨start, stop, hlookup, hstart, hstop, hmem, rowsAt_of_lookup hlookup hmem⟩

theorem lookup_of_longer (h : t.keys.length < key.length) :
    t.lookup key = .error (.keyTooLong key.length t.base.name t.keys.length) :=
  if_pos h

/-- **A lookup finds all rows with a key, and no others.** Let a table be sorted by columns that it
has, in any directions and with any of them repeated, or be declared to be sorted by them. A key
that is not longer than the order is found in the sorted table, and in the declared one if
verification agrees. A longer key is refused by both. -/
theorem lookup_finds (t : Table) {keys : List SortKey}
    (hcolumns : ∀ k ∈ keys, k.column ∈ t.schema.names) (key : List Value) :
    ∃ sorted declared,
      sort t keys = .ok sorted ∧ sorted.keys = keys ∧ sorted.base.rows.Perm t.rows ∧
      declare t keys = .ok declared ∧ declared.keys = keys ∧ declared.base = t ∧
      (key.length ≤ keys.length →
        (∃ start stop, sorted.Finds key start stop) ∧
        (declared.isOrdered = true → ∃ start stop, declared.Finds key start stop)) ∧
      (keys.length < key.length →
        ∃ e, e = Error.keyTooLong key.length t.name keys.length ∧ e.kind = .invariant ∧
          sorted.lookup key = .error e ∧ declared.lookup key = .error e) := by
  obtain ⟨order, hresolve⟩ := RowOrder.exists_resolve_eq_ok fun k hk => by
    obtain ⟨i, hi⟩ := Option.isSome_iff_exists.mp (Schema.contains_iff.mpr (hcolumns k hk))
    exact ⟨i, Schema.require_eq_ok_iff.mpr hi⟩
  obtain ⟨sorted, hsort⟩ := exists_sort_eq_ok hresolve
  obtain ⟨declared, hdeclare⟩ := exists_declare_eq_ok hresolve
  obtain ⟨hbase, hkeys, hordered⟩ := sort_eq_ok hsort
  obtain ⟨rfl, hkeys'⟩ := declare_eq_ok hdeclare
  refine ⟨sorted, declared, hsort, hkeys, ?_, hdeclare, hkeys', rfl, fun hlength => ⟨?_, ?_⟩, ?_⟩
  · rw [hbase]
    exact List.mergeSort_perm _ _
  · exact hordered.exists_finds (by rwa [hkeys])
  · intro hverified
    exact (isOrdered_iff.mp hverified).exists_finds (by rwa [hkeys'])
  · intro hlonger
    have hname : sorted.base.name = declared.base.name := by rw [hbase]; rfl
    refine ⟨_, rfl, rfl, ?_, ?_⟩
    · rw [lookup_of_longer (by rwa [hkeys]), hkeys, hname]
    · rw [lookup_of_longer (by rwa [hkeys']), hkeys']

/-- What was weighed, and the plot it comes from. -/
def weighed : Schema :=
  ⟨"weighed", [⟨"plot", .int32, true, .position 0⟩, ⟨"weight", .float64, false, .position 1⟩]⟩

/-- Sacks by the plot that they come from, if it is known, from the last plot on and from the
heaviest sack on. One could not be weighed, and two are empty, which the scales show with either
sign. -/
def sacks : Table where
  schema := weighed
  rows := [
    ⟨weighed, [.int32 3, .float64 .nan], rfl⟩,
    ⟨weighed, [.int32 3, .float64 (.ofParts .double true 0)], rfl⟩,
    ⟨weighed, [.int32 3, .float64 .zero], rfl⟩, ⟨weighed, [.null, .float64 .zero], rfl⟩]
  rows_fit := by decide

/-- The order of the sacks, with a column that it repeats in the other direction. -/
def byPlot : List SortKey :=
  [⟨"plot", true⟩, ⟨"weight", true⟩, ⟨"plot", false⟩]

/-- The empty sacks of a plot are found, whether the sacks are sorted or were so before. -/
theorem lookup_finds_sacks :
    ∃ sorted declared, sort sacks byPlot = .ok sorted ∧ declare sacks byPlot = .ok declared ∧
      (∃ start stop, sorted.Finds [.int32 3, .float64 .zero] start stop) ∧
      (∃ start stop, declared.Finds [.int32 3, .float64 .zero] start stop) ∧
      ∃ e : Error, e.kind = .invariant ∧
        sorted.lookup [.int32 3, .null, .null, .null] = .error e := by
  have hcolumns : ∀ k ∈ byPlot, k.column ∈ sacks.schema.names := by decide
  obtain ⟨sorted, declared, hsort, -, -, hdeclare, -, -, hfinds, -⟩ :=
    lookup_finds sacks hcolumns [.int32 3, .float64 .zero]
  obtain ⟨sorted', declared', hsort', -, -, -, -, -, -, hlonger⟩ :=
    lookup_finds sacks hcolumns [.int32 3, .null, .null, .null]
  obtain rfl : sorted = sorted' := Except.ok.inj (hsort.symm.trans hsort')
  obtain rfl : ⟨sacks, byPlot, ⟨[(0, true), (1, true), (0, false)]⟩, rfl⟩ = declared :=
    Except.ok.inj hdeclare
  obtain ⟨hsorted, hdeclared⟩ := hfinds (by decide)
  obtain ⟨e, -, hkind, hrefused, -⟩ := hlonger (by decide)
  exact ⟨sorted, _, hsort, hdeclare, hsorted, hdeclared (by decide), e, hkind, hrefused⟩

end SortedTable

end RelQuery
