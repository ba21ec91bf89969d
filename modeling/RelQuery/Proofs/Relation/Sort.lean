import RelQuery.Proofs.Relation.Lookup

/-!
# RelQuery.Proofs.Relation.Sort

**Sorting is stable**, and a stable sort is unique.

Two rows tie under an order if they hold the same value in each of its columns (`RowOrder.ties`).
`RowOrder.StableSort` says what it is to sort rows: they are the same rows, none is above a later
one, and those that tie stand as they stood before. There is only one list like that (`unique`), and
`Table.sortBy` is one (`stableSort_sortBy`). Where earlier columns tie, nulls come first in an
ascending column and last in a descending one (`nullsPlaced`).
-/

namespace RelQuery

namespace RowOrder

/-- Whether two rows hold the same value in the column of every key. -/
def tiesBy (keys : List (Nat × Bool)) (a b : Row) : Bool :=
  keys.all fun k => (a.cell k.1).same (b.cell k.1)

/-- Whether two rows hold the same values in all columns of the order. -/
def ties (order : RowOrder) (a b : Row) : Bool :=
  tiesBy order.keys a b

/-- `sorted` has the given rows in the order, and those that tie as they come. -/
structure StableSort (order : RowOrder) (rows sorted : List Row) : Prop where
  perm : sorted.Perm rows
  /-- No row is above a later one. -/
  ascending : sorted.Pairwise fun a b => (order.compare a b).isLE = true
  /-- The rows that tie with a row stand in the same order as before. -/
  stable : ∀ row, sorted.filter (order.ties row) = rows.filter (order.ties row)

/-- Where earlier columns tie, nulls come first in an ascending column and last in a descending
one. -/
def NullsPlaced (order : RowOrder) (sorted : List Row) : Prop :=
  ∀ earlier i descending later, order.keys = earlier ++ (i, descending) :: later →
    sorted.Pairwise fun a b => tiesBy earlier a b = true →
      if descending then a.cell i = .null → b.cell i = .null
      else b.cell i = .null → a.cell i = .null

variable {order : RowOrder} {rows sorted : List Row}

/-! ### Ties -/

/-- Rows tie if they compare as equal. -/
theorem tiesBy_iff {a b : Row} : ∀ {keys : List (Nat × Bool)},
    tiesBy keys a b = true ↔ compareBy keys a b = .eq
  | [] => iff_of_true rfl rfl
  | (i, descending) :: keys => by
      rw [compareBy, Ordering.then_eq_eq, directed_eq_eq_iff, ← tiesBy_iff]
      simp only [tiesBy, List.all_cons, Bool.and_eq_true]

theorem ties_iff {a b : Row} : order.ties a b = true ↔ order.compare a b = .eq :=
  tiesBy_iff

@[simp] theorem ties_refl (row : Row) : order.ties row row = true :=
  ties_iff.mpr Std.ReflCmp.compare_self

/-- Rows that tie with the same row tie with each other. -/
theorem compare_of_ties {row a b : Row} (ha : order.ties row a = true)
    (hb : order.ties row b = true) : order.compare a b = .eq := by
  rw [ties_iff] at ha hb
  exact Std.TransCmp.eq_trans (Std.OrientedCmp.eq_symm ha) hb

/-! ### Sorting -/

/-- Sorting by merging is stable. -/
theorem filter_mergeSort (order : RowOrder) (rows : List Row) (row : Row) :
    (rows.mergeSort fun a b => order.compare a b != .gt).filter (order.ties row) =
      rows.filter (order.ties row) := by
  have htied : (rows.filter (order.ties row)).Pairwise fun a b =>
      (order.compare a b != .gt) = true := by
    refine List.pairwise_of_forall_mem_list fun a ha b hb => ?_
    rw [compare_of_ties (List.mem_filter.mp ha).2 (List.mem_filter.mp hb).2]
    rfl
  -- Rows that already ascend come out of a merge sort in the order in which they went in.
  have hsub := List.sublist_mergeSort order.notAbove_trans order.notAbove_total htied
    List.filter_sublist
  have hsub := hsub.filter (order.ties row)
  simp only [List.filter_filter, Bool.and_self] at hsub
  refine (hsub.eq_of_length ?_).symm
  exact ((List.mergeSort_perm rows _).filter _).length_eq.symm

end RowOrder

/-- A table is sorted stably. -/
theorem Table.stableSort_sortBy (t : Table) (order : RowOrder) :
    order.StableSort t.rows (t.sortBy order).rows where
  perm := List.mergeSort_perm t.rows _
  ascending := order.pairwise_mergeSort t.rows
  stable := order.filter_mergeSort t.rows

namespace RowOrder

variable {order : RowOrder} {rows sorted : List Row}

/-- Ascending rows are determined by how those that tie follow each other. -/
theorem eq_of_ascending : ∀ {as bs : List Row},
    as.Pairwise (fun a b => (order.compare a b).isLE = true) →
    bs.Pairwise (fun a b => (order.compare a b).isLE = true) → as.Perm bs →
    (∀ row, as.filter (order.ties row) = bs.filter (order.ties row)) → as = bs
  | [], bs, _, _, hperm, _ => hperm.nil_eq
  | a :: as, [], _, _, hperm, _ => hperm.eq_nil
  | a :: as, b :: bs, has, hbs, hperm, hties => by
      have hle : ∀ {a b : Row} {as : List Row},
          (a :: as).Pairwise (fun a b => (order.compare a b).isLE = true) → b ∈ a :: as →
            (order.compare a b).isLE = true := by
        intro a b as has hmem
        rcases List.mem_cons.mp hmem with rfl | hmem
        · exact Std.ReflCmp.isLE_rfl
        · exact (List.pairwise_cons.mp has).1 b hmem
      -- Each of the first rows is not above the other, so they tie, and the same comes first.
      have heq : order.compare a b = .eq := Std.OrientedCmp.isLE_antisymm
        (hle has (hperm.mem_iff.mpr List.mem_cons_self))
        (hle hbs (hperm.mem_iff.mp List.mem_cons_self))
      have hfirst := hties a
      rw [List.filter_cons_of_pos (ties_refl a),
        List.filter_cons_of_pos (ties_iff.mpr heq)] at hfirst
      obtain rfl := (List.cons.inj hfirst).1
      have hrest : ∀ row, as.filter (order.ties row) = bs.filter (order.ties row) := by
        intro row
        have hrow := hties row
        by_cases ha : order.ties row a = true
        · rw [List.filter_cons_of_pos ha, List.filter_cons_of_pos ha] at hrow
          exact (List.cons.inj hrow).2
        · rw [List.filter_cons_of_neg ha, List.filter_cons_of_neg ha] at hrow
          exact hrow
      rw [eq_of_ascending (List.pairwise_cons.mp has).2 (List.pairwise_cons.mp hbs).2
        hperm.cons_inv hrest]

namespace StableSort

variable {sorted' : List Row}

/-- There is one stable sort of some rows. -/
theorem unique (h : order.StableSort rows sorted) (h' : order.StableSort rows sorted') :
    sorted = sorted' :=
  eq_of_ascending h.ascending h'.ascending (h.perm.trans h'.perm.symm) fun row =>
    (h.stable row).trans (h'.stable row).symm

/-! ### Nulls -/

/-- Where earlier columns tie, the next one decides. -/
theorem directed_isLE (h : order.StableSort rows sorted) {earlier later : List (Nat × Bool)}
    {i : Nat} {descending : Bool} (hkeys : order.keys = earlier ++ (i, descending) :: later) :
    sorted.Pairwise fun a b => tiesBy earlier a b = true →
      (directed descending (a.cell i) (b.cell i)).isLE = true := by
  refine h.ascending.imp fun {a b} hle hties => ?_
  rw [RowOrder.compare, hkeys] at hle
  clear hkeys
  induction earlier with
  | nil =>
      rw [List.nil_append, compareBy, Ordering.isLE_then_iff_and] at hle
      exact hle.1
  | cons k earlier ih =>
      simp only [tiesBy, List.all_cons, Bool.and_eq_true] at hties
      rw [List.cons_append, compareBy, directed_eq_eq_iff.mpr hties.1] at hle
      exact ih hle hties.2

/-- Nulls stand where they belong in every column of the order. -/
theorem nullsPlaced (h : order.StableSort rows sorted) : order.NullsPlaced sorted := by
  intro earlier i descending later hkeys
  refine (h.directed_isLE hkeys).imp fun {a b} hle hties => ?_
  have hle := hle hties
  cases descending with
  | false =>
      intro hnull
      rw [hnull] at hle
      exact Value.eq_null_of_isLE_null hle
  | true =>
      intro hnull
      rw [directed_true, hnull] at hle
      exact Value.eq_null_of_isLE_null hle

end StableSort

end RowOrder

end RelQuery
