import RelQuery.Proofs.Relation.Lookup

/-!
# RelQuery.Proofs.Relation.Preorder

**Rows are totally preordered**, and keys cut through their order.

That `RowOrder.compare` is oriented and transitive is an instance of `Std.TransCmp`; here it is put
together with what a sorted table needs beyond it. The rows below a key, those that hold it and
those above it follow each other (`isLE_compare_compareKey`), although a key may be shorter than the
order. And a comparison of neighbours is as good as one of all pairs (`isOrdered_iff_of_lt`).
-/

namespace RelQuery

namespace RowOrder

variable {o : RowOrder} {a b : Row}

/-- Of two rows the one that is not above the other does not stand higher against a key. -/
theorem isLE_compare_compareKey (hab : o.compare a b ≠ .gt) (key : List Value) :
    (Ord.compare (o.compareKey a key) (o.compareKey b key)).isLE = true := by
  have hle : (compareBy o.keys a b).isLE = true := Ordering.isLE_iff_ne_gt.mpr hab
  unfold compareKey
  cases hb : compareKeyBy o.keys b key with
  | lt =>
      rw [compareKeyBy_lt_of_isLE hle hb]
      rfl
  | eq =>
      have ha := compareKeyBy_isLE_of_isLE hle (by rw [hb]; rfl)
      rcases Ordering.isLE_iff_eq_lt_or_eq_eq.mp ha with ha | ha <;> rw [ha] <;> rfl
  | gt => cases compareKeyBy o.keys a key <;> rfl

end RowOrder

/-- No row is above its successor exactly if none is above any later one. -/
theorem SortedTable.isOrdered_iff_of_lt {t : SortedTable} : t.isOrdered = true ↔
    ∀ (i j : Nat) (a b : Row), i < j → t.base.rows[i]? = some a → t.base.rows[j]? = some b →
      t.order.compare a b ≠ .gt := by
  rw [isOrdered_iff]
  constructor
  · intro hordered i j a b hij ha hb
    exact Ordering.isLE_iff_ne_gt.mp (hordered.compare_isLE (Nat.le_of_lt hij) ha hb)
  · intro hpairs
    refine List.pairwise_iff_getElem.mpr fun i j hi hj hij => Ordering.isLE_iff_ne_gt.mpr ?_
    exact hpairs i j _ _ hij (List.getElem?_eq_getElem hi) (List.getElem?_eq_getElem hj)

namespace RowOrder

/-- **Rows are totally preordered, keys respect their order, and neighbours tell whether it holds.**
By whatever columns and in whatever directions rows are compared, comparing them the other way round
gives the opposite answer, the comparison is transitive, and rows that compare as equal compare
alike with every other. A row that is not above another does not stand higher against any key, where
below comes before equal and equal before above. And the check of a table that is declared to be
sorted, which looks at neighbours only, tells whether any row is above a later one. -/
theorem compare_preorder (o : RowOrder) :
    (∀ a b, o.compare a b = (o.compare b a).swap) ∧
    (∀ a b c, o.compare a b ≠ .gt → o.compare b c ≠ .gt → o.compare a c ≠ .gt) ∧
    (∀ a b c, o.compare a b = .eq → o.compare a c = o.compare b c) ∧
    (∀ a b key, o.compare a b ≠ .gt →
      (Ord.compare (o.compareKey a key) (o.compareKey b key)).isLE = true) ∧
    ∀ t : SortedTable, t.order = o →
      (t.isOrdered = true ↔ ∀ (i j : Nat) (a b : Row), i < j → t.base.rows[i]? = some a →
        t.base.rows[j]? = some b → o.compare a b ≠ .gt) := by
  refine ⟨fun _ _ => Std.OrientedCmp.eq_swap, fun a b c hab hbc => ?_,
    fun _ _ _ hab => Std.TransCmp.congr_left hab,
    fun _ _ key hab => isLE_compare_compareKey hab key, ?_⟩
  · exact bne_iff_ne.mp (notAbove_trans o a b c (bne_iff_ne.mpr hab) (bne_iff_ne.mpr hbc))
  · rintro t rfl
    exact SortedTable.isOrdered_iff_of_lt

/-- Readings of a gauge: when, if that is known, and how high the water stood. -/
def gauged : Schema :=
  ⟨"gauged", [⟨"hour", .int32, true, .position 0⟩, ⟨"level", .float64, false, .position 1⟩]⟩

/-- The last hour first, unknown hours at the end, and within an hour the lowest level first. -/
def byHour : List SortKey :=
  [⟨"hour", true⟩, ⟨"level", false⟩, ⟨"hour", false⟩]

/-- A level of zero, read with either sign, one that could not be read, and one of an unknown
hour. -/
def levels : Table where
  schema := gauged
  rows := [
    ⟨gauged, [.int32 9, .float64 .zero], rfl⟩,
    ⟨gauged, [.int32 9, .float64 (.ofParts .double true 0)], rfl⟩,
    ⟨gauged, [.int32 9, .float64 .nan], rfl⟩, ⟨gauged, [.null, .float64 .nan], rfl⟩]
  rows_fit := by decide

/-- The levels stand in their order, as their neighbours tell, so none is above any later one; and
the first does not stand higher than the last against the key of an hour. -/
theorem compare_preorder_levels :
    ∃ t, SortedTable.declare levels byHour = .ok t ∧
      (∀ (i j : Nat) (a b : Row), i < j → t.base.rows[i]? = some a →
        t.base.rows[j]? = some b → t.order.compare a b ≠ .gt) ∧
      ∀ key a b, levels.rows[0]? = some a → levels.rows[3]? = some b →
        (Ord.compare (t.order.compareKey a key) (t.order.compareKey b key)).isLE = true := by
  let t : SortedTable := ⟨levels, byHour, ⟨[(0, true), (1, false), (0, false)]⟩, rfl⟩
  obtain ⟨-, -, -, hkeys, hordered⟩ := compare_preorder t.order
  have hpairs := (hordered t rfl).mp (by decide)
  exact ⟨t, rfl, hpairs, fun key a b ha hb => hkeys a b key (hpairs 0 3 a b (by decide) ha hb)⟩

end RowOrder

end RelQuery
