import RelQuery.Proofs.Value.Order
import RelQuery.Relation

/-!
# RelQuery.Proofs.Relation.Lookup

**Bisection finds exactly the rows with a key.**

`RowOrder.compareBy` is a total preorder of rows, and comparing a row with a key respects it: the
rows below the key stand before those that hold it, and these before those above it
(`compareKeyBy_lt_of_isLE`, `compareKeyBy_isLE_of_isLE`). On a table whose order holds, both
searches of `SortedTable.lookup` therefore look for the end of a prefix, which is what `boundary`
finds (`lt_boundary_iff`), and the range of positions between them is exactly that of the rows that
hold the key (`lookup_exact`).
-/

namespace RelQuery

/-! ### The end of a prefix -/

variable {below : Nat → Bool} {lo hi : Nat}

theorem boundary_of_below (h : lo < hi) (hm : below ((lo + hi) / 2) = true) :
    boundary below lo hi = boundary below ((lo + hi) / 2 + 1) hi := by
  rw [boundary, if_pos h]
  simp only [hm, if_true]

theorem boundary_of_not_below (h : lo < hi) (hm : ¬below ((lo + hi) / 2) = true) :
    boundary below lo hi = boundary below lo ((lo + hi) / 2) := by
  rw [boundary, if_pos h]
  simp only [hm, Bool.false_eq_true, if_false]

theorem boundary_of_le (h : ¬lo < hi) : boundary below lo hi = lo := by
  rw [boundary, if_neg h]

theorem le_boundary (below : Nat → Bool) (lo hi : Nat) : lo ≤ boundary below lo hi := by
  induction lo, hi using boundary.induct below with
  | case1 lo hi h middle hm ih =>
      rw [boundary_of_below h hm]
      have : lo ≤ (lo + hi) / 2 + 1 := by omega
      exact Nat.le_trans this ih
  | case2 lo hi h middle hm ih =>
      rw [boundary_of_not_below h hm]
      exact ih
  | case3 lo hi h =>
      exact Nat.le_of_eq (boundary_of_le h).symm

theorem boundary_le (below : Nat → Bool) {lo hi : Nat} (h : lo ≤ hi) :
    boundary below lo hi ≤ hi := by
  induction lo, hi using boundary.induct below with
  | case1 lo hi hlt middle hm ih =>
      rw [boundary_of_below hlt hm]
      exact ih (by omega)
  | case2 lo hi hlt middle hm ih =>
      rw [boundary_of_not_below hlt hm]
      exact Nat.le_trans (ih (by omega)) (by omega)
  | case3 lo hi hlt =>
      rw [boundary_of_le hlt]
      exact h

/-- If `below` holds of a prefix of `lo..hi`, the positions before the boundary are those of the
prefix. -/
theorem lt_boundary_iff
    (hbefore : ∀ i j, lo ≤ i → i ≤ j → j < hi → below j = true → below i = true) {i : Nat}
    (hlo : lo ≤ i) (hhi : i < hi) : i < boundary below lo hi ↔ below i = true := by
  induction lo, hi using boundary.induct below with
  | case1 lo hi hlt middle hm ih =>
      rw [boundary_of_below hlt hm]
      by_cases hi' : i ≤ (lo + hi) / 2
      · -- Everything up to the middle belongs to the prefix.
        have := le_boundary below ((lo + hi) / 2 + 1) hi
        exact iff_of_true (by omega) (hbefore i _ hlo hi' (by omega) hm)
      · exact ih (fun a b ha => hbefore a b (by omega)) (by omega) hhi
  | case2 lo hi hlt middle hm ih =>
      rw [boundary_of_not_below hlt hm]
      by_cases hi' : i < (lo + hi) / 2
      · exact ih (fun a b ha hab hb => hbefore a b ha hab (by omega)) hlo hi'
      · -- Nothing from the middle on belongs to the prefix.
        have := @boundary_le below lo ((lo + hi) / 2) (by omega)
        refine iff_of_false (by omega) fun h => hm ?_
        exact hbefore _ i (by omega) (by omega) hhi h
  | case3 lo hi hlt => omega

namespace RowOrder

/-! ### The order of rows -/

theorem directed_true (a b : Value) : directed true a b = b.order a :=
  (Value.order_swap b a).symm

/-- In either direction the order of values is a total preorder. -/
instance (descending : Bool) : Std.TransCmp (directed descending) where
  eq_swap := by
    intro a b
    cases descending with
    | false => exact Value.order_swap a b
    | true =>
        rw [directed_true, directed_true]
        exact Value.order_swap b a
  isLE_trans := by
    intro a b c hab hbc
    cases descending with
    | false => exact Value.isLE_order_trans hab hbc
    | true =>
        rw [directed_true] at hab hbc ⊢
        exact Value.isLE_order_trans hbc hab

theorem directed_eq_eq_iff {descending : Bool} {a b : Value} :
    directed descending a b = .eq ↔ a.same b = true := by
  rw [Value.same_iff]
  unfold directed
  cases descending <;> simp

/-- Rows compared by keys are totally preordered. -/
theorem transCmp_compareBy : ∀ keys, Std.TransCmp (compareBy keys)
  | [] =>
      { eq_swap := rfl
        isLE_trans := fun _ _ => rfl }
  | (i, descending) :: keys => by
      have := transCmp_compareBy keys
      have : Std.TransCmp (fun a b : Row => directed descending (a.cell i) (b.cell i)) :=
        { eq_swap := Std.OrientedCmp.eq_swap
          isLE_trans := Std.TransCmp.isLE_trans }
      exact inferInstanceAs (Std.TransCmp (compareLex
        (fun a b : Row => directed descending (a.cell i) (b.cell i)) (compareBy keys)))

instance (order : RowOrder) : Std.TransCmp order.compare :=
  transCmp_compareBy order.keys

/-! ### Sorting -/

variable (order : RowOrder)

theorem notAbove_trans (a b c : Row) (hab : (order.compare a b != .gt) = true)
    (hbc : (order.compare b c != .gt) = true) : (order.compare a c != .gt) = true := by
  have hab := Ordering.isLE_iff_ne_gt.mpr (bne_iff_ne.mp hab)
  have hbc := Ordering.isLE_iff_ne_gt.mpr (bne_iff_ne.mp hbc)
  exact bne_iff_ne.mpr (Ordering.isLE_iff_ne_gt.mp (Std.TransCmp.isLE_trans hab hbc))

theorem notAbove_total (a b : Row) :
    (order.compare a b != .gt || order.compare b a != .gt) = true := by
  have hswap : order.compare a b = (order.compare b a).swap := Std.OrientedCmp.eq_swap
  rw [hswap]
  cases order.compare b a <;> rfl

/-- Sorted rows ascend. -/
theorem pairwise_mergeSort (rows : List Row) :
    (rows.mergeSort fun a b => order.compare a b != .gt).Pairwise
      fun a b => (order.compare a b).isLE = true :=
  (List.pairwise_mergeSort order.notAbove_trans order.notAbove_total rows).imp fun hab =>
    Ordering.isLE_iff_ne_gt.mpr (bne_iff_ne.mp hab)

/-! ### Rows and keys -/

/-- A row that is not above one below the key is itself below the key. -/
theorem compareKeyBy_lt_of_isLE {a b : Row} : ∀ {keys : List (Nat × Bool)} {key : List Value},
    (compareBy keys a b).isLE = true → compareKeyBy keys b key = .lt →
      compareKeyBy keys a key = .lt
  | [], [], _, hb => by simp [compareKeyBy] at hb
  | [], _ :: _, _, hb => by simp [compareKeyBy] at hb
  | _ :: _, [], _, hb => by simp [compareKeyBy] at hb
  | (i, descending) :: keys, v :: key, hab, hb => by
      rw [compareKeyBy, Ordering.then_eq_lt] at hb ⊢
      rw [compareBy, Ordering.isLE_then_iff_or] at hab
      rcases hab with hab | ⟨hab, hrest⟩
      · -- The first columns decide, so the key is above the first column of `a`.
        refine Or.inl (Std.TransCmp.lt_of_lt_of_isLE hab ?_)
        rcases hb with hb | ⟨hb, -⟩ <;> rw [hb] <;> rfl
      · rw [Std.TransCmp.congr_left hab]
        rcases hb with hb | ⟨hb, hkey⟩
        · exact Or.inl hb
        · exact Or.inr ⟨hb, compareKeyBy_lt_of_isLE hrest hkey⟩

/-- A row that is not above one that is not above the key is itself not above the key. -/
theorem compareKeyBy_isLE_of_isLE {a b : Row} : ∀ {keys : List (Nat × Bool)} {key : List Value},
    (compareBy keys a b).isLE = true → (compareKeyBy keys b key).isLE = true →
      (compareKeyBy keys a key).isLE = true
  | [], [], _, _ => rfl
  | [], _ :: _, _, _ => rfl
  | _ :: _, [], _, _ => rfl
  | (i, descending) :: keys, v :: key, hab, hb => by
      rw [compareKeyBy, Ordering.isLE_then_iff_or] at hb ⊢
      rw [compareBy, Ordering.isLE_then_iff_or] at hab
      rcases hab with hab | ⟨hab, hrest⟩
      · refine Or.inl (Std.TransCmp.lt_of_lt_of_isLE hab ?_)
        rcases hb with hb | ⟨hb, -⟩ <;> rw [hb] <;> rfl
      · rw [Std.TransCmp.congr_left hab]
        rcases hb with hb | ⟨hb, hkey⟩
        · exact Or.inl hb
        · exact Or.inr ⟨hb, compareKeyBy_isLE_of_isLE hrest hkey⟩

end RowOrder

namespace SortedTable

/-! ### Tables whose order holds -/

/-- The declared order holds: no row is above a later one. -/
def Ordered (t : SortedTable) : Prop :=
  t.base.rows.Pairwise fun a b => (t.order.compare a b).isLE = true

theorem ascends_iff {order : RowOrder} : ∀ {rows : List Row},
    ascends order rows = true ↔ rows.Pairwise fun a b => (order.compare a b).isLE = true
  | [] => by simp [ascends]
  | [_] => by simp [ascends]
  | a :: b :: rows => by
      rw [ascends, Bool.and_eq_true, ascends_iff, List.pairwise_cons (a := a)]
      simp only [bne_iff_ne, ← Ordering.isLE_iff_ne_gt]
      constructor
      · rintro ⟨hab, hrest⟩
        refine ⟨?_, hrest⟩
        intro c hc
        rcases List.mem_cons.mp hc with rfl | hc
        · exact hab
        · exact Std.TransCmp.isLE_trans hab ((List.pairwise_cons.mp hrest).1 c hc)
      · rintro ⟨ha, hrest⟩
        exact ⟨ha b (List.mem_cons_self), hrest⟩

/-- Verification tells whether the declared order holds. -/
theorem isOrdered_iff {t : SortedTable} : t.isOrdered = true ↔ t.Ordered :=
  ascends_iff

/-- A table can be sorted by columns that it has. -/
theorem exists_sort_eq_ok {t : Table} {keys : List SortKey} {order : RowOrder}
    (h : RowOrder.resolve t.schema keys = .ok order) : ∃ s, sort t keys = .ok s := by
  unfold sort
  split
  · rename_i e he
    rw [h] at he
    simp at he
  · exact ⟨_, rfl⟩

/-- What sorting makes of a table: the rows in another order, which is the declared one. -/
theorem sort_eq_ok {t : Table} {keys : List SortKey} {s : SortedTable}
    (h : sort t keys = .ok s) :
    s.base = t.sortBy s.order ∧ s.keys = keys ∧ s.Ordered := by
  unfold sort at h
  split at h
  · simp at h
  · rename_i order hresolve
    obtain rfl := Except.ok.inj h
    refine ⟨rfl, rfl, ?_⟩
    exact order.pairwise_mergeSort t.rows

/-- An order can be declared by columns that the table has. -/
theorem exists_declare_eq_ok {t : Table} {keys : List SortKey} {order : RowOrder}
    (h : RowOrder.resolve t.schema keys = .ok order) : ∃ s, declare t keys = .ok s := by
  unfold declare
  split
  · rename_i e he
    rw [h] at he
    simp at he
  · exact ⟨_, rfl⟩

/-- Declaring an order leaves the table as it is. -/
theorem declare_eq_ok {t : Table} {keys : List SortKey} {s : SortedTable}
    (h : declare t keys = .ok s) : s.base = t ∧ s.keys = keys := by
  unfold declare at h
  split at h
  · simp at h
  · obtain rfl := Except.ok.inj h
    exact ⟨rfl, rfl⟩

/-- The positions that a sorted table compares its rows by are those of its keys. -/
theorem order_eq_of_resolve {s : SortedTable} {order : RowOrder}
    (h : RowOrder.resolve s.base.schema s.keys = .ok order) : s.order = order :=
  Except.ok.inj (s.resolved.symm.trans h)

/-! ### Lookups -/

variable {t : SortedTable} {key : List Value}

/-- The range that a lookup finds is one of positions of rows, whether or not the order holds. -/
theorem lookup_le {start stop : Nat} (h : t.lookup key = .ok (start, stop)) :
    start ≤ stop ∧ stop ≤ t.base.size := by
  unfold lookup at h
  split at h
  · simp at h
  · obtain ⟨rfl, rfl⟩ := Prod.mk.inj (Except.ok.inj h)
    have hstart := boundary_le (fun i => t.compareAt key i == .lt) (Nat.zero_le t.base.size)
    exact ⟨le_boundary _ _ _, boundary_le _ hstart⟩

theorem compareAt_of_getElem? {i : Nat} {row : Row} (h : t.base.rows[i]? = some row) :
    t.compareAt key i = t.order.compareKey row key := by
  simp only [compareAt, h]

/-- A row is not above one at a later position. -/
theorem Ordered.compare_isLE (hordered : t.Ordered) {i j : Nat} {a b : Row} (hij : i ≤ j)
    (ha : t.base.rows[i]? = some a) (hb : t.base.rows[j]? = some b) :
    (t.order.compare a b).isLE = true := by
  obtain ⟨hi, rfl⟩ := List.getElem?_eq_some_iff.mp ha
  obtain ⟨hj, rfl⟩ := List.getElem?_eq_some_iff.mp hb
  rcases Nat.lt_or_eq_of_le hij with hij | rfl
  · exact List.pairwise_iff_getElem.mp hordered i j hi hj hij
  · have hself : t.order.compare t.base.rows[i] t.base.rows[i] = .eq := Std.ReflCmp.compare_self
    rw [hself]
    rfl

/-- The rows below a key come first. -/
theorem Ordered.compareAt_lt (hordered : t.Ordered) {i j : Nat} (hij : i ≤ j)
    (hj : j < t.base.size) (hlt : t.compareAt key j = .lt) : t.compareAt key i = .lt := by
  have hb := List.getElem?_eq_getElem hj
  have ha := List.getElem?_eq_getElem (Nat.lt_of_le_of_lt hij hj)
  rw [compareAt_of_getElem? hb] at hlt
  rw [compareAt_of_getElem? ha]
  exact RowOrder.compareKeyBy_lt_of_isLE (hordered.compare_isLE hij ha hb) hlt

/-- The rows above a key come last. -/
theorem Ordered.compareAt_isLE (hordered : t.Ordered) {i j : Nat} (hij : i ≤ j)
    (hj : j < t.base.size) (hle : (t.compareAt key j).isLE = true) :
    (t.compareAt key i).isLE = true := by
  have hb := List.getElem?_eq_getElem hj
  have ha := List.getElem?_eq_getElem (Nat.lt_of_le_of_lt hij hj)
  rw [compareAt_of_getElem? hb] at hle
  rw [compareAt_of_getElem? ha]
  exact RowOrder.compareKeyBy_isLE_of_isLE (hordered.compare_isLE hij ha hb) hle

/-- On a table whose order holds, the positions that a lookup finds are exactly those of the rows
that hold the key. -/
theorem lookup_exact (hordered : t.Ordered) (hlength : key.length ≤ t.keys.length) :
    ∃ start stop, t.lookup key = .ok (start, stop) ∧
      ∀ i row, t.base.rows[i]? = some row →
        (start ≤ i ∧ i < stop ↔ t.order.compareKey row key = .eq) := by
  let start := boundary (fun i => t.compareAt key i == .lt) 0 t.base.size
  let stop := boundary (fun i => t.compareAt key i == .eq) start t.base.size
  refine ⟨start, stop, if_neg (Nat.not_lt.mpr hlength), ?_⟩
  have hbelow : ∀ {i}, i < t.base.size → (i < start ↔ t.compareAt key i = .lt) := by
    intro i hi
    rw [lt_boundary_iff ?_ (Nat.zero_le i) hi, beq_iff_eq]
    intro a b _ hab hb hlt
    exact beq_iff_eq.mpr (hordered.compareAt_lt hab hb (beq_iff_eq.mp hlt))
  intro i row hrow
  have hi : i < t.base.size := (List.getElem?_eq_some_iff.mp hrow).1
  rw [← compareAt_of_getElem? hrow]
  by_cases hstart : start ≤ i
  · rw [and_iff_right hstart, lt_boundary_iff ?_ hstart hi, beq_iff_eq]
    -- From `start` on no row is below the key, so one that is not above it holds it.
    intro a b ha hab hb heq
    have hle : (t.compareAt key a).isLE = true :=
      hordered.compareAt_isLE hab hb (by rw [beq_iff_eq.mp heq]; rfl)
    have hnot : t.compareAt key a ≠ .lt := fun hlt =>
      Nat.not_lt.mpr ha ((hbelow (Nat.lt_of_le_of_lt hab hb)).mpr hlt)
    exact beq_iff_eq.mpr ((Ordering.isLE_iff_eq_lt_or_eq_eq.mp hle).resolve_left hnot)
  · refine iff_of_false (fun h => hstart h.1) fun heq => ?_
    rw [(hbelow hi).mp (by omega)] at heq
    exact absurd heq (by decide)

end SortedTable

end RelQuery
