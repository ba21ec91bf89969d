import RelQuery.Pipeline.Operator
import RelQuery.Proofs.Join.Due
import RelQuery.Proofs.Join.Keys

/-!
# RelQuery.Proofs.Join.Nested

**Every matcher computes the nested loop.**

`Join.nested` is the join of two lists of rows: every left-hand row is compared with every
right-hand row by the condition of the join. A matcher is `Faithful` if its candidates and what it
accepts of them say the same as the condition; then what is due with it is the nested loop over its
rows (`due_of_faithful`). A scan is faithful, and so is a lookup in a table whose order holds and
serves the join (`exists_matcherFor`). The nested loop does not depend on the order of either side,
except for the order of what it yields (`nested_perm`).
-/

namespace RelQuery

namespace Join

/-- What a pair of rows contributes: nothing if the rows do not match. -/
def pairItem (j : Join) (left right : Row) : Option Item :=
  match j.matched left right with
  | .error e => some (.error e)
  | .ok true => some (j.combine left right)
  | .ok false => none

/-- What a left-hand row contributes. -/
def nestedLeft (j : Join) (rights : List Row) (left : Row) : List Item :=
  let pairs := rights.filterMap (j.pairItem left)
  if pairs.isEmpty && j.type.keepsLeft then [j.padRight left] else pairs

/-- Whether some left-hand row matches a right-hand one. -/
def isMatched (j : Join) (lefts : List Row) (right : Row) : Bool :=
  lefts.any fun left => (j.matched left right).toOption == some true

/-- What the right-hand rows without a match contribute. -/
def nestedRight (j : Join) (lefts rights : List Row) : List Item :=
  if j.type.keepsRight then
    rights.filterMap fun right => if j.isMatched lefts right then none else some (j.padLeft right)
  else []

/-- The join of two lists of rows by a nested loop. -/
def nested (j : Join) (lefts rights : List Row) : List Item :=
  lefts.flatMap (j.nestedLeft rights) ++ j.nestedRight lefts rights

variable {j : Join}

/-! ### The order of the rows does not matter -/

theorem nestedLeft_perm {rights rights' : List Row} (h : rights.Perm rights') (left : Row) :
    (j.nestedLeft rights left).Perm (j.nestedLeft rights' left) := by
  have hpairs := h.filterMap (j.pairItem left)
  unfold nestedLeft
  simp only [hpairs.isEmpty_eq]
  split
  · exact List.Perm.refl _
  · exact hpairs

theorem isMatched_perm {lefts lefts' : List Row} (h : lefts.Perm lefts') (right : Row) :
    j.isMatched lefts right = j.isMatched lefts' right :=
  h.any_eq

theorem nestedRight_perm {lefts lefts' rights rights' : List Row} (hl : lefts.Perm lefts')
    (hr : rights.Perm rights') :
    (j.nestedRight lefts rights).Perm (j.nestedRight lefts' rights') := by
  unfold nestedRight
  split
  · simp only [isMatched_perm hl]
    exact hr.filterMap _
  · exact List.Perm.refl _

/-- Rows in another order give the same items in another order. -/
theorem nested_perm {lefts lefts' rights rights' : List Row} (hl : lefts.Perm lefts')
    (hr : rights.Perm rights') : (j.nested lefts rights).Perm (j.nested lefts' rights') :=
  (hl.flatMap fun left _ => nestedLeft_perm hr left).append (nestedRight_perm hl hr)

end Join

namespace Matcher

/-- What the matcher says of a pair of rows is what the condition of the join says: for a row that
is not a candidate, that it does not match. -/
def Faithful (m : Matcher) (j : Join) : Prop :=
  ∀ left, ∃ start stop, m.candidates left = .ok (start, stop) ∧
    ∀ i right, m.rows[i]? = some right →
      j.matched left right =
        if start ≤ i ∧ i < stop then m.accepts j left right else .ok false

/-- Where nothing is taken outside of a range, it is enough to look inside. -/
theorem filterMap_slice {α : Type} {f g : Row → Option α} : ∀ (rows : List Row) (start stop : Nat),
    (∀ i row, rows[i]? = some row → g row = if start ≤ i ∧ i < stop then f row else none) →
      ((rows.drop start).take (stop - start)).filterMap f = rows.filterMap g
  | [], start, stop, _ => by simp
  | row :: rows, 0, 0, h => by
      rw [Nat.sub_zero, List.take_zero, List.filterMap_nil, eq_comm, List.filterMap_eq_nil_iff]
      intro r hr
      obtain ⟨i, hi⟩ := List.getElem?_of_mem hr
      simpa using h i r hi
  | row :: rows, 0, stop + 1, h => by
      have hrow : g row = f row := by simpa using h 0 row rfl
      have ih := @filterMap_slice α f g rows 0 stop fun i r hi => by simpa using h (i + 1) r hi
      rw [Nat.sub_zero, List.drop_zero] at ih
      rw [Nat.sub_zero, List.drop_zero, List.take_succ_cons, List.filterMap_cons,
        List.filterMap_cons, hrow, ih]
  | row :: rows, start + 1, stop, h => by
      have hrow : g row = none := by simpa using h 0 row rfl
      have ih := @filterMap_slice α f g rows start (stop - 1) fun i r hi => by
          rw [h (i + 1) r hi]
          congr 1
          simp only [Nat.add_le_add_iff_right, Nat.lt_sub_iff_add_lt]
      rw [List.drop_succ_cons, List.filterMap_cons, hrow, ← ih]
      congr 2
      omega

variable {m : Matcher} {j : Join}

theorem Faithful.leftDue (h : m.Faithful j) (left : Row) :
    j.leftDue m (.ok left) = j.nestedLeft m.rows left := by
  obtain ⟨start, stop, hcandidates, hmatched⟩ := h left
  have hpairs : j.pairsDue m left start stop = m.rows.filterMap (j.pairItem left) := by
    refine filterMap_slice m.rows start stop fun i right hi => ?_
    rw [Join.pairItem, hmatched i right hi]
    by_cases hin : start ≤ i ∧ i < stop
    · rw [if_pos hin, if_pos hin]
      rfl
    · rw [if_neg hin, if_neg hin]
  simp only [Join.leftDue, hcandidates, hpairs, Join.nestedLeft]

/-- A row that an inner join yields with a faithful matcher combines two rows that match. -/
theorem Faithful.exists_matched (h : m.Faithful j) (hinner : j.type = .inner) {lefts : List Item}
    {row : Row} (hrow : .ok row ∈ j.due m lefts) :
    ∃ left right, .ok left ∈ lefts ∧ j.matched left right = .ok true ∧
      j.combine left right = .ok row := by
  rcases List.mem_append.mp hrow with hrow | hrow
  · obtain ⟨item, hitem, hrow⟩ := List.mem_flatMap.mp hrow
    obtain ⟨left, -, rfl, -⟩ := Join.exists_combine_of_mem_leftDue hrow
    rw [h.leftDue, Join.nestedLeft, hinner] at hrow
    simp only [JoinType.keepsLeft, Bool.and_false, Bool.false_eq_true, if_false] at hrow
    obtain ⟨right, -, hpair⟩ := List.mem_filterMap.mp hrow
    unfold Join.pairItem at hpair
    split at hpair
    · simp at hpair
    · rename_i hmatched
      exact ⟨left, right, hitem, hmatched, Option.some.inj hpair⟩
    · simp at hpair
  · simp [Join.rightDue, hinner, JoinType.keepsRight] at hrow

theorem Faithful.reaches (h : m.Faithful j) {i : Nat} {right : Row}
    (hi : m.rows[i]? = some right) (left : Row) :
    m.reaches j right i (.ok left) = ((j.matched left right).toOption == some true) := by
  obtain ⟨start, stop, hcandidates, hmatched⟩ := h left
  simp only [Matcher.reaches, hcandidates, hmatched i right hi]
  split
  · rename_i hin
    simp [hin]
  · rename_i hout
    simp [hout, Except.toOption]

/-- With a faithful matcher the nested loop is due. -/
theorem due_of_faithful (h : m.Faithful j) (lefts : List Row) :
    j.due m (lefts.map .ok) = j.nested lefts m.rows := by
  have hleft : (lefts.map .ok).flatMap (j.leftDue m) = lefts.flatMap (j.nestedLeft m.rows) := by
    rw [List.flatMap_map]
    exact List.flatMap_congr fun left _ => h.leftDue left
  have hright : (j.rightDue m fun right i => (lefts.map .ok).any (m.reaches j right i)) =
      j.nestedRight lefts m.rows := by
    rw [@Join.rightDue_congr j m _ (fun right _ => j.isMatched lefts right) fun i right hi => ?_]
    · unfold Join.rightDue Join.nestedRight
      rw [← List.zipIdx_map_fst 0 m.rows, List.filterMap_map]
      simp only [List.zipIdx_map_fst]
      rfl
    · rw [List.any_map]
      exact congrArg lefts.any (funext fun left => h.reaches hi left)
  rw [Join.due, hleft, hright, Join.nested]

/-! ### Faithful matchers -/

/-- A scan compares every row. -/
theorem faithful_scan (t : Table) (j : Join) : (scan t).Faithful j := by
  intro left
  refine ⟨0, t.size, rfl, fun i right hi => ?_⟩
  have hlt : i < t.size := (List.getElem?_eq_some_iff.mp hi).1
  rw [if_pos ⟨Nat.zero_le i, hlt⟩]
  rfl

/-- A probe is not longer than the order it is looked up in. -/
theorem length_probe_le (sortKeys : List SortKey) (k : JoinKeys) (left : Row) :
    (left.pick (probeFor sortKeys k)).length ≤ sortKeys.length := by
  rw [Row.pick, List.length_map]
  exact Nat.le_trans (List.length_filterMap_le _ _) (List.length_take_le' _ _)

/-- A lookup finds the positions of the matching rows, if the order of the table holds and serves
the join. -/
theorem candidates_lookup {t : SortedTable} {k : JoinKeys} {left right : Schema}
    (hresolved : k.Resolved left right) (hfits : t.base.schema.fits right = true)
    (hserves : k.Serves t.keys) (hordered : t.Ordered) (l : Row) :
    ∃ start stop, (lookup t (probeFor t.keys k)).candidates l = .ok (start, stop) ∧
      ∀ i r, t.base.rows[i]? = some r → (start ≤ i ∧ i < stop ↔ k.matched l r = true) := by
  have horder := (RowOrder.resolve_eq_ok t.resolved).imp
    fun _ _ h => (Schema.require_of_fits hfits).mp h
  cases hnull : (l.pick (probeFor t.keys k)).any Value.isNull with
  | true =>
      refine ⟨0, 0, by simp only [candidates, hnull, if_true], fun i r _ => ?_⟩
      rw [hresolved.not_matched_of_null hserves hnull]
      exact iff_of_false (by omega) (by simp)
  | false =>
      obtain ⟨start, stop, hlookup, hexact⟩ :=
        SortedTable.lookup_exact hordered (length_probe_le t.keys k l)
      refine ⟨start, stop, ?_, fun i r hi => ?_⟩
      · simp only [candidates, hnull, Bool.false_eq_true, if_false, hlookup]
      · rw [hexact i r hi, hresolved.compareKey_probe_iff hserves horder hnull]

/-- So it is faithful to an equi-join. -/
theorem faithful_lookup {t : SortedTable} {k : JoinKeys} (hkeys : j.keys? = some k)
    (hresolved : k.Resolved j.left j.right) (hfits : t.base.schema.fits j.right = true)
    (hserves : k.Serves t.keys) (hordered : t.Ordered) :
    (lookup t (probeFor t.keys k)).Faithful j := by
  have hrule : j.rule = .equi k := by
    unfold Join.keys? at hkeys
    split at hkeys
    · rename_i k' hrule
      rw [hrule, Option.some.inj hkeys]
    · simp at hkeys
  intro left
  obtain ⟨start, stop, hcandidates, hexact⟩ :=
    candidates_lookup hresolved hfits hserves hordered left
  refine ⟨start, stop, hcandidates, fun i right hi => ?_⟩
  simp only [Join.matched, hrule, hexact i right hi, accepts, isExact, if_true]
  cases k.matched left right <;> rfl

end Matcher

/-- A relation that yields these rows without an error, that can stand where rows of the schema are
expected, and whose declared order, if it has one, holds or is verified. -/
structure Relation.Delivers (r : Relation) (verify : Bool) (schema : Schema)
    (rows : List Row) : Prop where
  /-- A pass over the relation yields the rows. -/
  rows_eq : Stream.gather r.items = .ok rows
  fits : r.schema.fits schema = true
  /-- The rows fit the relation. -/
  rows_fit : ∀ row ∈ rows, row.schema.fits r.schema = true
  /-- A declared order holds or is verified. -/
  trusted : ∀ t, r = .sorted t → verify = true ∨ t.Ordered

/-- A relation that is looked up as it is, because of the order it is declared in, is in that
order. -/
def Matcher.Trustworthy (k : JoinKeys) (verify : Bool) (r : Relation) : Prop :=
  ∀ t, reusable? k verify r = some t → t.Ordered

/-- The join can trust its right-hand side, if it looks rows up in it. -/
def Join.Trusts (j : Join) (strategy : JoinStrategy) (verify : Bool) (r : Relation) : Prop :=
  ∀ k, j.keys? = some k → strategy = .sortedLookup → Matcher.Trustworthy k verify r

namespace Matcher

variable {j : Join}

/-- A reused right-hand side is the given one, and its order serves the join. -/
theorem reusable?_eq_some {k : JoinKeys} {verify : Bool} {r : Relation} {t : SortedTable}
    (h : reusable? k verify r = some t) :
    r = .sorted t ∧ k.Serves t.keys ∧ (verify = true → t.Ordered) := by
  unfold reusable? at h
  split at h
  · split at h
    · rename_i hcovers
      obtain rfl := Option.some.inj h
      obtain ⟨hcovers, hverified⟩ := Bool.and_eq_true_iff.mp hcovers
      refine ⟨rfl, JoinKeys.serves_of_covers hcovers, ?_⟩
      rintro rfl
      exact SortedTable.isOrdered_iff.mp (by simpa using hverified)
    · simp at h
  · simp at h

/-- It is enough that a declared order holds or is verified. -/
theorem trustworthy_of_declared {k : JoinKeys} {verify : Bool} {r : Relation}
    (h : ∀ t, r = .sorted t → verify = true ∨ t.Ordered) : Trustworthy k verify r := by
  intro t hreuse
  obtain ⟨hr, -, hverified⟩ := reusable?_eq_some hreuse
  exact (h t hr).elim hverified id

/-- The right-hand side of an equi-join can be had in an order that serves the join. The order
holds, unless it is one that is declared and believed. -/
theorem exists_sortedFor_of_store {k : JoinKeys} {left right : Schema}
    (hresolved : k.Resolved left right) (verify : Bool) {r : Relation} {t : Table}
    (hstore : r.store = .ok t) (hfits : t.schema.fits right = true) :
    ∃ s, sortedFor r k verify = .ok s ∧ k.Serves s.keys ∧ s.base.schema.fits right = true ∧
      s.base.rows.Perm t.rows ∧ (Trustworthy k verify r → s.Ordered) := by
  unfold sortedFor
  cases hreuse : reusable? k verify r with
  | some s =>
      obtain ⟨rfl, hserves, -⟩ := reusable?_eq_some hreuse
      obtain rfl := Except.ok.inj hstore
      exact ⟨s, rfl, hserves, hfits, List.Perm.refl _, fun htrust => htrust s hreuse⟩
  | none =>
      obtain ⟨order, horder⟩ := hresolved.exists_resolve hfits
      obtain ⟨s, hsort⟩ := SortedTable.exists_sort_eq_ok horder
      obtain ⟨hbase, hkeys, hordered⟩ := SortedTable.sort_eq_ok hsort
      refine ⟨s, ?_, hkeys ▸ JoinKeys.serves_ascending k, hbase ▸ hfits, ?_, fun _ => hordered⟩
      · simp only [hstore]
        exact hsort
      · rw [hbase]
        exact List.mergeSort_perm t.rows _

/-- Whatever the strategy, the right-hand side of a join that can trust it gets a faithful matcher
over its rows. -/
theorem exists_matcherFor_of_store {strategy : JoinStrategy} {verify : Bool} {r : Relation}
    {t : Table} (hresolved : ∀ k, j.keys? = some k → k.Resolved j.left j.right)
    (htrust : j.Trusts strategy verify r) (hstore : r.store = .ok t)
    (hfits : t.schema.fits j.right = true) :
    ∃ m, Operator.matcherFor j strategy verify r = .ok m ∧ m.Faithful j ∧ m.rows.Perm t.rows := by
  unfold Operator.matcherFor
  split
  · rename_i k hkeys
    obtain ⟨s, hsorted, hserves, hfits, hperm, hordered⟩ :=
      exists_sortedFor_of_store (hresolved k hkeys) verify hstore hfits
    refine ⟨lookup s (probeFor s.keys k), ?_, ?_, hperm⟩
    · rw [ofLookup, hsorted]
      rfl
    · exact faithful_lookup hkeys (hresolved k hkeys) hfits hserves (hordered (htrust k hkeys rfl))
  · refine ⟨scan t, ?_, faithful_scan t j, List.Perm.refl _⟩
    rw [ofScan, hstore]
    rfl

theorem exists_matcherFor (strategy : JoinStrategy) {verify : Bool} {r : Relation}
    {rows : List Row} (hresolved : ∀ k, j.keys? = some k → k.Resolved j.left j.right)
    (h : r.Delivers verify j.right rows) :
    ∃ m, Operator.matcherFor j strategy verify r = .ok m ∧ m.Faithful j ∧ m.rows.Perm rows := by
  obtain ⟨t, hstore, rfl, hschema⟩ := exists_store h.rows_eq h.rows_fit
  exact exists_matcherFor_of_store hresolved
    (fun k _ _ => trustworthy_of_declared h.trusted) hstore (hschema ▸ h.fits)

/-- A nested loop scans. -/
theorem matcherFor_nestedLoop (j : Join) (verify : Bool) (r : Relation) :
    Operator.matcherFor j .nestedLoop verify r = ofScan r := by
  unfold Operator.matcherFor
  cases j.keys? <;> rfl

/-- A lookup needs a stored right-hand side. What is stored already is not read again. -/
theorem ofLookup_of_store {k : JoinKeys} {verify : Bool} {r : Relation} {e : Error}
    (hstore : r.store = .error e) : ofLookup r k verify = .error e := by
  cases r with
  | stream s =>
      rw [ofLookup, sortedFor, show reusable? k verify (.stream s) = none from rfl]
      exact bind_eq_error_iff.mpr (Or.inl (bind_eq_error_iff.mpr (Or.inl hstore)))
  | table t => simp [Relation.store] at hstore
  | sorted t => simp [Relation.store] at hstore

/-- Whatever the strategy, a right-hand side that cannot be stored has no matcher. -/
theorem matcherFor_of_store {strategy : JoinStrategy} {verify : Bool} {r : Relation} {e : Error}
    (hstore : r.store = .error e) : Operator.matcherFor j strategy verify r = .error e := by
  unfold Operator.matcherFor
  split
  · exact ofLookup_of_store hstore
  · rw [ofScan, hstore]
    rfl

theorem exists_store_of_matcherFor {strategy : JoinStrategy} {verify : Bool} {r : Relation}
    {m : Matcher} (hm : Operator.matcherFor j strategy verify r = .ok m) :
    ∃ t, r.store = .ok t := by
  cases hstore : r.store with
  | ok t => exact ⟨t, rfl⟩
  | error e =>
      rw [matcherFor_of_store hstore] at hm
      simp at hm

/-- The matcher that a join has got is faithful, unless it believes a declared order that does not
hold. -/
theorem faithful_of_matcherFor {strategy : JoinStrategy} {verify : Bool} {r : Relation}
    {m : Matcher} (hresolved : ∀ k, j.keys? = some k → k.Resolved j.left j.right)
    (hfits : r.schema.fits j.right = true)
    (htrust : strategy = .nestedLoop ∨ verify = true ∨ ∀ t, r = .sorted t → t.Ordered)
    (hm : Operator.matcherFor j strategy verify r = .ok m) : m.Faithful j := by
  obtain ⟨t, hstore⟩ := exists_store_of_matcherFor hm
  have htrust : j.Trusts strategy verify r := by
    intro k _ hlookup
    rcases htrust with rfl | htrust
    · cases hlookup
    · exact trustworthy_of_declared fun s hs => htrust.imp_right fun hordered => hordered s hs
  obtain ⟨m', hm', hfaithful, -⟩ :=
    exists_matcherFor_of_store hresolved htrust hstore (schema_of_store hstore ▸ hfits)
  obtain rfl := Except.ok.inj (hm.symm.trans hm')
  exact hfaithful

end Matcher

end RelQuery
