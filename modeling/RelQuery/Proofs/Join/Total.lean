import RelQuery.Proofs.Join.Nested

/-!
# RelQuery.Proofs.Join.Total

**A join of rows that suit its inputs does not fail.**

The output columns of a join have the types of the input columns, and a side that can be padded
takes null everywhere. So two rows that suit the inputs can be combined, and a row that is kept can
be padded. If the condition is no function supplied by the caller, nothing else can fail: a matcher
is had from any stored right-hand side, and everything that is due with it is a row that suits the
output (`exists_due`). This does not ask for a declared order of the right-hand side to hold.
-/

namespace RelQuery

namespace Join

/-- What a planned join promises: columns for its output that take the values of both sides, and a
condition that always has an answer. -/
structure Total (j : Join) : Prop where
  /-- The output columns are those of the sides, nullable where a side can be padded. -/
  columns : ∃ shared, j.schema.columns =
    sideColumns j.left shared j.type.keepsRight ++ sideColumns j.right shared j.type.keepsLeft
  /-- The condition answers for any two rows. -/
  matched : ∀ left right, ∃ b, j.matched left right = .ok b
  /-- The columns of an equi-join have been found. -/
  resolved : ∀ k, j.keys? = some k → k.Resolved j.left j.right

variable {j : Join} {left right : Schema} {type : JoinType} {condition : JoinCondition}

/-! ### Planning -/

theorem mem_sharedNames_iff {name : String} :
    name ∈ sharedNames left right ↔ name ∈ left.names ∧ name ∈ right.names := by
  rw [sharedNames, List.mem_filter, List.contains_iff_mem, and_comm]

/-- The output columns are those of the two sides. -/
theorem columns_of_plan (hplan : plan left right type condition = .ok j) :
    j.schema.columns = sideColumns left (sharedNames left right) type.keepsRight ++
      sideColumns right (sharedNames left right) type.keepsLeft := by
  obtain ⟨-, -, -, -, hschema⟩ := plan_eq_ok hplan
  unfold outputSchema at hschema
  dsimp only at hschema
  split at hschema
  · simp at hschema
  · rw [Schema.ofColumns_eq_ok hschema]

theorem schema_of_plan (hplan : plan left right type condition = .ok j) :
    j.schema.names.Nodup ∧ ∃ shared, j.schema.columns =
      sideColumns left shared type.keepsRight ++ sideColumns right shared type.keepsLeft := by
  refine ⟨?_, _, columns_of_plan hplan⟩
  obtain ⟨-, -, -, -, hschema⟩ := plan_eq_ok hplan
  unfold outputSchema at hschema
  dsimp only at hschema
  split at hschema
  · simp at hschema
  · exact Schema.nodup_of_ofColumns hschema

/-- A planned join keeps its promises, if its condition is no function or one that always has an
answer. -/
theorem total_of_plan (hplan : plan left right type condition = .ok j)
    (hcondition : ∀ p, condition = .theta p → ∀ l r, ∃ b, p.test l r = .ok b) : j.Total := by
  obtain ⟨-, hcolumns⟩ := schema_of_plan hplan
  obtain ⟨rfl, rfl, rfl, hrule, -⟩ := plan_eq_ok hplan
  refine ⟨hcolumns, fun l r => ?_, fun k hkeys => resolved_of_plan hplan hkeys⟩
  cases condition with
  | cross =>
      refine ⟨true, ?_⟩
      simp only [Join.matched, ← Except.ok.inj hrule]
  | theta p =>
      obtain ⟨b, hb⟩ := hcondition p rfl l r
      refine ⟨b, ?_⟩
      simp only [Join.matched, ← Except.ok.inj hrule, hb]
  | equi pairs =>
      obtain ⟨k, -, hrule⟩ := bind_eq_ok_iff.mp hrule
      refine ⟨k.matched l r, ?_⟩
      simp only [Join.matched, ← pure_eq_ok_iff.mp hrule]

/-! ### Rows -/

/-- The output columns of a side take what the side takes. -/
theorem holds_sideColumns {side : Schema} (shared : List String) (padded : Bool) {vs : List Value}
    (h : side.Holds vs) : List.Forall₂ Column.Holds (sideColumns side shared padded) vs := by
  unfold sideColumns
  rw [List.forall₂_map_left_iff]
  refine List.Forall₂.imp (fun c v hv => ?_) h
  rw [Column.holds_iff] at hv ⊢
  exact hv.imp_left fun ⟨hnull, hnullable⟩ => ⟨hnull, by rw [hnullable, Bool.true_or]⟩

/-- The output columns of a side that can be padded take nulls. -/
theorem holds_sideColumns_nulls (side : Schema) (shared : List String) :
    List.Forall₂ Column.Holds (sideColumns side shared true) (Row.nulls side).values := by
  rw [Row.values_nulls, Schema.width]
  unfold sideColumns
  rw [List.forall₂_map_left_iff]
  induction side.columns with
  | nil => exact List.Forall₂.nil
  | cons c cs ih =>
      rw [List.length_cons, List.replicate_succ]
      exact List.Forall₂.cons (Column.holds_iff.mpr (Or.inl ⟨rfl, Bool.or_true _⟩)) ih

/-- Values that the output columns of both sides take make a row. -/
theorem exists_combine {l r : Row} {shared : List String}
    (hcolumns : j.schema.columns =
      sideColumns j.left shared j.type.keepsRight ++ sideColumns j.right shared j.type.keepsLeft)
    (hl : List.Forall₂ Column.Holds (sideColumns j.left shared j.type.keepsRight) l.values)
    (hr : List.Forall₂ Column.Holds (sideColumns j.right shared j.type.keepsLeft) r.values) :
    ∃ row, j.combine l r = .ok row ∧ row.Suits j.schema := by
  have hholds : j.schema.Holds (l.values ++ r.values) := by
    unfold Schema.Holds
    rw [hcolumns]
    exact List.rel_append hl hr
  have hrow := Row.ofValues_of_holds hholds
  exact ⟨_, hrow, Row.suits_of_ofValues hrow⟩

theorem Total.exists_combine (h : j.Total) {l r : Row} (hl : l.Suits j.left)
    (hr : r.Suits j.right) : ∃ row, j.combine l r = .ok row ∧ row.Suits j.schema := by
  obtain ⟨shared, hcolumns⟩ := h.columns
  exact Join.exists_combine hcolumns (holds_sideColumns shared _ hl.holds)
    (holds_sideColumns shared _ hr.holds)

/-- A left-hand row that is kept can be padded. -/
theorem Total.exists_padRight (h : j.Total) (hkeeps : j.type.keepsLeft = true) {l : Row}
    (hl : l.Suits j.left) : ∃ row, j.padRight l = .ok row ∧ row.Suits j.schema := by
  obtain ⟨shared, hcolumns⟩ := h.columns
  refine Join.exists_combine hcolumns (holds_sideColumns shared _ hl.holds) ?_
  rw [hkeeps]
  exact holds_sideColumns_nulls j.right shared

/-- A right-hand row that is kept can be padded. -/
theorem Total.exists_padLeft (h : j.Total) (hkeeps : j.type.keepsRight = true) {r : Row}
    (hr : r.Suits j.right) : ∃ row, j.padLeft r = .ok row ∧ row.Suits j.schema := by
  obtain ⟨shared, hcolumns⟩ := h.columns
  refine Join.exists_combine hcolumns ?_ (holds_sideColumns shared _ hr.holds)
  rw [hkeeps]
  exact holds_sideColumns_nulls j.left shared

end Join

namespace Matcher

variable {j : Join} {m : Matcher}

/-- The matcher has candidates for every left-hand row, and its rows suit the right-hand input. -/
structure Total (m : Matcher) (j : Join) : Prop where
  /-- There are candidates for every row, if only none. -/
  candidates : ∀ left, ∃ range, m.candidates left = .ok range
  /-- The rows suit the right-hand input. -/
  suits : ∀ right ∈ m.rows, right.Suits j.right

/-- A lookup by a probe made for the order of the table always has a range. -/
theorem exists_candidates (t : SortedTable) (k : JoinKeys) (left : Row) :
    ∃ range, (lookup t (probeFor t.keys k)).candidates left = .ok range := by
  simp only [candidates]
  split
  · exact ⟨_, rfl⟩
  · unfold SortedTable.lookup
    rw [if_neg (Nat.not_lt.mpr (length_probe_le t.keys k left))]
    exact ⟨_, rfl⟩

/-- Whatever the strategy, a stored right-hand side of rows that suit the join gets a matcher. -/
theorem exists_matcherFor_total (h : j.Total) (strategy : JoinStrategy) (verify : Bool)
    {r : Relation} {t : Table} (hstore : r.store = .ok t) (hfits : t.schema.fits j.right = true)
    (hrows : ∀ row ∈ t.rows, row.Suits j.right) :
    ∃ m, Operator.matcherFor j strategy verify r = .ok m ∧ m.Total j := by
  unfold Operator.matcherFor
  split
  · rename_i k hkeys
    obtain ⟨s, hsorted, -, -, hperm, -⟩ :=
      exists_sortedFor_of_store (h.resolved k hkeys) verify hstore hfits
    refine ⟨lookup s (probeFor s.keys k), ?_, exists_candidates s k, fun row hrow => ?_⟩
    · rw [ofLookup, hsorted]
      rfl
    · exact hrows row (hperm.mem_iff.mp hrow)
  · refine ⟨scan t, ?_, fun left => ⟨_, rfl⟩, hrows⟩
    rw [ofScan, hstore]
    rfl

theorem exists_accepts (h : j.Total) (m : Matcher) (left right : Row) :
    ∃ b, m.accepts j left right = .ok b := by
  unfold accepts
  split
  · exact ⟨true, rfl⟩
  · exact h.matched left right

end Matcher

namespace Join

variable {j : Join} {m : Matcher}

/-- What is due for a left-hand row are rows that suit the output. -/
theorem Total.leftDue (h : j.Total) (hm : m.Total j) {left : Row} (hleft : left.Suits j.left) :
    ∀ item ∈ j.leftDue m (.ok left), ∃ row, item = .ok row ∧ row.Suits j.schema := by
  obtain ⟨⟨start, stop⟩, hrange⟩ := hm.candidates left
  simp only [Join.leftDue, hrange]
  split
  · rename_i hpad
    obtain ⟨row, hrow, hsuits⟩ := h.exists_padRight (Bool.and_eq_true_iff.mp hpad).2 hleft
    intro item hitem
    exact ⟨row, (List.mem_singleton.mp hitem).trans hrow, hsuits⟩
  · intro item hitem
    obtain ⟨right, hright, hitem⟩ := List.mem_filterMap.mp hitem
    have hmem : right ∈ m.rows := List.mem_of_mem_drop (List.mem_of_mem_take hright)
    obtain ⟨b, haccepts⟩ := Matcher.exists_accepts h m left right
    simp only [pairDue, haccepts] at hitem
    cases b with
    | false => simp at hitem
    | true =>
        obtain ⟨row, hrow, hsuits⟩ := h.exists_combine hleft (hm.suits right hmem)
        exact ⟨row, (Option.some.inj hitem).symm.trans hrow, hsuits⟩

/-- So is what is due for the right-hand rows that have not been reached. -/
theorem Total.rightDue (h : j.Total) (hm : m.Total j) (reached : Row → Nat → Bool) :
    ∀ item ∈ j.rightDue m reached, ∃ row, item = .ok row ∧ row.Suits j.schema := by
  unfold Join.rightDue
  split
  · rename_i hkeeps
    intro item hitem
    obtain ⟨⟨right, i⟩, hmem, hitem⟩ := List.mem_filterMap.mp hitem
    dsimp only at hitem
    split at hitem
    · simp at hitem
    · obtain ⟨row, hrow, hsuits⟩ :=
        h.exists_padLeft hkeeps (hm.suits right (List.fst_mem_of_mem_zipIdx hmem))
      exact ⟨row, (Option.some.inj hitem).symm.trans hrow, hsuits⟩
  · simp

/-- **A join does not fail** over left-hand rows that suit it: everything that is due is a row that
suits the output. -/
theorem Total.exists_due (h : j.Total) (hm : m.Total j) {lefts : List Row}
    (hlefts : ∀ left ∈ lefts, left.Suits j.left) :
    ∃ rows : List Row, j.due m (lefts.map .ok) = rows.map .ok ∧
      ∀ row ∈ rows, row.Suits j.schema := by
  refine exists_rows_of_forall (List.forall_mem_append.mpr ⟨fun item hitem => ?_, ?_⟩)
  · obtain ⟨left, hleft, hitem⟩ := List.mem_flatMap.mp hitem
    obtain ⟨left, hmem, rfl⟩ := List.mem_map.mp hleft
    exact h.leftDue hm (hlefts left hmem) item hitem
  · exact h.rightDue hm _

end Join

end RelQuery
