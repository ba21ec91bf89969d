import RelQuery.Algebra.Grouping
import RelQuery.Proofs.Accumulator
import RelQuery.Proofs.Relation.Items
import RelQuery.Proofs.Repetitions
import RelQuery.Proofs.Value.Order

/-!
# RelQuery.Proofs.Grouping.GroupBy

**What a grouping yields**, said without an arena.

The rows of an input fall into groups by their keys. For each key that occurs, in the order of first
occurrences, `Grouping.groupRow` gives the values of the key followed by the result of every
aggregate over the rows of the group, in their order. `Grouping.firstFailure` is the error that ends
a pass over the input: an item that is one, or the first aggregate that cannot take up a row.

Keys are compared as tuples of values, which is an equivalence that the hash respects
(`EquivBEq GroupKey`, `LawfulHashable GroupKey`).
-/

namespace RelQuery

instance : EquivBEq GroupKey where
  rfl := Value.sameAll_refl _
  symm := fun {a b} h => (Value.sameAll_comm b.values a.values).trans h
  trans := Value.sameAll_trans

instance : LawfulHashable GroupKey where
  hash_eq := fun a b h =>
    show hash (a.values.map Value.hashInput) = hash (b.values.map Value.hashInput) from
      congrArg hash (Value.map_hashInput_eq_of_sameAll h)

namespace Grouping

/-- Each aggregate with the position that it reads. -/
def columns (g : Grouping) : List (Aggregate × Option Nat) :=
  g.aggregates.zip g.inputPositions

/-- The accumulator of an aggregate that was fresh and has been fed some rows in order. -/
def accumulate (g : Grouping) (rows : List Row) (column : Aggregate × Option Nat) :
    Except Error Accumulator := do
  let fresh ← Accumulator.fresh column.1.kind (column.1.input.getD "*")
    ((column.2.bind g.source.column?).map Column.type)
  rows.foldlM (fun a row => a.feed column.2 row) fresh

/-- The accumulators of all aggregates, in their order, over some rows. -/
def accumulators (g : Grouping) (rows : List Row) : Except Error (List Accumulator) :=
  g.columns.mapM (g.accumulate rows)

/-- The rows with a key, in their order. -/
def members (g : Grouping) (rows : List Row) (key : GroupKey) : List Row :=
  rows.filter fun row => g.keyOf row == key

/-- The keys that occur, in the order of their first occurrences and as they stand there. -/
def keysOf (g : Grouping) (rows : List Row) : List GroupKey :=
  (rows.map g.keyOf).eraseDups

/-- The keys of the groups: those that occur, and without grouping columns one even if there are no
rows. -/
def groupKeys (g : Grouping) (rows : List Row) : List GroupKey :=
  if g.keys.isEmpty && rows.isEmpty then [⟨[]⟩] else g.keysOf rows

/-- The values of the output row of a group. -/
def groupRow (g : Grouping) (rows : List Row) (key : GroupKey) : Except Error (List Value) := do
  let accumulators ← g.accumulators (g.members rows key)
  return key.values ++ accumulators.map Accumulator.result

/-- The error that the aggregates raise at a row that follows some others: that of the first one
that cannot take it up. -/
def failureAt (g : Grouping) (earlier : List Row) (row : Row) : Option Error :=
  match g.accumulators (g.members (earlier ++ [row]) (g.keyOf row)) with
  | .error e => some e
  | .ok _ => none

/-- The first error of a pass over the input that follows some rows. -/
def firstFailure (g : Grouping) (earlier : List Row) : List Item → Option Error
  | [] => none
  | .error e :: _ => some e
  | .ok row :: items =>
    match g.failureAt earlier row with
    | some e => some e
    | none => g.firstFailure (earlier ++ [row]) items

/-- Accumulators that have each been fed a row, of which they read these positions. -/
def feedAll (row : Row) (block : List Accumulator) (positions : List (Option Nat)) :
    Except Error (List Accumulator) :=
  (block.zip positions).mapM fun p => p.1.feed p.2 row

variable {g : Grouping} {rows : List Row} {row : Row} {key : GroupKey}

/-! ### Keys and members -/

/-- A further row brings a new key if no row before it had that key. -/
theorem keysOf_append : g.keysOf (rows ++ [row]) =
    if (g.keysOf rows).any (· == g.keyOf row) then g.keysOf rows
    else g.keysOf rows ++ [g.keyOf row] := by
  unfold keysOf
  rw [List.map_append, List.map_singleton, eraseDups_append_singleton, any_eraseDups]

/-- The keys are different. -/
theorem pairwise_keysOf : (g.keysOf rows).Pairwise fun a b => (a == b) = false :=
  pairwise_eraseDups _

/-- A key occurs if some row has it. -/
theorem any_keysOf : (g.keysOf rows).any (· == key) = rows.any fun row => g.keyOf row == key := by
  rw [keysOf, any_eraseDups, List.any_map]
  rfl

theorem mem_of_mem_members (h : row ∈ g.members rows key) : row ∈ rows :=
  (List.mem_filter.mp h).1

theorem members_append_of_beq (h : (g.keyOf row == key) = true) :
    g.members (rows ++ [row]) key = g.members rows key ++ [row] := by
  rw [members, List.filter_append, List.filter_singleton, h]
  rfl

theorem members_append_of_not_beq (h : (g.keyOf row == key) = false) :
    g.members (rows ++ [row]) key = g.members rows key := by
  rw [members, List.filter_append, List.filter_singleton, h]
  exact List.append_nil _

theorem members_eq_nil (h : (g.keysOf rows).any (· == key) = false) : g.members rows key = [] := by
  rw [any_keysOf, List.any_eq_false] at h
  exact List.filter_eq_nil_iff.mpr h

/-- Equal keys have the same rows. -/
theorem members_congr {key' : GroupKey} (h : (key == key') = true) :
    g.members rows key = g.members rows key' := by
  unfold members
  congr 1
  funext row
  exact BEq.congr_right h

/-! ### Accumulators -/

theorem accumulate_append {column : Aggregate × Option Nat} :
    g.accumulate (rows ++ [row]) column =
      (g.accumulate rows column >>= fun a => a.feed column.2 row) := by
  unfold accumulate
  simp only [List.foldlM_append, List.foldlM_cons, List.foldlM_nil, bind_pure, bind_assoc]

theorem accumulators_nil : g.accumulators [] = g.freshAccumulators := by
  unfold accumulators freshAccumulators columns
  congr 1
  funext column
  simp only [accumulate, List.foldlM_nil, bind_pure]

/-- The accumulators over one row more are the old ones, each fed with the row. -/
theorem accumulators_append {block : List Accumulator} (h : g.accumulators rows = .ok block) :
    g.accumulators (rows ++ [row]) = feedAll row block (g.columns.map Prod.snd) := by
  unfold accumulators at h
  unfold accumulators feedAll
  rw [mapM_eq_ok_iff] at h
  generalize g.columns = columns at h ⊢
  induction h with
  | nil => rfl
  | cons hcolumn _ ih =>
      rw [List.mapM_cons, ih, accumulate_append, hcolumn, List.map_cons, List.zip_cons_cons,
        List.mapM_cons]
      rfl

theorem length_of_accumulators {block : List Accumulator} (h : g.accumulators rows = .ok block) :
    block.length = g.columns.length :=
  (List.Forall₂.length_eq (mapM_eq_ok_iff.mp h)).symm

/-! ### Failures -/

/-- The first failure over rows is that of a group, over its members up to some row. -/
theorem exists_of_firstFailure {e : Error} : ∀ {rows earlier : List Row},
    g.firstFailure earlier (rows.map .ok) = some e →
      ∃ key first, first <+: rows ∧ g.accumulators (g.members (earlier ++ first) key) = .error e
  | [], _, h => by simp [firstFailure] at h
  | row :: rows, earlier, h => by
      rw [List.map_cons, firstFailure] at h
      split at h
      · rename_i e' hfailure
        obtain rfl := Option.some.inj h
        unfold failureAt at hfailure
        split at hfailure
        · rename_i e'' haccumulators
          obtain rfl := Option.some.inj hfailure
          exact ⟨g.keyOf row, [row], ⟨rows, rfl⟩, haccumulators⟩
        · simp at hfailure
      · obtain ⟨key, first, hfirst, haccumulators⟩ := exists_of_firstFailure h
        rw [List.append_assoc] at haccumulators
        exact ⟨key, row :: first, List.cons_prefix_cons.mpr ⟨rfl, hfirst⟩, haccumulators⟩

/-- Without a failure every group takes up its members, up to every row. -/
theorem exists_accumulators_of_firstFailure : ∀ {rows earlier : List Row},
    (∀ key, ∃ block, g.accumulators (g.members earlier key) = .ok block) →
      g.firstFailure earlier (rows.map .ok) = none → ∀ {first : List Row}, first <+: rows →
        ∀ key, ∃ block, g.accumulators (g.members (earlier ++ first) key) = .ok block
  | rows, earlier, hearlier, _, [], _, key => by
      rw [List.append_nil]
      exact hearlier key
  | [], _, _, _, _ :: _, hfirst, _ => absurd (List.prefix_nil.mp hfirst) (by simp)
  | row :: rows, earlier, hearlier, h, row' :: first, hfirst, key => by
      obtain ⟨rfl, hrest⟩ := List.cons_prefix_cons.mp hfirst
      rw [List.map_cons, firstFailure] at h
      split at h
      · simp at h
      · rename_i hfailure
        rw [List.append_cons]
        refine exists_accumulators_of_firstFailure (fun key => ?_) h hrest key
        -- Only the group of the row has a new member.
        cases hkey : g.keyOf row' == key with
        | false =>
            rw [members_append_of_not_beq hkey]
            exact hearlier key
        | true =>
            rw [← members_congr hkey]
            unfold failureAt at hfailure
            split at hfailure
            · simp at hfailure
            · exact ⟨_, ‹_›⟩

end Grouping

end RelQuery
