import RelQuery.Pipeline.JoinCursor
import RelQuery.Proofs.Relation.Items
import RelQuery.Proofs.Relation.Lookup

/-!
# RelQuery.Proofs.Join.Due

**What a join yields**, said without a machine.

`Join.due` lists the items of a join over a whole left-hand side. For each left-hand item in order
come the matching pairs in the order of the right-hand positions, or the padded row if there are
none and it is to be kept; then come the right-hand rows that no left-hand row reaches, padded, if
those are to be kept. Where something fails its error stands in the list, and `untilError` cuts the
list behind the first one.
-/

namespace RelQuery

namespace Matcher

/-- The right-hand rows at the positions `start..stop`. -/
def slice (m : Matcher) (start stop : Nat) : List Row :=
  (m.rows.drop start).take (stop - start)

/-- Whether a left-hand item matches the right-hand row at a position: the position is a candidate
for it, and the row is accepted. -/
def reaches (m : Matcher) (j : Join) (right : Row) (i : Nat) : Item → Bool
  | .error _ => false
  | .ok left =>
    match m.candidates left with
    | .error _ => false
    | .ok (start, stop) => start ≤ i && i < stop && (m.accepts j left right).toOption == some true

/-- Candidates are positions of right-hand rows. -/
theorem candidates_le {m : Matcher} {left : Row} {start stop : Nat}
    (h : m.candidates left = .ok (start, stop)) : stop ≤ m.rows.length := by
  cases m with
  | scan t =>
      obtain ⟨-, rfl⟩ := Prod.mk.inj (Except.ok.inj h)
      exact Nat.le_refl _
  | lookup t probe =>
      simp only [candidates] at h
      split at h
      · obtain ⟨-, rfl⟩ := Prod.mk.inj (Except.ok.inj h)
        exact Nat.zero_le _
      · exact (SortedTable.lookup_le h).2

theorem slice_of_le {m : Matcher} {start stop : Nat} (h : ¬start < stop) :
    m.slice start stop = [] := by
  rw [slice, Nat.sub_eq_zero_of_le (Nat.not_lt.mp h), List.take_zero]

/-- The row at the first position of a range comes first. -/
theorem slice_of_lt {m : Matcher} {start stop : Nat} {right : Row}
    (hrow : m.rows[start]? = some right) (h : start < stop) :
    m.slice start stop = right :: m.slice (start + 1) stop := by
  obtain ⟨hlt, rfl⟩ := List.getElem?_eq_some_iff.mp hrow
  rw [slice, slice, List.drop_eq_getElem_cons hlt,
    show stop - start = (stop - (start + 1)) + 1 by omega, List.take_succ_cons]

end Matcher

namespace Join

/-- What is due for a candidate: nothing if it does not match. -/
def pairDue (j : Join) (m : Matcher) (left right : Row) : Option Item :=
  match m.accepts j left right with
  | .error e => some (.error e)
  | .ok true => some (j.combine left right)
  | .ok false => none

/-- What is due for the candidates of a left-hand row at the positions `start..stop`. -/
def pairsDue (j : Join) (m : Matcher) (left : Row) (start stop : Nat) : List Item :=
  (m.slice start stop).filterMap (j.pairDue m left)

/-- What is due for a left-hand item. -/
def leftDue (j : Join) (m : Matcher) : Item → List Item
  | .error e => [.error e]
  | .ok left =>
    match m.candidates left with
    | .error e => [.error e]
    | .ok (start, stop) =>
      let pairs := j.pairsDue m left start stop
      if pairs.isEmpty && j.type.keepsLeft then [j.padRight left] else pairs

/-- What is due for the right-hand rows that have not been reached. -/
def rightDue (j : Join) (m : Matcher) (reached : Row → Nat → Bool) : List Item :=
  if j.type.keepsRight then
    m.rows.zipIdx.filterMap fun (right, i) =>
      if reached right i then none else some (j.padLeft right)
  else []

/-- Everything that is due for a left-hand side. -/
def due (j : Join) (m : Matcher) (lefts : List Item) : List Item :=
  lefts.flatMap (j.leftDue m) ++ j.rightDue m fun right i => lefts.any (m.reaches j right i)

variable {j : Join} {m : Matcher}

/-- Only what is said about stored rows matters. -/
theorem rightDue_congr {f g : Row → Nat → Bool}
    (h : ∀ i right, m.rows[i]? = some right → f right i = g right i) :
    j.rightDue m f = j.rightDue m g := by
  unfold rightDue
  split
  · refine List.filterMap_congr ?_
    rintro ⟨right, i⟩ hmem
    simp only [h i right (List.mem_zipIdx_iff_getElem?.mp hmem)]
  · rfl

/-- An error on the left-hand side is due. -/
theorem error_mem_due {lefts : List Item} {e : Error} (h : .error e ∈ lefts) :
    .error e ∈ j.due m lefts :=
  List.mem_append_left _ (List.mem_flatMap.mpr ⟨.error e, h, List.mem_singleton.mpr rfl⟩)

/-- A row that is due for a left-hand item is a combination with that item's row. -/
theorem exists_combine_of_mem_leftDue {item : Item} {row : Row} (h : .ok row ∈ j.leftDue m item) :
    ∃ left right, item = .ok left ∧ j.combine left right = .ok row := by
  cases item with
  | error e => simp [leftDue] at h
  | ok left =>
      unfold leftDue at h
      dsimp only at h
      split at h
      · simp at h
      · split at h
        · exact ⟨left, _, rfl, (List.mem_singleton.mp h).symm⟩
        · obtain ⟨right, -, hdue⟩ := List.mem_filterMap.mp h
          unfold pairDue at hdue
          split at hdue
          · simp at hdue
          · exact ⟨left, right, rfl, Option.some.inj hdue⟩
          · simp at hdue

/-- Every row that is due is a combination of two rows, one of which may be nulls. -/
theorem exists_combine_of_mem_due {lefts : List Item} {row : Row} (h : .ok row ∈ j.due m lefts) :
    ∃ left right, j.combine left right = .ok row := by
  rcases List.mem_append.mp h with h | h
  · obtain ⟨item, -, h⟩ := List.mem_flatMap.mp h
    obtain ⟨left, right, -, hcombine⟩ := exists_combine_of_mem_leftDue h
    exact ⟨left, right, hcombine⟩
  · unfold rightDue at h
    split at h
    · obtain ⟨⟨right, i⟩, -, hdue⟩ := List.mem_filterMap.mp h
      dsimp only at hdue
      split at hdue
      · simp at hdue
      · exact ⟨_, right, Option.some.inj hdue⟩
    · simp at h

theorem pairsDue_of_le {left : Row} {start stop : Nat} (h : ¬start < stop) :
    j.pairsDue m left start stop = [] := by
  rw [pairsDue, Matcher.slice_of_le h, List.filterMap_nil]

/-- The first candidate comes first, if anything is due for it. -/
theorem pairsDue_of_lt {left right : Row} {start stop : Nat}
    (hrow : m.rows[start]? = some right) (h : start < stop) :
    j.pairsDue m left start stop =
      (j.pairDue m left right).toList ++ j.pairsDue m left (start + 1) stop := by
  rw [pairsDue, pairsDue, Matcher.slice_of_lt hrow h, List.filterMap_cons]
  cases j.pairDue m left right <;> rfl

end Join

end RelQuery
