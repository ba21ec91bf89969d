import RelQuery.Proofs.Join.Due

/-!
# RelQuery.Proofs.Join.Cursor

**The join machine yields what is due**, item by item.

The invariant is a list: `JoinCursor.pending` says, for every phase, what is still to come. One move
takes from its front exactly the item that it emits (`accounts_step`), and a move that finishes
leaves the machine where it will never emit again. From that one lemma follow `accounts_next`, for a
pull that makes as many moves as it needs, by induction on the work that is left, and the two runs:
a join that is drained and one that is pulled any number of times.
-/

namespace RelQuery

/-- The items that a move brings: one or none. -/
def JoinMove.items : JoinMove → List Item
  | .emit item => [item]
  | .quiet => []
  | .finished => []

namespace JoinCursor

/-! ### What is still to come -/

/-- What is due for a left-hand row from the candidates `next..stop`, when `found` tells whether an
earlier candidate has matched. -/
def searchDue (j : Join) (m : Matcher) (left : Row) (next stop : Nat) (found : Bool) : List Item :=
  let pairs := j.pairsDue m left next stop
  if pairs.isEmpty && !found && j.type.keepsLeft then [j.padRight left] else pairs

/-- What is due for the right-hand rows from a position on that have not been matched. -/
def sweepDue (j : Join) (m : Matcher) (matched : List Nat) (next : Nat) : List Item :=
  (m.rows.zipIdx.drop next).filterMap fun (right, i) =>
    if matched.contains i then none else some (j.padLeft right)

/-- Whether a right-hand row has been matched, or will be by a left-hand item to come. -/
def reached (c : JoinCursor) (right : Row) (i : Nat) : Bool :=
  c.matched.contains i || c.lefts.any (c.matcher.reaches c.join right i)

/-- The same, when a left-hand row still has to be compared with the candidates `next..stop`. -/
def reachedFrom (c : JoinCursor) (left : Row) (next stop : Nat) (right : Row) (i : Nat) : Bool :=
  c.reached right i ||
    (next ≤ i && i < stop && (c.matcher.accepts c.join left right).toOption == some true)

/-- Everything that is still due, were it not for errors. -/
def pending (c : JoinCursor) : List Item :=
  match c.phase with
  | .advancing =>
      c.lefts.flatMap (c.join.leftDue c.matcher) ++ c.join.rightDue c.matcher c.reached
  | .searching left next stop found =>
      searchDue c.join c.matcher left next stop found ++
        (c.lefts.flatMap (c.join.leftDue c.matcher) ++
          c.join.rightDue c.matcher (c.reachedFrom left next stop))
  | .unmatched next => sweepDue c.join c.matcher c.matched next
  | .done => []

/-- The positions that are being searched are positions of right-hand rows. -/
def Fits (c : JoinCursor) : Prop :=
  match c.phase with
  | .searching _ _ stop _ => stop ≤ c.matcher.rows.length
  | _ => True

/-- What one move is to do: take the items that it brings from the front of what is due, finish
only where nothing is due any more, and leave a cursor that fits. -/
structure Accounts (c : JoinCursor) (move : JoinMove × JoinCursor) : Prop where
  /-- What is due begins with the items of the move. -/
  pending : untilError c.pending = move.1.items ++ untilError move.2.pending
  /-- A move that finishes has ended the join. -/
  finished : move.1 = .finished → move.2.phase = .done
  /-- The cursor that is left fits. -/
  fits : move.2.Fits

variable {c : JoinCursor} {j : Join} {m : Matcher}

theorem pending_of_done (h : c.phase = .done) : c.pending = [] := by
  simp only [pending, h]

/-- The right-hand row at the first position comes first, unless it has been matched. -/
theorem sweepDue_of_lt {matched : List Nat} {next : Nat} {right : Row}
    (hrow : m.rows[next]? = some right) :
    sweepDue j m matched next =
      (if matched.contains next then [] else [j.padLeft right]) ++
        sweepDue j m matched (next + 1) := by
  obtain ⟨hlt, rfl⟩ := List.getElem?_eq_some_iff.mp hrow
  unfold sweepDue
  rw [List.drop_eq_getElem_cons (by simpa using hlt), List.filterMap_cons, List.getElem_zipIdx,
    Nat.zero_add]
  dsimp only
  cases matched.contains next <;> rfl

theorem sweepDue_of_le {matched : List Nat} {next : Nat} (h : m.rows[next]? = none) :
    sweepDue j m matched next = [] := by
  have hle : m.rows.length ≤ next := List.getElem?_eq_none_iff.mp h
  rw [sweepDue, List.drop_eq_nil_of_le (by simpa using hle), List.filterMap_nil]

/-! ### One move -/

/-- An error that is due may be emitted, whatever is due behind it. -/
theorem accounts_fail {d : JoinCursor} {e : Error} (h : untilError c.pending = [.error e]) :
    Accounts c (d.fail e) where
  pending := h
  finished := by simp [fail]
  fits := trivial

/-- A row that is due may be emitted, if the cursor goes on with what is due behind it. -/
theorem accounts_emitRow {d : JoinCursor} {row : Item}
    (h : c.pending = row :: d.pending) (hfits : d.Fits) : Accounts c (d.emitRow row) := by
  cases row with
  | error e =>
      refine accounts_fail ?_
      rw [h, untilError]
  | ok row =>
      refine ⟨?_, by simp [emitRow], hfits⟩
      rw [h]
      rfl

/-- A quiet move leaves what is due as it is. -/
theorem accounts_quiet {d : JoinCursor} (h : c.pending = d.pending) (hfits : d.Fits) :
    Accounts c (.quiet, d) :=
  ⟨by rw [h]; rfl, by simp, hfits⟩

/-- The last move is made where nothing is due. -/
theorem accounts_finished {d : JoinCursor} (h : c.pending = []) (hdone : d.phase = .done) :
    Accounts c (.finished, d) := by
  refine ⟨?_, fun _ => hdone, by simp only [Fits, hdone]⟩
  rw [h, pending_of_done hdone]
  rfl

theorem accounts_advance (h : c.phase = .advancing) : Accounts c c.advance := by
  obtain ⟨j, m, lefts, matched, phase⟩ := c
  obtain rfl : phase = .advancing := h
  cases lefts with
  | nil =>
      simp only [advance]
      split
      · rename_i hkeeps
        refine accounts_quiet ?_ trivial
        simp [JoinCursor.pending, Join.rightDue, sweepDue, reached, hkeeps]
      · rename_i hkeeps
        refine accounts_finished ?_ rfl
        simp [JoinCursor.pending, Join.rightDue, hkeeps]
  | cons item lefts =>
      cases item with
      | error e => exact accounts_fail rfl
      | ok left =>
          simp only [advance]
          split
          · rename_i e hcandidates
            refine accounts_fail ?_
            simp only [JoinCursor.pending, List.flatMap_cons, Join.leftDue, hcandidates,
              List.cons_append, untilError]
          · rename_i start stop hcandidates
            refine accounts_quiet ?_ (Matcher.candidates_le hcandidates)
            have hleft : j.leftDue m (.ok left) = searchDue j m left start stop false := by
              simp only [Join.leftDue, hcandidates, searchDue, Bool.not_false, Bool.and_true]
            simp only [JoinCursor.pending, List.flatMap_cons, hleft, List.append_assoc]
            congr 2
            refine Join.rightDue_congr fun i right _ => ?_
            simp only [reachedFrom, reached, List.any_cons, Matcher.reaches, hcandidates]
            rw [Bool.or_assoc, Bool.or_comm (lefts.any _)]

/-- While a candidate is left, the row at its position is compared. -/
theorem accounts_compare {left : Row} {next stop : Nat} {found : Bool}
    (h : c.phase = .searching left next stop found) (hfits : c.Fits) (hlt : next < stop) :
    Accounts c (c.search left next stop found) := by
  obtain ⟨j, m, lefts, matched, phase⟩ := c
  obtain rfl : phase = .searching left next stop found := h
  have hfits : stop ≤ m.rows.length := hfits
  have hrow : m.rows[next]? = some (m.rows[next]?.getD default) := by
    rw [List.getElem?_eq_getElem (Nat.lt_of_lt_of_le hlt hfits)]
    rfl
  rw [search, if_pos hlt]
  generalize m.rows[next]?.getD default = right at hrow ⊢
  have hpairs : j.pairsDue m left next stop = _ := Join.pairsDue_of_lt hrow hlt
  simp only [Join.pairDue] at hpairs
  -- Only at the position itself does it matter whether it still counts as a candidate.
  have hother : ∀ {i}, i ≠ next → (next ≤ i ↔ next + 1 ≤ i) := by omega
  dsimp only
  split
  · rename_i e haccepts
    refine accounts_fail ?_
    simp only [JoinCursor.pending, searchDue, hpairs, haccepts, Option.toList_some,
      List.cons_append, List.isEmpty_cons, Bool.false_and, Bool.false_eq_true, if_false,
      untilError]
  · rename_i haccepts
    refine accounts_quiet ?_ hfits
    simp only [JoinCursor.pending, searchDue, hpairs, haccepts, Option.toList_none,
      List.nil_append]
    congr 2
    refine Join.rightDue_congr fun i right' hi => ?_
    by_cases hnext : i = next
    · obtain rfl : right' = right := Option.some.inj ((hnext ▸ hi).symm.trans hrow)
      simp [reachedFrom, reached, haccepts, Except.toOption]
    · simp only [reachedFrom, reached, hother hnext]
  · rename_i haccepts
    refine accounts_emitRow ?_ hfits
    simp only [JoinCursor.pending, searchDue, hpairs, haccepts, Option.toList_some,
      List.cons_append, List.nil_append, List.isEmpty_cons, Bool.false_and, Bool.false_eq_true,
      Bool.not_true, Bool.and_false, if_false]
    congr 3
    refine Join.rightDue_congr fun i right' hi => ?_
    by_cases hnext : i = next
    · obtain rfl : right' = right := Option.some.inj ((hnext ▸ hi).symm.trans hrow)
      simp [reachedFrom, reached, hnext, hlt, haccepts, Except.toOption]
    · simp [reachedFrom, reached, hother hnext, hnext]

/-- When no candidate is left, the left-hand row is padded if nothing has matched it. -/
theorem accounts_settle {left : Row} {next stop : Nat} {found : Bool}
    (h : c.phase = .searching left next stop found) (hlt : ¬next < stop) :
    Accounts c (c.search left next stop found) := by
  obtain ⟨j, m, lefts, matched, phase⟩ := c
  obtain rfl : phase = .searching left next stop found := h
  have hpairs : j.pairsDue m left next stop = [] := Join.pairsDue_of_le hlt
  have hright : j.rightDue m (reachedFrom ⟨j, m, lefts, matched, .searching left next stop found⟩
        left next stop) =
      j.rightDue m (reached ⟨j, m, lefts, matched, .advancing⟩) := by
    refine Join.rightDue_congr fun i right _ => ?_
    have hnone : ¬(next ≤ i ∧ i < stop) := by omega
    simp [reachedFrom, reached, hnone]
  rw [search, if_neg hlt]
  dsimp only
  split
  · rename_i hpad
    refine accounts_emitRow ?_ trivial
    simp only [JoinCursor.pending, searchDue, hpairs, List.isEmpty_nil, Bool.true_and, hpad,
      if_true, hright]
    rfl
  · rename_i hpad
    refine accounts_quiet ?_ trivial
    simp only [JoinCursor.pending, searchDue, hpairs, List.isEmpty_nil, Bool.true_and, hpad,
      hright]
    rfl

theorem accounts_sweep {next : Nat} (h : c.phase = .unmatched next) :
    Accounts c (c.sweep next) := by
  obtain ⟨j, m, lefts, matched, phase⟩ := c
  obtain rfl : phase = .unmatched next := h
  simp only [sweep]
  split
  · rename_i hrow
    exact accounts_finished (sweepDue_of_le hrow) rfl
  · rename_i right hrow
    have hsweep : sweepDue j m matched next = _ := sweepDue_of_lt hrow
    split
    · rename_i hmatched
      rw [if_pos hmatched] at hsweep
      exact accounts_quiet hsweep trivial
    · rename_i hmatched
      rw [if_neg hmatched] at hsweep
      exact accounts_emitRow hsweep trivial

/-- One move takes from the front of what is due exactly what it emits. -/
theorem accounts_step (h : c.Fits) : Accounts c c.step := by
  unfold step
  split
  · rename_i hphase
    exact accounts_advance hphase
  · rename_i left next stop found hphase
    by_cases hlt : next < stop
    · exact accounts_compare hphase h hlt
    · exact accounts_settle hphase hlt
  · rename_i hphase
    exact accounts_sweep hphase
  · rename_i hphase
    exact accounts_finished (pending_of_done hphase) hphase

/-! ### Runs -/

/-- A pull takes from the front of what is due the item that it gives; a pull that gives nothing has
found the join at its end. -/
theorem accounts_next (h : c.Fits) :
    untilError c.pending = c.next.1.toList ++ untilError c.next.2.pending ∧
      (c.next.1 = none → c.next.2.phase = .done) ∧ c.next.2.Fits := by
  induction c using next.induct with
  | case1 c item d hstep =>
      have hmove := accounts_step h
      rw [hstep] at hmove
      rw [next, hstep]
      exact ⟨hmove.pending, by simp, hmove.fits⟩
  | case2 c d hstep ih =>
      have hmove := accounts_step h
      rw [hstep] at hmove
      rw [next, hstep]
      obtain ⟨hpending, hend, hfits⟩ := ih hmove.fits
      exact ⟨hmove.pending.trans hpending, hend, hfits⟩
  | case3 c d hstep =>
      have hmove := accounts_step h
      rw [hstep] at hmove
      rw [next, hstep]
      exact ⟨hmove.pending, fun _ => hmove.finished rfl, hmove.fits⟩

/-- A join that is drained yields what is due. -/
theorem drain_eq (h : c.Fits) : c.drain = untilError c.pending := by
  induction c using drain.induct with
  | case1 c item d hstep ih =>
      have hmove := accounts_step h
      rw [hstep] at hmove
      rw [drain, hstep, hmove.pending]
      exact congrArg (item :: ·) (ih hmove.fits)
  | case2 c d hstep ih =>
      have hmove := accounts_step h
      rw [hstep] at hmove
      rw [drain, hstep, hmove.pending]
      exact ih hmove.fits
  | case3 c d hstep =>
      have hmove := accounts_step h
      rw [hstep] at hmove
      rw [drain, hstep, hmove.pending, pending_of_done (hmove.finished rfl)]
      rfl

/-- Nothing has happened at the start: everything is due. -/
theorem pending_start (j : Join) (m : Matcher) (lefts : List Item) :
    (start j m lefts).pending = j.due m lefts := rfl

theorem fits_start (j : Join) (m : Matcher) (lefts : List Item) : (start j m lefts).Fits :=
  trivial

/-- A join that is drained from its start yields everything that is due, up to the first error. -/
theorem drain_start (j : Join) (m : Matcher) (lefts : List Item) :
    (start j m lefts).drain = untilError (j.due m lefts) := by
  rw [drain_eq (fits_start j m lefts), pending_start]

/-- What a pull gives after `n` pulls have been made. -/
def pull : Nat → JoinCursor → Option Item
  | 0, c => c.next.1
  | n + 1, c => pull n c.next.2

theorem pull_eq (n : Nat) (h : c.Fits) : pull n c = (untilError c.pending)[n]? := by
  induction n generalizing c with
  | zero =>
      obtain ⟨hpending, hend, -⟩ := accounts_next h
      rw [pull, hpending]
      cases hnext : c.next.1 with
      | some item => rfl
      | none =>
          rw [pending_of_done (hend hnext)]
          rfl
  | succ n ih =>
      obtain ⟨hpending, hend, hfits⟩ := accounts_next h
      rw [pull, ih hfits, hpending]
      cases hnext : c.next.1 with
      | some item => rfl
      | none =>
          -- A join at its end stays there: nothing is due, hence nothing later either.
          rw [pending_of_done (hend hnext)]
          rfl

/-- **The join machine yields what is due.** The pull after `n` others gives the item at position
`n` of what is due up to the first error, and nothing from the end of that list on. -/
theorem pull_start (j : Join) (m : Matcher) (lefts : List Item) (n : Nat) :
    pull n (start j m lefts) = (untilError (j.due m lefts))[n]? := by
  rw [pull_eq n (fits_start j m lefts), pending_start]

end JoinCursor

end RelQuery
