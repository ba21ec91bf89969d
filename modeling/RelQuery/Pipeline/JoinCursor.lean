import RelQuery.Pipeline.Matcher

/-!
# RelQuery.Pipeline.JoinCursor

A running join: a state machine over the items of the left-hand side and the stored rows of the
right-hand side.

```text
advancing ──row──▶ searching ──range done──▶ advancing
    │                  └──match──▶ emit, go on searching
    └──no more rows──▶ unmatched (if right-hand rows are kept) ──▶ done
```

`step` makes one move, which looks at one left-hand item or at one right-hand position; `next` makes
moves until a row or an error is due; `drain` is everything that is ever due. An error ends the
join: whatever happens, the machine is then done. Right-hand rows are tracked by position, not by
their values, so equal rows are told apart.
-/

namespace RelQuery

/-- Where a running join stands. -/
inductive JoinPhase where
  /-- The next left-hand item is to be taken. -/
  | advancing
  /-- A left-hand row is compared with the positions `next..stop`; `found` tells whether it has
  matched already. -/
  | searching (left : Row) (next stop : Nat) (found : Bool)
  /-- The right-hand rows that nothing has matched are due, from this position on. -/
  | unmatched (next : Nat)
  /-- Nothing more is due. -/
  | done

/-- A running join. -/
structure JoinCursor where
  join : Join
  matcher : Matcher
  /-- The left-hand items that are still to come. -/
  lefts : List Item
  /-- The positions of the right-hand rows that have been matched. -/
  matched : List Nat
  /-- Where the join stands. -/
  phase : JoinPhase

/-- What a move of a running join brings. -/
inductive JoinMove where
  /-- An item is due. -/
  | emit (item : Item)
  /-- Nothing is due yet. -/
  | quiet
  /-- Nothing will ever be due. -/
  | finished

namespace JoinCursor

/-- A join that has not moved yet. -/
def start (join : Join) (matcher : Matcher) (lefts : List Item) : JoinCursor :=
  ⟨join, matcher, lefts, [], .advancing⟩

/-- An error is due, and nothing after it. -/
def fail (c : JoinCursor) (e : Error) : JoinMove × JoinCursor :=
  (.emit (.error e), { c with phase := .done })

/-- A combined row is due, if the rows could be combined, and the join goes on from `c`. -/
def emitRow (c : JoinCursor) : Except Error Row → JoinMove × JoinCursor
  | .ok row => (.emit (.ok row), c)
  | .error e => c.fail e

/-- The move that takes the next left-hand item. -/
def advance (c : JoinCursor) : JoinMove × JoinCursor :=
  match c.lefts with
  | [] =>
    if c.join.type.keepsRight then (.quiet, { c with phase := .unmatched 0 })
    else (.finished, { c with phase := .done })
  | .error e :: lefts => { c with lefts }.fail e
  | .ok left :: lefts =>
    match c.matcher.candidates left with
    | .error e => { c with lefts }.fail e
    | .ok (start, stop) => (.quiet, { c with lefts, phase := .searching left start stop false })

/-- The move that compares a left-hand row with one position. -/
def search (c : JoinCursor) (left : Row) (next stop : Nat) (found : Bool) :
    JoinMove × JoinCursor :=
  if next < stop then
    -- Candidates are positions of stored rows, so the default is never used.
    let right := (c.matcher.rows[next]?).getD default
    match c.matcher.accepts c.join left right with
    | .error e => c.fail e
    | .ok false => (.quiet, { c with phase := .searching left (next + 1) stop found })
    | .ok true =>
      { c with
        matched := next :: c.matched
        phase := .searching left (next + 1) stop true }.emitRow (c.join.combine left right)
  else
    let c := { c with phase := .advancing }
    if !found && c.join.type.keepsLeft then c.emitRow (c.join.padRight left)
    else (.quiet, c)

/-- The move that looks whether the right-hand row at a position is still due. -/
def sweep (c : JoinCursor) (next : Nat) : JoinMove × JoinCursor :=
  match c.matcher.rows[next]? with
  | none => (.finished, { c with phase := .done })
  | some right =>
    let following := { c with phase := .unmatched (next + 1) }
    if c.matched.contains next then (.quiet, following)
    else following.emitRow (c.join.padLeft right)

/-- One move of a running join, as its phase asks for: it takes a left-hand item, compares one pair
of rows, or looks at one right-hand row. -/
def step (c : JoinCursor) : JoinMove × JoinCursor :=
  match c.phase with
  | .advancing => c.advance
  | .searching left next stop found => c.search left next stop found
  | .unmatched next => c.sweep next
  | .done => (.finished, c)

/-- The rank of a phase: within one left-hand item the phase only falls. -/
def phaseRank : JoinPhase → Nat
  | .searching .. => 3
  | .advancing => 2
  | .unmatched _ => 1
  | .done => 0

/-- The positions that are still to be looked at in a phase. -/
def remaining (c : JoinCursor) : Nat :=
  match c.phase with
  | .searching _ next stop _ => stop - next
  | .unmatched next => c.matcher.rows.length - next
  | _ => 0

/-- What falls with each move: the left-hand items to come, then the phase, then the positions still
to be looked at. -/
def work (c : JoinCursor) : Nat × Nat × Nat :=
  (c.lefts.length, phaseRank c.phase, c.remaining)

/-- The order in which work falls. -/
abbrev Less : Nat × Nat × Nat → Nat × Nat × Nat → Prop :=
  Prod.Lex (· < ·) (Prod.Lex (· < ·) (· < ·))

theorem less_of_phase {a b r r' n : Nat} (h : a < b) : Less (n, a, r) (n, b, r') :=
  .right _ (.left _ _ h)

theorem less_of_remaining {r r' p n : Nat} (h : r < r') : Less (n, p, r) (n, p, r') :=
  .right _ (.right _ h)

theorem less_of_lefts {m n p p' r r' : Nat} (h : m < n) : Less (m, p, r) (n, p', r') :=
  .left _ _ h

/-- Emitting a row leaves the cursor as it is or ends the join. -/
theorem work_emitRow (c : JoinCursor) (row : Except Error Row) :
    (c.emitRow row).2.work = c.work ∨ (c.emitRow row).2.work = (c.lefts.length, 0, 0) := by
  cases row with
  | ok row => exact .inl rfl
  | error e => exact .inr rfl

/-- A cursor to which a row was emitted has less work than any that had more than it before. -/
theorem work_emitRow_less {c : JoinCursor} {row : Except Error Row} {w : Nat × Nat × Nat}
    (h : Less c.work w) (hp : 0 < phaseRank c.phase) : Less (c.emitRow row).2.work w := by
  rcases work_emitRow c row with h' | h' <;> rw [h']
  · exact h
  · obtain ⟨n, p, r⟩ := w
    cases h with
    | left _ _ h => exact less_of_lefts h
    | right _ h =>
      cases h with
      | left _ _ h => exact less_of_phase (Nat.lt_trans hp h)
      | right _ h => exact less_of_phase hp

/-- Every move but the last leaves less work. -/
theorem work_step (c : JoinCursor) :
    c.step.1 = .finished ∨ Less c.step.2.work c.work := by
  obtain ⟨join, matcher, lefts, matched, phase⟩ := c
  cases phase with
  | done => exact .inl rfl
  | advancing =>
    simp only [step, advance]
    cases lefts with
    | nil =>
      simp only
      split
      · exact .inr (less_of_phase (by decide : (1 : Nat) < 2))
      · exact .inl rfl
    | cons item lefts =>
      refine .inr ?_
      cases item with
      | error e => exact less_of_lefts (Nat.lt_succ_self _)
      | ok left =>
        simp only
        split <;> exact less_of_lefts (Nat.lt_succ_self _)
  | searching left next stop found =>
    refine .inr ?_
    simp only [step, search]
    split
    · rename_i h
      have fewer : stop - (next + 1) < stop - next := by omega
      split
      · exact less_of_phase (by decide : (0 : Nat) < 3)
      · exact less_of_remaining fewer
      · exact work_emitRow_less (less_of_remaining fewer) (by decide : (0 : Nat) < 3)
    · split
      · exact work_emitRow_less (less_of_phase (by decide : (2 : Nat) < 3))
          (by decide : (0 : Nat) < 2)
      · exact less_of_phase (by decide : (2 : Nat) < 3)
  | unmatched next =>
    simp only [step, sweep]
    split
    · exact .inl rfl
    · rename_i right h
      refine .inr ?_
      have inside : next < matcher.rows.length := (List.getElem?_eq_some_iff.mp h).1
      have fewer : matcher.rows.length - (next + 1) < matcher.rows.length - next := by omega
      split
      · exact less_of_remaining fewer
      · exact work_emitRow_less (less_of_remaining fewer) (by decide : (0 : Nat) < 1)

/-- Makes moves until an item is due, or none will ever be, and gives the item and the cursor to go
on from. -/
def next (c : JoinCursor) : Option Item × JoinCursor :=
  match _h : c.step with
  | (.emit item, d) => (some item, d)
  | (.quiet, d) => next d
  | (.finished, d) => (none, d)
termination_by c.work
decreasing_by
  have := work_step c
  simpa [_h] using this

/-- Everything that is due from here on. -/
def drain (c : JoinCursor) : List Item :=
  match _h : c.step with
  | (.emit item, d) => item :: drain d
  | (.quiet, d) => drain d
  | (.finished, _) => []
termination_by c.work
decreasing_by
  · have := work_step c
    simpa [_h] using this
  · have := work_step c
    simpa [_h] using this

end JoinCursor

end RelQuery
