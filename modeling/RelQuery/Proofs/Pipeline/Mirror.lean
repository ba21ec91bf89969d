import RelQuery.Proofs.Join.Cursor
import RelQuery.Proofs.Join.Lookup
import RelQuery.Proofs.Join.Mirror
import RelQuery.Proofs.Pipeline.Sound

/-!
# RelQuery.Proofs.Pipeline.Mirror

**Joins are mirror-symmetric.**

A join passes over its left-hand side once and stores its right-hand side, so its two sides are
executed in different ways, and an error on one side shows at another time than one on the other.
What both orders of the inputs have in common is the nested loop: where both sides are rows, each
order drains to the nested loop over its sides (`tuples_join_of_rows`), and one is the mirror image
of the other. Where some item is an error, both orders fail (`tuples_join_of_left_error`,
`tuples_join_of_right_error`), whichever error they find first.

Two things are asked of the inputs, for the side on which they become the right-hand one. Rows have
to fit their relation, which is only checked when it is stored. And a relation that is looked up in
the order it is declared in has to be in that order: the join believes it, so that a false
declaration makes one order of the inputs yield rows that the other does not
(`tuples_not_mirrored`).
-/

namespace RelQuery

/-- The relation can stand where the schema is expected, and all of its rows fit it. Some of its
items may be errors. -/
structure Relation.Fits (r : Relation) (s : Schema) : Prop where
  /-- The relation can stand where the schema is expected. -/
  fits : r.schema.fits s = true
  rows : ∀ row, .ok row ∈ r.items → row.schema.fits r.schema = true

/-- A relation of rows that fit is stored with these rows. -/
theorem Relation.Fits.exists_store {r : Relation} {s : Schema} (h : r.Fits s) {rows : List Row}
    (hitems : r.items = rows.map .ok) :
    ∃ t, r.store = .ok t ∧ t.rows = rows ∧ t.schema.fits s = true ∧
      ∀ row ∈ rows, row.schema.fits s = true := by
  have hfit : ∀ row ∈ rows, row.schema.fits r.schema = true :=
    fun row hrow => h.rows row (hitems ▸ List.mem_map_of_mem hrow)
  obtain ⟨t, hstore, hrows, hschema⟩ := RelQuery.exists_store (gather_eq_ok_iff.mpr hitems) hfit
  exact ⟨t, hstore, hrows, hschema ▸ h.fits,
    fun row hrow => Schema.fits_trans (hfit row hrow) h.fits⟩

/-- A row that fits a schema has a value for each of its columns. -/
theorem Join.spans_of_fits {row : Row} {s : Schema} (h : row.schema.fits s = true) :
    Spans row s := by
  rw [Spans, row.length_values, ← Schema.length_names, Schema.names_of_fits h, Schema.length_names]

/-- The tuples of values of a list of items, if none of them is an error. -/
def Stream.tuples (items : List Item) : Except Error (List (List Value)) :=
  (gather items).map (List.map Row.values)

/-- The outcomes of a join in both orders of its inputs: the same tuples in some order, up to the
exchange of their blocks, or an error in both. -/
inductive Mirrored (n : Nat) :
    Except Error (List (List Value)) → Except Error (List (List Value)) → Prop where
  | tuples {xs ys : List (List Value)} : xs.Perm (ys.map (Join.exchange n)) →
      Mirrored n (.ok xs) (.ok ys)
  /-- Which error it is depends on the order. -/
  | error (e e' : Error) : Mirrored n (.error e) (.error e')

/-- If one order has tuples, the other has as many. -/
theorem Mirrored.exists_tuples {n : Nat} {o o' : Except Error (List (List Value))}
    {xs : List (List Value)} (h : Mirrored n o o') (hxs : o = .ok xs) :
    ∃ ys, o' = .ok ys ∧ xs.length = ys.length := by
  cases h with
  | @tuples xs' ys hperm =>
      obtain rfl := Except.ok.inj hxs
      exact ⟨ys, rfl, by rw [hperm.length_eq, List.length_map]⟩
  | error e e' => simp at hxs

namespace Stream

variable {items items' : List Item}

theorem map_tuple?_map_ok (rows : List Row) :
    (rows.map .ok).map Join.tuple? = (rows.map Row.values).map some := by
  rw [List.map_map, List.map_map]
  rfl

/-- Items that all have values are rows. -/
theorem exists_rows_of_map_tuple? (h : none ∉ items.map Join.tuple?) :
    ∃ rows : List Row, items = rows.map .ok := by
  refine ⟨okRows items, eq_map_okRows fun e he => h ?_⟩
  exact List.mem_map.mpr ⟨.error e, he, rfl⟩

/-- Items of which one is an error have no tuples. -/
theorem tuples_of_error_mem {e : Error} (h : .error e ∈ items) :
    ∃ e', tuples items = .error e' := by
  rw [tuples]
  cases hgather : gather items with
  | error e' => exact ⟨e', rfl⟩
  | ok rows =>
      rw [gather_eq_ok_iff.mp hgather] at h
      exact absurd h error_not_mem_map_ok

theorem tuples_of_none_mem (h : none ∈ items.map Join.tuple?) : ∃ e, tuples items = .error e := by
  obtain ⟨item, hitem, htuple⟩ := List.mem_map.mp h
  cases item with
  | error e => exact tuples_of_error_mem hitem
  | ok row => simp [Join.tuple?, Except.map, Except.toOption] at htuple

theorem tuples_map_ok (rows : List Row) : tuples (rows.map .ok) = .ok (rows.map Row.values) := by
  rw [tuples, gather_map_ok]
  rfl

/-- Items that have the same tuples up to an exchange of blocks have mirrored outcomes. -/
theorem mirrored_of_perm {n : Nat} (h : (items.map Join.tuple?).Perm
    ((items'.map Join.tuple?).map (Option.map (Join.exchange n)))) :
    Mirrored n (tuples items) (tuples items') := by
  have hnone : none ∈ items.map Join.tuple? ↔ none ∈ items'.map Join.tuple? := by
    rw [h.mem_iff, List.mem_map]
    constructor
    · rintro ⟨t, ht, hmap⟩
      rwa [Option.map_eq_none_iff.mp hmap] at ht
    · exact fun hmem => ⟨none, hmem, rfl⟩
  by_cases hmem : none ∈ items.map Join.tuple?
  · obtain ⟨e, he⟩ := tuples_of_none_mem hmem
    obtain ⟨e', he'⟩ := tuples_of_none_mem (hnone.mp hmem)
    rw [he, he']
    exact .error e e'
  · obtain ⟨rows, rfl⟩ := exists_rows_of_map_tuple? hmem
    obtain ⟨rows', rfl⟩ := exists_rows_of_map_tuple? (mt hnone.mpr hmem)
    rw [tuples_map_ok, tuples_map_ok]
    have hexchange : ((rows'.map Row.values).map some).map (Option.map (Join.exchange n)) =
        ((rows'.map Row.values).map (Join.exchange n)).map some := by
      simp only [List.map_map]
      rfl
    rw [map_tuple?_map_ok, map_tuple?_map_ok, hexchange] at h
    exact .tuples ((List.map_perm_map_iff fun _ _ => Option.some.inj).mp h)

end Stream

namespace Operator

/-- The tuples of values that a run of a pipeline yields, if none of its items is an error. -/
def tuples (op : Operator) (h : Handouts) : Except Error (List (List Value)) := do
  let r ← (op.run h).1
  Stream.tuples r.items

/-- What the inputs of a join give, in whatever order they are run. -/
structure Operands (a b : Operator) (h h' : Handouts) (A B : Relation) : Prop where
  left : (a.run h).1 = .ok A
  right : (b.run (a.run h).2).1 = .ok B
  /-- The inputs run in the other order. -/
  swap : (b.run h').1 = .ok B ∧ (a.run (b.run h').2).1 = .ok A

variable {a b : Operator} {h h' : Handouts} {A B : Relation} {j : Join}
variable {strategy strategy' : JoinStrategy} {verify verify' : Bool}

/-- A join has the tuples of what is due. -/
theorem tuples_join (hA : (a.run h).1 = .ok A) (hB : (b.run (a.run h).2).1 = .ok B) :
    (join a b j strategy verify).tuples h =
      matcherFor j strategy verify B >>= fun m => Stream.tuples (j.due m A.items) := by
  rw [tuples, run_join_fst, hA]
  simp only [bind, Except.bind, hB]
  cases matcherFor j strategy verify B with
  | error e => rfl
  | ok m =>
      show Stream.tuples (JoinCursor.start j m A.items).drain = Stream.tuples (j.due m A.items)
      rw [Stream.tuples, JoinCursor.drain_start, gather_untilError, Stream.tuples]

/-- Over rows on both sides, these are the tuples of the nested loop. -/
theorem tuples_join_of_rows {lefts : List Row} {t : Table} (hj : j.Total)
    (hA : (a.run h).1 = .ok A) (hB : (b.run (a.run h).2).1 = .ok B)
    (hlefts : A.items = lefts.map .ok) (hstore : B.store = .ok t)
    (hfits : t.schema.fits j.right = true)
    (htrust : j.Trusts strategy verify B) :
    ∃ rows : List Row, rows.Perm t.rows ∧
      (join a b j strategy verify).tuples h = Stream.tuples (j.nested lefts rows) := by
  obtain ⟨m, hm, hfaithful, hperm⟩ :=
    Matcher.exists_matcherFor_of_store hj.resolved htrust hstore hfits
  refine ⟨m.rows, hperm, ?_⟩
  rw [tuples_join hA hB, hm, hlefts, ← Matcher.due_of_faithful hfaithful]
  rfl

theorem tuples_join_of_left_error {e : Error} (hA : (a.run h).1 = .ok A)
    (hB : (b.run (a.run h).2).1 = .ok B) (he : .error e ∈ A.items) :
    ∃ e', (join a b j strategy verify).tuples h = .error e' := by
  rw [tuples_join hA hB]
  cases matcherFor j strategy verify B with
  | error e' => exact ⟨e', rfl⟩
  | ok m => exact Stream.tuples_of_error_mem (Join.error_mem_due he)

theorem tuples_join_of_right_error {e : Error} (hA : (a.run h).1 = .ok A)
    (hB : (b.run (a.run h).2).1 = .ok B) (hstore : B.store = .error e) :
    (join a b j strategy verify).tuples h = .error e := by
  rw [tuples_join hA hB, Matcher.matcherFor_of_store hstore]
  rfl

/-! ### Both orders -/

/-- A planned join keeps its promises in both orders of its inputs. -/
theorem total_mirror {left right : Schema} {type : JoinType} {condition : JoinCondition}
    (hplan : Join.plan left right type condition = .ok j)
    (htest : ∀ p, condition = .theta p → ∀ l r, ∃ b, p.test l r = .ok b) :
    j.Total ∧ j.mirror.Total := by
  refine ⟨Join.total_of_plan hplan htest, Join.total_of_plan (Join.plan_mirror hplan) ?_⟩
  intro p hp l r
  cases condition with
  | cross => simp [JoinCondition.mirror] at hp
  | theta q =>
      obtain rfl := JoinCondition.theta.inj hp
      exact htest q rfl r l
  | equi pairs => simp [JoinCondition.mirror] at hp

/-- The nested loops over the same rows, in whatever order they have been stored. -/
theorem mirrored_nested (hj : j.Total) (hmirror : j.mirror.Total) (hwidths : j.Widths)
    {lefts lefts' rights rights' : List Row} (hlefts : ∀ l ∈ lefts, Join.Spans l j.left)
    (hrights : ∀ r ∈ rights, Join.Spans r j.right) (hlperm : lefts'.Perm lefts)
    (hrperm : rights'.Perm rights) :
    Mirrored j.right.width (Stream.tuples (j.nested lefts rights'))
      (Stream.tuples (j.mirror.nested rights lefts')) := by
  refine Stream.mirrored_of_perm ?_
  have hleft : ((j.nested lefts rights').map Join.tuple?).Perm (j.looped lefts rights) :=
    ((Join.nested_perm (List.Perm.refl _) hrperm).map _).trans
      (Join.map_tuple?_nested hj lefts rights)
  have hright : ((j.mirror.nested rights lefts').map Join.tuple?).Perm
      (j.mirror.looped rights lefts) :=
    ((Join.nested_perm (List.Perm.refl _) hlperm).map _).trans
      (Join.map_tuple?_nested hmirror rights lefts)
  exact hleft.trans ((Join.looped_mirror hwidths hlefts hrights).trans (hright.map _).symm)

/-- Rows on both sides give mirrored outcomes, whatever the strategies. -/
theorem mirrored_of_rows (hj : j.Total) (hmirror : j.mirror.Total) (hwidths : j.Widths)
    (hops : Operands a b h h' A B) (hA : A.Fits j.left) (hB : B.Fits j.right)
    (htrust : j.Trusts strategy verify B) (htrust' : j.mirror.Trusts strategy' verify' A)
    {lefts rights : List Row} (hlefts : A.items = lefts.map .ok)
    (hrights : B.items = rights.map .ok) :
    Mirrored j.right.width ((join a b j strategy verify).tuples h)
      ((join b a j.mirror strategy' verify').tuples h') := by
  obtain ⟨tA, hstoreA, rfl, hfitsA, hlrows⟩ := hA.exists_store hlefts
  obtain ⟨tB, hstoreB, rfl, hfitsB, hrrows⟩ := hB.exists_store hrights
  obtain ⟨rights', hrperm, htuples⟩ :=
    tuples_join_of_rows hj hops.left hops.right hlefts hstoreB hfitsB htrust
  obtain ⟨lefts', hlperm, htuples'⟩ :=
    tuples_join_of_rows hmirror hops.swap.1 hops.swap.2 hrights hstoreA hfitsA htrust'
  rw [htuples, htuples']
  exact mirrored_nested hj hmirror hwidths (fun l hl => Join.spans_of_fits (hlrows l hl))
    (fun r hr => Join.spans_of_fits (hrrows r hr)) hlperm hrperm

/-- Both orders have mirrored outcomes. An item that is an error is found by either order, in the
pass over the side or when the side is stored. -/
theorem mirrored_of_operands (hj : j.Total) (hmirror : j.mirror.Total) (hwidths : j.Widths)
    (hops : Operands a b h h' A B) (hA : A.Fits j.left) (hB : B.Fits j.right)
    (htrust : j.Trusts strategy verify B) (htrust' : j.mirror.Trusts strategy' verify' A) :
    Mirrored j.right.width ((join a b j strategy verify).tuples h)
      ((join b a j.mirror strategy' verify').tuples h') := by
  cases heA : firstError? A.items with
  | some e =>
      obtain ⟨e', he'⟩ := @tuples_join_of_left_error a b h A B j strategy verify e hops.left
        hops.right (error_mem_of_firstError? heA)
      rw [he', tuples_join_of_right_error hops.swap.1 hops.swap.2 (store_eq_error heA)]
      exact .error e' e
  | none =>
    cases heB : firstError? B.items with
    | some e =>
        obtain ⟨e', he'⟩ := @tuples_join_of_left_error b a h' B A j.mirror strategy' verify' e
          hops.swap.1 hops.swap.2 (error_mem_of_firstError? heB)
        rw [he', tuples_join_of_right_error hops.left hops.right (store_eq_error heB)]
        exact .error e e'
    | none =>
        obtain ⟨lefts, hlefts⟩ := firstError?_eq_none_iff.mp heA
        obtain ⟨rights, hrights⟩ := firstError?_eq_none_iff.mp heB
        exact mirrored_of_rows hj hmirror hwidths hops hA hB htrust htrust' hlefts hrights

/-- A join of rows that suit it has tuples. -/
theorem exists_tuples_join (hj : j.Total) (hA : (a.run h).1 = .ok A)
    (hB : (b.run (a.run h).2).1 = .ok B) (hl : A.Suits j.left) (hr : B.Suits j.right) :
    ∃ xs, (join a b j strategy verify).tuples h = .ok xs := by
  obtain ⟨m, rows, hm, hdue, -⟩ := exists_due_of_suits hj hl hr strategy verify
  refine ⟨rows.map Row.values, ?_⟩
  rw [tuples_join hA hB, hm]
  show Stream.tuples (j.due m A.items) = _
  rw [hdue, Stream.tuples_map_ok]

/-- **Joins are mirror-symmetric.** Whatever join two inputs have been accepted for, the mirrored
join is accepted for them in the other order: with the column pairs swapped, or with the arguments
of a predicate that always has an answer exchanged. Over relations whose rows fit, in both orders
and with any strategies, the two give the same tuples up to the order of the tuples and of the two
blocks of values in each, or both give an error. There are tuples if the values of the rows suit the
columns. A declared order by which rows are looked up has to hold. -/
theorem tuples_mirror {left right : Schema} {type : JoinType} {condition : JoinCondition}
    (hplan : Join.plan left right type condition = .ok j)
    (htest : ∀ p, condition = .theta p → ∀ l r, ∃ b, p.test l r = .ok b) :
    Join.plan right left type.mirror condition.mirror = .ok j.mirror ∧
    ∀ (a b : Operator) (h h' : Handouts) (A B : Relation), Operands a b h h' A B →
      ∀ (strategy strategy' : JoinStrategy) (verify verify' : Bool),
        (A.Fits left → B.Fits right → j.Trusts strategy verify B →
          j.mirror.Trusts strategy' verify' A →
            Mirrored right.width ((join a b j strategy verify).tuples h)
              ((join b a j.mirror strategy' verify').tuples h')) ∧
        (A.Suits left → B.Suits right →
          ∃ xs, (join a b j strategy verify).tuples h = .ok xs) := by
  obtain ⟨hj, hmirror⟩ := total_mirror hplan htest
  have hwidths := Join.widths_of_plan hplan
  refine ⟨Join.plan_mirror hplan, fun a b h h' A B hops strategy strategy' verify verify' => ?_⟩
  obtain ⟨rfl, rfl, -, -, -⟩ := Join.plan_eq_ok hplan
  exact ⟨mirrored_of_operands hj hmirror hwidths hops,
    exists_tuples_join hj hops.left hops.right⟩

/-- Patients with their age, each with a ward, which may still be open. -/
def patients : Schema :=
  ⟨"patients", [⟨"ward", .int32, true, .position 0⟩, ⟨"age", .int32, false, .position 1⟩]⟩

/-- Beds by number, each in a ward. -/
def beds : Schema :=
  ⟨"beds", [⟨"ward", .int32, false, .position 0⟩, ⟨"number", .int32, false, .position 1⟩]⟩

/-- A patient for the first ward, and one without a ward. -/
def admitted : Table :=
  ⟨patients, [⟨patients, [.int32 1, .int32 40], rfl⟩, ⟨patients, [.null, .int32 65], rfl⟩],
    by decide⟩

/-- A bed in the second ward, then one in the first. -/
def bedList : Table :=
  ⟨beds, [⟨beds, [.int32 2, .int32 7], rfl⟩, ⟨beds, [.int32 1, .int32 9], rfl⟩], by decide⟩

/-- The patients, bound to what holds them. -/
def patientLeaf (input : Input) : Operator :=
  source "patients" patients input

/-- The beds, bound to what holds them. -/
def bedLeaf (input : Input) : Operator :=
  source "beds" beds input

/-- The patients and their beds, looked up by ward, and the other way round in a nested loop. The
patient without a ward is in both. -/
theorem tuples_mirror_admitted :
    ∃ j, Join.plan patients beds .leftOuter (.equi [("ward", "ward")]) = .ok j ∧
      Mirrored 2
        ((join (patientLeaf (.table admitted)) (bedLeaf (.table bedList)) j .sortedLookup
          false).tuples .none)
        ((join (bedLeaf (.table bedList)) (patientLeaf (.table admitted)) j.mirror .nestedLoop
          false).tuples .none) ∧
      ∃ xs, (join (patientLeaf (.table admitted)) (bedLeaf (.table bedList)) j .sortedLookup
        false).tuples .none = .ok xs := by
  obtain ⟨j, hplan⟩ : ∃ j, Join.plan patients beds .leftOuter (.equi [("ward", "ward")]) = .ok j :=
    ⟨_, rfl⟩
  have hops : Operands (patientLeaf (.table admitted)) (bedLeaf (.table bedList)) .none .none
      (.table admitted) (.table bedList) := ⟨rfl, rfl, rfl, rfl⟩
  have hadmitted : admitted.Checked := by
    intro row hrow
    simp only [admitted, List.mem_cons, List.not_mem_nil, or_false] at hrow
    rcases hrow with rfl | rfl <;> rfl
  have hbeds : bedList.Checked := by
    intro row hrow
    simp only [bedList, List.mem_cons, List.not_mem_nil, or_false] at hrow
    rcases hrow with rfl | rfl <;> rfl
  have hboth := (tuples_mirror hplan (by simp)).2 _ _ _ _ _ _ hops .sortedLookup .nestedLoop false
    false
  refine ⟨j, hplan, hboth.1 ?_ ?_ ?_ ?_, hboth.2 ?_ ?_⟩
  · exact ⟨rfl, fun row hrow => admitted.rows_fit row (mem_okRows.mpr hrow)⟩
  · exact ⟨rfl, fun row hrow => bedList.rows_fit row (mem_okRows.mpr hrow)⟩
  · exact fun k _ _ => Matcher.trustworthy_of_declared (by simp)
  · exact fun k _ hstrategy => by simp at hstrategy
  · exact ⟨rfl, admitted.rows, rfl, Table.suits_of_checked hadmitted⟩
  · exact ⟨rfl, bedList.rows, rfl, Table.suits_of_checked hbeds⟩

/-- The beds, declared to be in ascending order of the wards, which they are not. -/
def bedsDeclared : SortedTable where
  base := bedList
  keys := [.ascending "ward"]
  order := ⟨[(0, false)]⟩
  resolved := rfl

/-- The search takes both beds to be in the first ward, because the second one is. -/
theorem lookup_bedsDeclared : bedsDeclared.lookup [.int32 1] = .ok (0, 2) := by
  have hstart : boundary (fun i => bedsDeclared.compareAt [.int32 1] i == .lt) 0 2 = 0 := by
    rw [boundary_of_not_below (by decide) (by decide),
      boundary_of_not_below (by decide) (by decide), boundary_of_le (by decide)]
  have hstop : boundary (fun i => bedsDeclared.compareAt [.int32 1] i == .eq) 0 2 = 2 := by
    rw [boundary_of_below (by decide) (by decide), boundary_of_le (by decide)]
  show (let start := boundary _ 0 2; Except.ok (start, boundary _ start 2)) = _
  dsimp only
  rw [hstart, hstop]

/-- A stream of patients with a row of visitors, who have a room. -/
def visitors : Stream :=
  let s : Schema :=
    ⟨"visitors", [⟨"room", .int32, true, .position 0⟩, ⟨"age", .int32, false, .position 1⟩]⟩
  ⟨patients, [.ok ⟨s, [.int32 1, .int32 30], rfl⟩]⟩

/-- Without these conditions joins need not be mirror-symmetric. A false declaration, believed in
one order of the inputs only, adds a bed in the wrong ward. And a row of another relation passes on
the left-hand side, where the schemas of rows are not looked at, but not on the right-hand side. -/
theorem tuples_not_mirrored :
    (∃ j j', Join.plan patients beds .inner (.equi [("ward", "ward")]) = .ok j ∧
      Join.plan beds patients .inner (.equi [("ward", "ward")]) = .ok j' ∧
      ¬ Mirrored 2
        ((join (patientLeaf (.table admitted)) (bedLeaf (.sorted bedsDeclared)) j .sortedLookup
          false).tuples .none)
        ((join (bedLeaf (.sorted bedsDeclared)) (patientLeaf (.table admitted)) j' .nestedLoop
          false).tuples .none)) ∧
    ∃ j j', Join.plan patients beds .inner .cross = .ok j ∧
      Join.plan beds patients .inner .cross = .ok j' ∧
      ¬ Mirrored 2
        ((join (patientLeaf (.stream 0 visitors)) (bedLeaf (.table bedList)) j .nestedLoop
          false).tuples .none)
        ((join (bedLeaf (.table bedList)) (patientLeaf (.stream 0 visitors)) j' .nestedLoop
          false).tuples .none) := by
  refine ⟨⟨_, _, rfl, rfl, fun hmirrored => ?_⟩, ⟨_, _, rfl, rfl, fun hmirrored => ?_⟩⟩
  · have hcandidates : (Matcher.lookup bedsDeclared [0]).candidates
        ⟨patients, [.int32 1, .int32 40], rfl⟩ = .ok (0, 2) := lookup_bedsDeclared
    rw [tuples_join rfl rfl, tuples_join rfl rfl] at hmirrored
    obtain ⟨ys, hys, hlength⟩ := @Mirrored.exists_tuples 2
      (Stream.tuples (Join.due _ (.lookup bedsDeclared [0]) (admitted.rows.map .ok))) _
      [[.int32 1, .int32 40, .int32 2, .int32 7], [.int32 1, .int32 40, .int32 1, .int32 9]]
      hmirrored (by
        simp only [Join.due, admitted, List.map, List.flatMap_cons, Join.leftDue, hcandidates]
        rfl)
    obtain rfl : [[.int32 1, .int32 9, .int32 1, .int32 40]] = ys := Except.ok.inj hys
    exact absurd hlength (by decide)
  · rw [tuples_join rfl rfl, tuples_join rfl rfl] at hmirrored
    obtain ⟨ys, hys, -⟩ := @Mirrored.exists_tuples 2 _ _
      [[.int32 1, .int32 30, .int32 2, .int32 7], [.int32 1, .int32 30, .int32 1, .int32 9]]
      hmirrored rfl
    have hforeign : Except.error
        (Error.foreignRow 0 "patients" "visitors(room, age)" "patients(ward, age)") = .ok ys := hys
    exact absurd hforeign (by simp)

end Operator

end RelQuery
