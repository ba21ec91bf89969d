import RelQuery.Engine
import RelQuery.Proofs.Join.Keys
import RelQuery.Proofs.Pipeline.Conform
import RelQuery.Proofs.Relation.Sort

/-!
# RelQuery.Proofs.Engine.Present

**An evaluation is a stable sort and a limit over the raw output.**

`Engine.evalUnsorted` runs a query and leaves its output as it is. `Engine.Presents` says what
`Engine.eval` makes of that output, and which errors in it are seen. Without sort keys only the
items up to the limit count: an error behind them is never reported. With sort keys all items count,
since the whole output is sorted before it is cut. The rows of a checked input fit the schema of the
output, so storing them never fails, and every other failure is one of the items or a sort column
that does not exist (`eval_presents`).
-/

namespace RelQuery

namespace Engine

/-! ### Limits -/

theorem takeLimit_map {α β : Type} (limit : Option Nat) (f : α → β) (xs : List α) :
    takeLimit limit (xs.map f) = (takeLimit limit xs).map f := by
  cases limit with
  | none => rfl
  | some n => exact List.map_take.symm

theorem takeLimit_sublist {α : Type} (limit : Option Nat) (xs : List α) :
    (takeLimit limit xs).Sublist xs := by
  cases limit with
  | none => exact List.Sublist.refl xs
  | some n => exact List.take_sublist n xs

theorem mem_of_mem_takeLimit {α : Type} {limit : Option Nat} {xs : List α} {x : α}
    (h : x ∈ takeLimit limit xs) : x ∈ xs :=
  (takeLimit_sublist limit xs).mem h

/-! ### Presentation -/

variable {r : Relation} {sortBy : List SortKey} {limit : Option Nat} {e : Error}

/-- Without sort keys the items up to the limit are presented, if they are rows. -/
theorem exists_present_of_take (hfit : ∀ row, .ok row ∈ r.items → row.schema.fits r.schema = true)
    {rows : List Row} (hrows : takeLimit limit r.items = rows.map .ok) :
    ∃ t, present [] limit r = .ok t ∧ t.rows = rows := by
  have hrowsfit : ∀ row ∈ rows, row.schema.fits r.schema = true := by
    intro row hrow
    refine hfit row (@mem_of_mem_takeLimit _ limit _ _ ?_)
    rw [hrows]
    exact List.mem_map_of_mem hrow
  refine ⟨⟨r.schema, rows, hrowsfit⟩, ?_, rfl⟩
  unfold present
  rw [hrows, Stream.gather_map_ok]
  exact Table.ofRows_of_fit hrowsfit

/-- Otherwise the first error among them is reported. -/
theorem present_of_take_error (he : firstError? (takeLimit limit r.items) = some e) :
    present [] limit r = .error e := by
  unfold present
  rw [gather_eq_error_iff.mpr he]
  rfl

/-- With sort keys any error is reported, wherever it stands. -/
theorem present_of_error (hkeys : sortBy ≠ []) (he : firstError? r.items = some e) :
    present sortBy limit r = .error e := by
  unfold present
  rw [if_neg (mt List.isEmpty_iff.mp hkeys), store_eq_error he]
  rfl

/-- With sort keys that resolve, a stored output is sorted stably and cut. -/
theorem exists_present_of_resolve (hkeys : sortBy ≠ []) {t : Table} (hstore : r.store = .ok t)
    {order : RowOrder} (horder : RowOrder.resolve t.schema sortBy = .ok order) :
    ∃ sorted t', order.StableSort t.rows sorted ∧ present sortBy limit r = .ok t' ∧
      t'.rows = takeLimit limit sorted := by
  obtain ⟨s, hsort⟩ := SortedTable.exists_sort_eq_ok horder
  obtain ⟨hbase, hsortkeys, -⟩ := SortedTable.sort_eq_ok hsort
  have hsorder : s.order = order := by
    refine SortedTable.order_eq_of_resolve ?_
    rw [hbase, hsortkeys]
    exact horder
  have hstable : order.StableSort t.rows s.base.rows := by
    rw [hbase, hsorder]
    exact t.stableSort_sortBy order
  unfold present
  rw [if_neg (mt List.isEmpty_iff.mp hkeys), hstore]
  simp only [bind, Except.bind, hsort]
  cases limit with
  | none => exact ⟨s.base.rows, s.base, hstable, rfl, rfl⟩
  | some n =>
      dsimp only
      split
      · have hfit : ∀ row ∈ s.base.rows.take n, row.schema.fits s.base.schema = true :=
          fun row hrow => s.base.rows_fit row (List.mem_of_mem_take hrow)
        exact ⟨s.base.rows, _, hstable, Table.ofRows_of_fit hfit, rfl⟩
      · rename_i hlong
        exact ⟨s.base.rows, s.base, hstable, rfl,
          (List.take_of_length_le (Nat.not_lt.mp hlong)).symm⟩

/-- A sort column that does not exist is reported. -/
theorem present_of_unresolved (hkeys : sortBy ≠ []) {t : Table} (hstore : r.store = .ok t)
    (he : RowOrder.resolve t.schema sortBy = .error e) : present sortBy limit r = .error e := by
  have hsort : SortedTable.sort t sortBy = .error e := by
    unfold SortedTable.sort
    split
    · rename_i e' he'
      rw [Except.error.inj (he'.symm.trans he)]
    · rename_i order horder
      rw [he] at horder
      simp at horder
  unfold present
  rw [if_neg (mt List.isEmpty_iff.mp hkeys), hstore]
  simp only [bind, Except.bind, hsort]

/-- What is presented: without sort keys the items up to the limit, otherwise the output as it is
stored and sorted, cut to the limit. -/
theorem present_eq_ok {t : Table} (hpresent : present sortBy limit r = .ok t) :
    (sortBy = [] ∧ t.schema = r.schema ∧ takeLimit limit r.items = t.rows.map .ok) ∨
      sortBy ≠ [] ∧ ∃ t' s, r.store = .ok t' ∧ SortedTable.sort t' sortBy = .ok s ∧
        t.schema = s.base.schema ∧ t.rows = takeLimit limit s.base.rows := by
  unfold present at hpresent
  split at hpresent
  · rename_i hkeys
    obtain ⟨rows, hrows, hpresent⟩ := bind_eq_ok_iff.mp hpresent
    refine Or.inl ⟨List.isEmpty_iff.mp hkeys, Table.schema_of_ofRows hpresent, ?_⟩
    rw [Table.rows_of_ofRows hpresent]
    exact gather_eq_ok_iff.mp hrows
  · rename_i hkeys
    obtain ⟨t', hstore, hpresent⟩ := bind_eq_ok_iff.mp hpresent
    obtain ⟨s, hsort, hpresent⟩ := bind_eq_ok_iff.mp hpresent
    refine Or.inr ⟨mt List.isEmpty_iff.mpr hkeys, t', s, hstore, hsort, ?_⟩
    cases limit with
    | none =>
        obtain rfl := pure_eq_ok_iff.mp hpresent
        exact ⟨rfl, rfl⟩
    | some n =>
        dsimp only at hpresent
        split at hpresent
        · exact ⟨Table.schema_of_ofRows hpresent, Table.rows_of_ofRows hpresent⟩
        · rename_i hlong
          obtain rfl := pure_eq_ok_iff.mp hpresent
          exact ⟨rfl, (List.take_of_length_le (Nat.not_lt.mp hlong)).symm⟩

/-- What is presented are rows of the output. -/
theorem mem_items_of_present {t : Table} (hpresent : present sortBy limit r = .ok t) :
    ∀ row ∈ t.rows, .ok row ∈ r.items := by
  intro row hrow
  rcases present_eq_ok hpresent with ⟨-, -, hrows⟩ | ⟨-, t', s, hstore, hsort, -, hrows⟩
  · refine @mem_of_mem_takeLimit _ limit _ _ ?_
    rw [hrows]
    exact List.mem_map_of_mem hrow
  · obtain ⟨hbase, -⟩ := SortedTable.sort_eq_ok hsort
    rw [hrows] at hrow
    have hmem := mem_of_mem_takeLimit hrow
    rw [hbase] at hmem
    rw [gather_eq_ok_iff.mp (gather_of_store hstore)]
    exact List.mem_map_of_mem (List.mem_mergeSort.mp hmem)

/-! ### Evaluation -/

/-- What an evaluation of a query gives, said of the output that it has as it comes. -/
structure Presents (q : Query) (limit : Option Nat) (r : Relation)
    (outcome : Except ExecError ResultSet) : Prop where
  /-- Without sort keys: the items up to the limit, if they are rows. -/
  rows_of_take : q.sortBy = [] → ∀ rows : List Row, takeLimit limit r.items = rows.map .ok →
    ∃ result, outcome = .ok result ∧ result.rows = rows
  /-- Otherwise the first error among them. -/
  error_of_take : q.sortBy = [] → ∀ e, firstError? (takeLimit limit r.items) = some e →
    outcome = .error (.evaluation q.label e)
  /-- With sort keys: the first error of all, if there is one. -/
  error_of_items : q.sortBy ≠ [] → ∀ e, firstError? r.items = some e →
    outcome = .error (.evaluation q.label e)
  /-- Otherwise the stable sort of all rows, with the nulls in their places, up to the limit. -/
  rows_of_sort : q.sortBy ≠ [] → ∀ rows : List Row, r.items = rows.map .ok →
    ∀ order, RowOrder.resolve q.schema q.sortBy = .ok order →
      ∃ sorted result, order.StableSort rows sorted ∧ order.NullsPlaced sorted ∧
        outcome = .ok result ∧ result.rows = takeLimit limit sorted
  /-- Only a sort column that does not exist is in the way of that. -/
  error_of_keys : q.sortBy ≠ [] → ∀ rows : List Row, r.items = rows.map .ok →
    ∀ e, RowOrder.resolve r.schema q.sortBy = .error e →
      outcome = .error (.evaluation q.label e)
  /-- The record of the run counts the rows of the result. -/
  outputRows : ∀ result, outcome = .ok result → result.record.outputRows = result.rows.length

/-- The outcome of an evaluation whose output has been presented. -/
def outcomeOf (q : Query) (record : Nat → RunRecord) :
    Except Error Table → Except ExecError ResultSet
  | .error e => .error (.evaluation q.label e)
  | .ok t => .ok ⟨t, q.sortBy, record t.size⟩

/-- A presented output that conforms to the query is what the evaluation is said to give. -/
theorem presents_outcomeOf {q : Query} (hconforms : r.Conforms q.schema) {record : Nat → RunRecord}
    (hrecord : ∀ n, (record n).outputRows = n) :
    Presents q limit r (outcomeOf q record (present q.sortBy limit r)) where
  rows_of_take := by
    intro hkeys rows hrows
    have hfit : ∀ row, .ok row ∈ r.items → row.schema.fits r.schema = true :=
      fun row hrow => (hconforms.rows row hrow).fits
    obtain ⟨t, ht, rfl⟩ := exists_present_of_take hfit hrows
    rw [hkeys, ht]
    exact ⟨_, rfl, rfl⟩
  error_of_take := by
    intro hkeys e he
    rw [hkeys, present_of_take_error he]
    rfl
  error_of_items := by
    intro hkeys e he
    rw [present_of_error hkeys he]
    rfl
  rows_of_sort := by
    intro hkeys rows hrows order horder
    obtain ⟨t, hstore, rfl, hschema⟩ := exists_store (gather_eq_ok_iff.mpr hrows) fun row hrow =>
      (hconforms.rows row (hrows ▸ List.mem_map_of_mem hrow)).fits
    rw [← RowOrder.resolve_of_fits hconforms.fits, ← hschema] at horder
    obtain ⟨sorted, t', hsorted, ht', htake⟩ := exists_present_of_resolve hkeys hstore horder
    rw [ht']
    exact ⟨sorted, _, hsorted, hsorted.nullsPlaced, rfl, htake⟩
  error_of_keys := by
    intro hkeys rows hrows e he
    obtain ⟨t, hstore, rfl, hschema⟩ := exists_store (gather_eq_ok_iff.mpr hrows) fun row hrow =>
      (hconforms.rows row (hrows ▸ List.mem_map_of_mem hrow)).fits
    rw [present_of_unresolved hkeys hstore (hschema ▸ he)]
    rfl
  outputRows := by
    intro result hresult
    cases hpresent : present q.sortBy limit r with
    | error e =>
        rw [hpresent] at hresult
        simp [outcomeOf] at hresult
    | ok t =>
        rw [hpresent] at hresult
        obtain rfl := Except.ok.inj hresult
        exact hrecord t.size

variable {engine : Engine} {q : Query} {bindings : Bindings} {h : Handouts} {op : Operator}

theorem compile_eq_ok {e : RelExpr} (hcompile : engine.compile e bindings h = .ok op) :
    Operator.compile engine.settings bindings h e = .ok op := by
  unfold compile at hcompile
  cases hop : Operator.compile engine.settings bindings h e with
  | error e' =>
      rw [hop] at hcompile
      simp [Except.mapError] at hcompile
  | ok op' =>
      rw [hop] at hcompile
      exact congrArg Except.ok (Except.ok.inj hcompile)

/-- A run without ordering and limit is a run of the pipeline. -/
theorem evalUnsorted_of_compile (hcompile : engine.compile q.expr bindings h = .ok op) :
    engine.evalUnsorted q bindings h =
      ((op.run h).1.mapError (.evaluation q.label), (op.run h).2) := by
  unfold evalUnsorted
  rw [hcompile]

/-- An evaluation presents the output of a run of the pipeline. -/
theorem eval_of_compile (hcompile : engine.compile q.expr bindings h = .ok op) (clock : Clock) :
    engine.eval q bindings clock h =
      (outcomeOf q
        (RunRecord.finish (.start (Digest.ofText (op.plan h)) clock.startedMs) clock.finishedMs)
        ((op.run h).1.bind (present q.sortBy (q.limit.or engine.settings.defaultLimit))),
      (op.run h).2) := by
  unfold eval
  rw [hcompile]
  dsimp only
  cases (op.run h).1.bind (present q.sortBy (q.limit.or engine.settings.defaultLimit)) <;> rfl

/-- An evaluation leaves the record that the run without ordering and limit leaves. -/
theorem eval_snd (engine : Engine) (q : Query) (bindings : Bindings) (clock : Clock)
    (h : Handouts) :
    (engine.eval q bindings clock h).2 = (engine.evalUnsorted q bindings h).2 := by
  cases hcompile : engine.compile q.expr bindings h with
  | error e =>
      unfold eval evalUnsorted
      rw [hcompile]
  | ok op => rw [eval_of_compile hcompile, evalUnsorted_of_compile hcompile]

/-- An evaluation that succeeds presents what a run of the pipeline gives. -/
theorem exists_present_of_eval {clock : Clock} {result : ResultSet}
    (heval : (engine.eval q bindings clock h).1 = .ok result) :
    ∃ op r, Operator.compile engine.settings bindings h q.expr = .ok op ∧
      (op.run h).1 = .ok r ∧
      present q.sortBy (q.limit.or engine.settings.defaultLimit) r = .ok result.table ∧
      result.sortBy = q.sortBy := by
  cases hcompile : engine.compile q.expr bindings h with
  | error e =>
      unfold eval at heval
      rw [hcompile] at heval
      simp at heval
  | ok op =>
      rw [eval_of_compile hcompile] at heval
      cases hpresent : (op.run h).1.bind
          (present q.sortBy (q.limit.or engine.settings.defaultLimit)) with
      | error e =>
          rw [hpresent] at heval
          simp [outcomeOf] at heval
      | ok t =>
          rw [hpresent] at heval
          obtain rfl := Except.ok.inj heval
          obtain ⟨r, hrun, hpresent⟩ := bind_eq_ok_iff.mp hpresent
          exact ⟨op, r, compile_eq_ok hcompile, hrun, hpresent, rfl⟩

/-- The rows of a result are rows that a run of the pipeline yields. -/
theorem exists_run_of_eval {clock : Clock} {result : ResultSet}
    (heval : (engine.eval q bindings clock h).1 = .ok result) :
    ∃ op r, Operator.compile engine.settings bindings h q.expr = .ok op ∧
      (op.run h).1 = .ok r ∧ ∀ row ∈ result.rows, .ok row ∈ r.items := by
  obtain ⟨op, r, hcompile, hrun, hpresent, -⟩ := exists_present_of_eval heval
  exact ⟨op, r, hcompile, hrun, mem_items_of_present hpresent⟩

/-- Over checked relations the output of a run is presented. -/
theorem presents_of_run (hchecked : bindings.Checked)
    (hcompile : engine.compile q.expr bindings h = .ok op) {r : Relation}
    (hrun : (op.run h).1 = .ok r) (clock : Clock) :
    Presents q (q.limit.or engine.settings.defaultLimit) r (engine.eval q bindings clock h).1 := by
  have hconforms := Operator.conforms_of_compile hchecked (compile_eq_ok hcompile)
    (Handouts.Before.refl h) hrun
  rw [eval_of_compile hcompile, hrun]
  exact presents_outcomeOf hconforms fun _ => rfl

/-- **An evaluation is LIMIT after a stable ORDER BY over the raw output.** It hands out what the
run without ordering and limit hands out, fails where that fails, and otherwise presents its output,
over any checked relations. -/
theorem eval_presents (engine : Engine) (q : Query) {bindings : Bindings}
    (hchecked : bindings.Checked) (clock : Clock) (h : Handouts) :
    (engine.eval q bindings clock h).2 = (engine.evalUnsorted q bindings h).2 ∧
      (∀ e, (engine.evalUnsorted q bindings h).1 = .error e →
        (engine.eval q bindings clock h).1 = .error e) ∧
      ∀ r, (engine.evalUnsorted q bindings h).1 = .ok r →
        Presents q (q.limit.or engine.settings.defaultLimit) r
          (engine.eval q bindings clock h).1 := by
  refine ⟨eval_snd engine q bindings clock h, ?_⟩
  cases hcompile : engine.compile q.expr bindings h with
  | error e =>
      unfold eval evalUnsorted
      rw [hcompile]
      exact ⟨fun _ he => congrArg Except.error (Except.error.inj he),
        fun r hr => absurd hr (by simp)⟩
  | ok op =>
      rw [evalUnsorted_of_compile hcompile]
      cases hrun : (op.run h).1 with
      | error e =>
          rw [eval_of_compile hcompile, hrun]
          exact ⟨fun _ he => congrArg Except.error (Except.error.inj he),
            fun r hr => absurd hr (by simp [Except.mapError])⟩
      | ok r =>
          refine ⟨fun _ he => absurd he (by simp [Except.mapError]), fun r' hr => ?_⟩
          obtain rfl := Except.ok.inj hr
          exact presents_of_run hchecked hcompile hrun clock

/-- Two readings with a failure between them. -/
def readings : Stream :=
  let s : Schema := ⟨"readings", [⟨"level", .int32, false, .position 0⟩]⟩
  ⟨s, [.ok ⟨s, [.int32 9], rfl⟩, .error (.failed "sensor"), .ok ⟨s, [.int32 4], rfl⟩]⟩

/-- Bindings of the readings. -/
def onlyReadings : Bindings :=
  ⟨[("readings", .stream 0 readings)], List.pairwise_singleton _ _⟩

theorem checked_onlyReadings : onlyReadings.Checked := by
  refine Bindings.checked_of_entries (List.forall_mem_singleton.mpr fun row hrow => ?_)
  simp only [Input.relation, Relation.items, readings, List.mem_cons, reduceCtorEq,
    Except.ok.injEq, List.not_mem_nil, or_false, false_or] at hrow
  rcases hrow with rfl | rfl <;> exact ⟨rfl, by decide⟩

/-- A failure behind the limit is not seen, unless the readings are to be sorted. -/
theorem eval_presents_readings :
    (∃ result, (eval ⟨.default⟩ ⟨.scan readings.schema, [], some 1, none, none⟩ onlyReadings ⟨0, 0⟩
        .none).1 = .ok result ∧ result.rows.map Row.values = [[.int32 9]] ∧
        result.record.outputRows = 1) ∧
      (eval ⟨.default⟩ ⟨.scan readings.schema, [.ascending "level"], some 1, none, none⟩
        onlyReadings ⟨0, 0⟩ .none).1 =
        .error (.evaluation "RelationalValue(readings)" (.failed "sensor")) := by
  have hplain := (eval_presents ⟨.default⟩ ⟨.scan readings.schema, [], some 1, none, none⟩
    checked_onlyReadings ⟨0, 0⟩ .none).2.2 (.stream readings) rfl
  have hsorted := (eval_presents ⟨.default⟩
    ⟨.scan readings.schema, [.ascending "level"], some 1, none, none⟩
    checked_onlyReadings ⟨0, 0⟩ .none).2.2 (.stream readings) rfl
  obtain ⟨result, hresult, hrows⟩ :=
    hplain.rows_of_take rfl [⟨readings.schema, [.int32 9], rfl⟩] rfl
  refine ⟨⟨result, hresult, ?_, ?_⟩, hsorted.error_of_items (by simp) _ rfl⟩
  · rw [hrows]
    rfl
  · rw [hplain.outputRows result hresult, hrows]
    rfl

end Engine

end RelQuery
