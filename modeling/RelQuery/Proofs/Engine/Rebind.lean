import RelQuery.Proofs.Engine.Present
import RelQuery.Proofs.Join.Lookup
import RelQuery.Proofs.Relation.Range

/-!
# RelQuery.Proofs.Engine.Rebind

**A result that is bound as an input does not lie about its order.**

`ResultSet.asInput` declares a sorted result to be sorted, without looking at its rows. That it is
rests on three things. The rows of a result are those of a sorted table, and cutting them to a limit
leaves a prefix that is sorted too (`ordered_of_present`). The sort columns stand at the same
positions in the schema of the result as in that of the query, which it fits (`fits_of_run`). And a
table that is declared to be sorted by these columns compares its rows as the sort did.

So the order of the input can be believed: an equi-join that looks rows up in it, whether or not it
verifies the order, joins exactly the rows of the result (`Relation.JoinsAs`). `Input.Rebinds` says
all of this of an input, and `Engine.rebinds_of_eval` proves it for every evaluation that succeeds.
-/

namespace RelQuery

/-! ### The schema of a run -/

/-- What a run gives can stand where the schema of the expression is expected, whatever the rows of
the bound relations are. -/
theorem Operator.fits_of_run {settings : Settings} {bindings : Bindings} {h h' : Handouts}
    {e : RelExpr} {op : Operator} (hcompile : compile settings bindings h e = .ok op)
    (hbefore : h.Before h') {r : Relation} (hrun : (op.run h').1 = .ok r) :
    r.schema.fits e.schema = true := by
  rw [← compile_schema hcompile]
  cases e with
  | scan leaf =>
      obtain ⟨input, -, rfl, hfits⟩ := compileLeaf_eq_ok hcompile
      obtain ⟨rfl, hunspent⟩ := Input.take_eq_ok hrun
      -- The stream is there at the run, so it was there to be compared when it was compiled.
      refine hfits _ (Input.schema?_eq_some fun ticket hticket => ?_)
      have hthere := hunspent ticket hticket
      rw [Bool.eq_false_iff] at hthere ⊢
      exact mt (hbefore ticket) hthere
  | select input p =>
      obtain ⟨a, -, rfl⟩ := compile_select_eq_ok hcompile
      obtain ⟨r', -, rfl⟩ := map_eq_ok_iff.mp (run_filter_fst (a := a) p ▸ hrun)
      exact Schema.fits_refl _
  | map input m =>
      obtain ⟨a, -, rfl⟩ := compile_map_eq_ok hcompile
      obtain ⟨r', -, rfl⟩ := map_eq_ok_iff.mp (run_map_fst (a := a) m ▸ hrun)
      exact Schema.fits_refl _
  | group input g =>
      obtain ⟨a, -, rfl⟩ := compile_group_eq_ok hcompile
      rw [run_group_fst] at hrun
      obtain ⟨r', -, hrun⟩ := bind_eq_ok_iff.mp hrun
      obtain ⟨t, hgroups, rfl⟩ := map_eq_ok_iff.mp hrun
      show t.schema.fits g.schema = true
      rw [(Grouping.suits_of_run hgroups).1]
      exact Schema.fits_refl _
  | join left right j =>
      obtain ⟨a, b, -, -, rfl⟩ := compile_join_eq_ok hcompile
      obtain ⟨l, r', m, -, -, -, rfl⟩ := run_join_eq_ok hrun
      exact Schema.fits_refl _

/-! ### Joins that believe an order -/

/-- An equi-join that looks its right-hand rows up in the relation joins these rows, whether it
verifies a declared order or believes it. Its lookups find exactly those that match, and it yields
what comparing every left-hand row with each of them yields. -/
def Relation.JoinsAs (r : Relation) (rows : List Row) : Prop :=
  ∀ (left right : Schema) (type : JoinType) (pairs : List (String × String)) (j : Join)
    (verify : Bool), Join.plan left right type (.equi pairs) = .ok j → r.schema.fits right = true →
      ∃ k m, j.keys? = some k ∧ Operator.matcherFor j .sortedLookup verify r = .ok m ∧
        m.Exact k rows ∧
        ∀ lefts : List Row,
          (JoinCursor.start j m (lefts.map .ok)).drain = untilError (j.nested lefts m.rows)

/-- A planned equi-join has keys. -/
theorem Join.exists_keys_of_plan {left right : Schema} {type : JoinType} {j : Join}
    {pairs : List (String × String)} (hplan : plan left right type (.equi pairs) = .ok j) :
    ∃ k, j.keys? = some k := by
  obtain ⟨-, -, -, hrule, -⟩ := plan_eq_ok hplan
  obtain ⟨k, -, hrule⟩ := bind_eq_ok_iff.mp hrule
  exact ⟨k, by rw [keys?, ← pure_eq_ok_iff.mp hrule]⟩

/-- So it is for a stored relation whose declared order, if it has one, holds. -/
theorem Relation.joinsAs_of_store {r : Relation} {t : Table} (hstore : r.store = .ok t)
    (hordered : ∀ s, r = .sorted s → s.Ordered) : r.JoinsAs t.rows := by
  intro left right type pairs j verify hplan hfits
  obtain ⟨k, hkeys⟩ := Join.exists_keys_of_plan hplan
  obtain ⟨-, rfl, -⟩ := Join.plan_eq_ok hplan
  have hresolved := fun k hk => Join.resolved_of_plan hplan (k := k) hk
  have htrust : Matcher.Trustworthy k verify r :=
    Matcher.trustworthy_of_declared fun s hs => Or.inr (hordered s hs)
  have htable : t.schema.fits j.right = true := schema_of_store hstore ▸ hfits
  obtain ⟨m, hm, hexact⟩ := Matcher.exists_ofLookup (hresolved k hkeys) htrust hstore htable
  obtain ⟨m', hm', hfaithful, -⟩ :
      ∃ m', Operator.matcherFor j .sortedLookup verify r = .ok m' ∧ m'.Faithful j ∧
        m'.rows.Perm t.rows :=
    Matcher.exists_matcherFor_of_store hresolved
      (fun k' hk' _ => Option.some.inj (hkeys.symm.trans hk') ▸ htrust) hstore htable
  have hlookup : Operator.matcherFor j .sortedLookup verify r = Matcher.ofLookup r k verify := by
    unfold Operator.matcherFor
    rw [hkeys]
  obtain rfl : m = m' := Except.ok.inj (hm.symm.trans (hlookup.symm.trans hm'))
  refine ⟨k, m, hkeys, hm', hexact, fun lefts => ?_⟩
  rw [JoinCursor.drain_start, Matcher.due_of_faithful hfaithful]

/-! ### Results as inputs -/

/-- The input hands out the result of a query, and does not lie about its order. -/
structure Input.Rebinds (input : Input) (q : Query) (result : ResultSet) : Prop where
  /-- It gives the same relation whenever it is asked for it, and is never used up. -/
  take_eq : ∀ name h, input.take name h = (.ok input.relation, h)
  schema_eq : input.relation.schema = result.schema
  /-- It can be bound where rows of the query's schema are expected. -/
  fits : result.schema.fits q.schema = true
  /-- A pass over it yields the rows of the result in their order. -/
  items_eq : input.relation.items = result.rows.map .ok
  /-- It declares an order if the query has one. -/
  sorted_iff : (∃ t, input = .sorted t) ↔ q.sortBy ≠ []
  /-- This is the order of the query, at the same positions, and verification finds it to hold. -/
  order_eq : ∀ t, input = .sorted t →
    t.keys = q.sortBy ∧ RowOrder.resolve q.schema q.sortBy = .ok t.order ∧ t.isOrdered = true
  /-- An equi-join can believe it. -/
  joinsAs : input.relation.JoinsAs result.rows

namespace Engine

variable {r : Relation} {sortBy : List SortKey} {limit : Option Nat} {t : Table}

theorem schema_of_present (hpresent : present sortBy limit r = .ok t) : t.schema = r.schema := by
  rcases present_eq_ok hpresent with ⟨-, hschema, -⟩ | ⟨-, t', s, hstore, hsort, hschema, -⟩
  · exact hschema
  · obtain ⟨hbase, -⟩ := SortedTable.sort_eq_ok hsort
    rw [hschema, hbase]
    show t'.schema = r.schema
    exact schema_of_store hstore

/-- Rows that are presented by sort keys are in the order of the keys, also where they are cut. -/
theorem ordered_of_present (hkeys : sortBy ≠ []) (hpresent : present sortBy limit r = .ok t) :
    ∃ order, RowOrder.resolve t.schema sortBy = .ok order ∧
      t.rows.Pairwise fun a b => (order.compare a b).isLE = true := by
  rcases present_eq_ok hpresent with ⟨hnone, -⟩ | ⟨-, t', s, -, hsort, hschema, hrows⟩
  · exact absurd hnone hkeys
  · obtain ⟨-, hsortkeys, hordered⟩ := SortedTable.sort_eq_ok hsort
    refine ⟨s.order, ?_, ?_⟩
    · rw [hschema, ← hsortkeys]
      exact s.resolved
    · rw [hrows]
      exact hordered.sublist (takeLimit_sublist limit s.base.rows)

variable {engine : Engine} {q : Query} {bindings : Bindings} {clock : Clock} {h : Handouts}
variable {result : ResultSet}

/-- A result that has not been sorted is a table. -/
theorem rebinds_table (hfits : result.schema.fits q.schema = true) (hkeys : q.sortBy = []) :
    (Input.table result.table).Rebinds q result where
  take_eq _ _ := rfl
  schema_eq := rfl
  fits := hfits
  items_eq := rfl
  sorted_iff := iff_of_false (by simp) (by simp [hkeys])
  order_eq t ht := by simp at ht
  joinsAs := Relation.joinsAs_of_store (r := .table result.table) rfl (by simp)

/-- A result that has been sorted is a table that is declared to be sorted, and is. -/
theorem rebinds_sorted (hfits : result.schema.fits q.schema = true) (hkeys : q.sortBy ≠ [])
    {s : SortedTable} (hbase : s.base = result.table) (hsortkeys : s.keys = q.sortBy)
    (hresolve : RowOrder.resolve q.schema q.sortBy = .ok s.order) (hordered : s.Ordered) :
    (Input.sorted s).Rebinds q result where
  take_eq _ _ := rfl
  schema_eq := congrArg Table.schema hbase
  fits := hfits
  items_eq := congrArg (fun t : Table => t.rows.map Except.ok) hbase
  sorted_iff := iff_of_true ⟨s, rfl⟩ hkeys
  order_eq t ht := by
    obtain rfl := Input.sorted.inj ht
    exact ⟨hsortkeys, hresolve, SortedTable.isOrdered_iff.mpr hordered⟩
  joinsAs := by
    have hjoins := Relation.joinsAs_of_store (r := .sorted s) rfl fun s' hs' =>
      Relation.sorted.inj hs' ▸ hordered
    rw [hbase] at hjoins
    exact hjoins

/-- **A result that is bound as an input does not lie about its order.** Whatever a query is, its
sort keys, its limit, the bindings and the settings: if it can be evaluated, its result can be bound
as an input, which hands out the rows of the result and, if it declares an order, declares that of
the query, in which these rows are. -/
theorem rebinds_of_eval (heval : (engine.eval q bindings clock h).1 = .ok result) :
    ∃ input, result.asInput = .ok input ∧ input.Rebinds q result := by
  obtain ⟨op, r, hcompile, hrun, hpresent, hsortBy⟩ := exists_present_of_eval heval
  have hfits : result.schema.fits q.schema = true := by
    show result.table.schema.fits q.schema = true
    rw [schema_of_present hpresent]
    exact Operator.fits_of_run hcompile (Handouts.Before.refl h) hrun
  by_cases hkeys : q.sortBy = []
  · refine ⟨.table result.table, ?_, rebinds_table hfits hkeys⟩
    rw [ResultSet.asInput, hsortBy, hkeys]
    rfl
  · obtain ⟨order, hresolve, hordered⟩ := ordered_of_present hkeys hpresent
    obtain ⟨s, hdeclare⟩ := SortedTable.exists_declare_eq_ok hresolve
    obtain ⟨hbase, hsortkeys⟩ := SortedTable.declare_eq_ok hdeclare
    have horder : s.order = order := by
      refine SortedTable.order_eq_of_resolve ?_
      rw [hbase, hsortkeys]
      exact hresolve
    refine ⟨.sorted s, ?_, rebinds_sorted hfits hkeys hbase hsortkeys ?_ ?_⟩
    · rw [ResultSet.asInput, hsortBy, if_neg (mt List.isEmpty_iff.mp hkeys), hdeclare]
      rfl
    · rw [horder]
      exact (RowOrder.resolve_of_fits hfits).mp hresolve
    · rw [SortedTable.Ordered, hbase, horder]
      exact hordered

/-- Ships that have arrived, with their loads; a load may be open. -/
def arrivals : Table :=
  let s : Schema := ⟨"arrivals",
    [⟨"ship", .text, false, .position 0⟩, ⟨"load", .int32, true, .position 1⟩]⟩
  ⟨s, [⟨s, [.text "tern", .int32 7], rfl⟩, ⟨s, [.text "gull", .null], rfl⟩,
    ⟨s, [.text "auk", .int32 7], rfl⟩], by decide⟩

/-- Berths, with the load that each of them takes. -/
def berths : Schema :=
  ⟨"berths", [⟨"berth", .int32, false, .position 0⟩, ⟨"capacity", .int32, false, .position 1⟩]⟩

/-- The two heaviest arrivals, by a list of keys that repeats a column. -/
def heaviest : Query :=
  ⟨.scan arrivals.schema, [⟨"load", true⟩, ⟨"ship", false⟩, ⟨"load", false⟩], some 2, none, none⟩

/-- Bindings of the arrivals. -/
def onlyArrivals : Bindings :=
  ⟨[("arrivals", .table arrivals)], List.pairwise_singleton _ _⟩

theorem checked_onlyArrivals : onlyArrivals.Checked := by
  refine Bindings.checked_of_entries (List.forall_mem_singleton.mpr fun row hrow => ?_)
  simp only [Input.relation, Relation.items, Table.stream, arrivals, List.map_cons, List.map_nil,
    List.mem_cons, Except.ok.injEq, List.not_mem_nil, or_false] at hrow
  rcases hrow with rfl | rfl | rfl <;> exact ⟨rfl, by decide⟩

/-- The heaviest arrivals are a sorted input, in which berths look up ships by their load. -/
theorem rebinds_of_eval_heaviest :
    ∃ result t j k m, (eval ⟨.default⟩ heaviest onlyArrivals ⟨0, 0⟩ .none).1 = .ok result ∧
      result.rows.length = 2 ∧ result.asInput = .ok (.sorted t) ∧ t.keys = heaviest.sortBy ∧
      t.isOrdered = true ∧
      Join.plan berths arrivals.schema .inner (.equi [("capacity", "load")]) = .ok j ∧
      Operator.matcherFor j .sortedLookup false (.sorted t) = .ok m ∧ m.Exact k result.rows := by
  have hpresents := @presents_of_run ⟨.default⟩ heaviest onlyArrivals .none _ checked_onlyArrivals
    rfl _ rfl ⟨0, 0⟩
  obtain ⟨sorted, result, hsorted, -, heval, hrows⟩ :=
    hpresents.rows_of_sort (by simp [heaviest]) arrivals.rows rfl _ rfl
  have hlength : result.rows.length = 2 := by
    rw [hrows]
    show (sorted.take 2).length = 2
    rw [List.length_take, hsorted.perm.length_eq]
    rfl
  obtain ⟨input, hinput, hrebinds⟩ := rebinds_of_eval heval
  obtain ⟨t, rfl⟩ := hrebinds.sorted_iff.mpr (by simp [heaviest])
  obtain ⟨hkeys, -, hordered⟩ := hrebinds.order_eq t rfl
  obtain ⟨j, hplan⟩ : ∃ j, Join.plan berths arrivals.schema .inner (.equi [("capacity", "load")]) =
      .ok j := ⟨_, rfl⟩
  obtain ⟨k, m, -, hm, hexact, -⟩ :=
    hrebinds.joinsAs _ _ _ _ j false hplan (hrebinds.schema_eq ▸ hrebinds.fits)
  exact ⟨result, t, j, k, m, heval, hlength, hinput, hkeys, hordered, hplan, hm, hexact⟩

end Engine

end RelQuery
