import Mathlib.Data.List.Sublists
import RelQuery.Document
import RelQuery.Proofs.Engine.Present
import RelQuery.Proofs.Pipeline.Sound

/-!
# RelQuery.Proofs.Document.Sound

**A query document that builds cannot go wrong.**

Building a document checks all names and types there are. `Node.build_sound` follows the tree of the
document: each of its nodes is built into a sound expression, because its conditions are read with
types and it has no functions of the caller in it. `Engine.exists_present` adds the presentation of
the result, which can fail only at a sort column that does not exist. Together they say that over
stored relations that suit the declared inputs an evaluation succeeds, unless the exact total of a
column of integers leaves the range of 64 bits in a group (`Operator.Overflows`).
-/

namespace RelQuery

namespace Engine

/-! ### Presentation -/

/-- A relation that suits a schema can be presented in the order of columns of the schema. -/
theorem exists_present {r : Relation} {s : Schema} (hr : r.Suits s) {sortBy : List SortKey}
    (hkeys : ∀ k ∈ sortBy, ∃ i, s.require k.column = .ok i) (limit : Option Nat) :
    ∃ t, present sortBy limit r = .ok t := by
  by_cases hsort : sortBy = []
  · obtain ⟨rows, hitems, hrows⟩ := hr.rows
    have htake : takeLimit limit r.items = (takeLimit limit rows).map .ok := by
      rw [hitems, takeLimit_map]
    have hfit : ∀ row, .ok row ∈ r.items → row.schema.fits r.schema = true := by
      intro row hrow
      rw [hitems] at hrow
      obtain ⟨row', hmem, heq⟩ := List.mem_map.mp hrow
      obtain rfl := Except.ok.inj heq
      exact (hrows row' hmem).fits
    obtain ⟨t, ht, -⟩ := exists_present_of_take hfit htake
    exact ⟨t, hsort ▸ ht⟩
  · obtain ⟨t, hstore, hfits, -⟩ := hr.exists_store
    -- The columns are those of `s`; the stored table has them at the same positions.
    obtain ⟨order, horder⟩ := RowOrder.exists_resolve_eq_ok hkeys
    obtain ⟨-, t', -, ht', -⟩ :=
      exists_present_of_resolve hsort hstore ((RowOrder.resolve_of_fits hfits).mpr horder)
    exact ⟨t', ht'⟩

/-- A query over a sound expression is evaluated, or a sum of integers overflows in it. -/
theorem eval_of_sound (engine : Engine) {q : Query} {bindings : Bindings} {h : Handouts}
    (hsound : q.expr.Sound engine.settings bindings h)
    (hkeys : ∀ k ∈ q.sortBy, ∃ i, q.schema.require k.column = .ok i) (clock : Clock) :
    ∃ op, engine.compile q.expr bindings h = .ok op ∧
      ((∃ result, (engine.eval q bindings clock h).1 = .ok result) ∧
          (∀ column, ¬op.Overflows column h) ∨
        ∃ column, (engine.eval q bindings clock h).1 =
          .error (.evaluation q.label (.sumOverflow column)) ∧ op.Overflows column h) := by
  obtain ⟨op, hcompile, hop⟩ := hsound.compiles
  have hschema : op.schema = q.schema := Operator.compile_schema hcompile
  have hcompile : engine.compile q.expr bindings h = .ok op := by
    rw [compile, hcompile]
    rfl
  refine ⟨op, hcompile, ?_⟩
  rw [eval_of_compile hcompile]
  rcases hop h with ⟨column, hrun, hcolumn⟩ | ⟨r, hrun, hr, hnone⟩
  · rw [hrun]
    exact Or.inr ⟨column, rfl, hcolumn⟩
  · obtain ⟨t, ht⟩ := exists_present (hschema ▸ hr) hkeys (q.limit.or engine.settings.defaultLimit)
    rw [hrun]
    simp only [Except.bind, ht]
    exact Or.inl ⟨⟨_, rfl⟩, hnone⟩

end Engine

namespace Document

/-! ### Building -/

/-- A declared input is a schema under its own name, with columns of different names. -/
theorem buildInput_eq_ok {input : String × List ColumnDecl} {p : String × Schema}
    (h : buildInput input = .ok p) : p.2.name = p.1 ∧ p.2.names.Nodup := by
  obtain ⟨columns, -, h⟩ := bind_eq_ok_iff.mp h
  obtain ⟨schema, hschema, h⟩ := bind_eq_ok_iff.mp h
  obtain rfl := pure_eq_ok_iff.mp h
  refine ⟨?_, Schema.nodup_of_ofColumns hschema⟩
  rw [Schema.ofColumns_eq_ok hschema]

/-- Each declared input is bound to a stored relation that suits it. -/
def Bound (inputs : List (String × Schema)) (bindings : Bindings) : Prop :=
  ∀ p ∈ inputs, ∃ input, bindings.get? p.1 = some input ∧ input.Suits p.2

variable {inputs : List (String × Schema)} {settings : Settings} {bindings : Bindings}
  {h : Handouts}

theorem Node.build_join_eq_ok {left right : Node} {type : String} {pairs : List (String × String)}
    {e : RelExpr} (hbuild : (join left right type pairs).build inputs = .ok e) :
    ∃ type' l r, left.build inputs = .ok l ∧ right.build inputs = .ok r ∧
      l.joinWith r type' (if pairs.isEmpty then .cross else .equi pairs) = .ok e := by
  rw [Node.build] at hbuild
  split at hbuild
  · obtain ⟨type', -, hbuild⟩ := bind_eq_ok_iff.mp hbuild
    obtain ⟨l, hl, hbuild⟩ := bind_eq_ok_iff.mp hbuild
    obtain ⟨r, hr, hbuild⟩ := bind_eq_ok_iff.mp hbuild
    exact ⟨type', l, r, hl, hr, hbuild⟩
  · simp [bind, Except.bind] at hbuild

/-- The nodes of a document are built into sound expressions. -/
theorem Node.build_sound
    (hinputs : ∀ p ∈ inputs, p.2.name = p.1 ∧ p.2.names.Nodup) (hbound : Bound inputs bindings) :
    ∀ {node : Node} {e : RelExpr}, node.build inputs = .ok e → e.Sound settings bindings h
  | scan relation, e, hbuild => by
      rw [Node.build] at hbuild
      split at hbuild
      · rename_i schema hlookup
        obtain rfl := Except.ok.inj hbuild
        obtain ⟨before, after, hmem, -⟩ := List.lookup_eq_some_iff.mp hlookup
        -- The compiler looks for the name of the schema, which is that of the declaration.
        have hmem : (relation, schema) ∈ inputs := by simp [hmem]
        obtain ⟨hname, hnodup⟩ := hinputs _ hmem
        obtain ⟨input, hget, hinput⟩ := hbound _ hmem
        exact RelExpr.sound_scan hnodup (hname ▸ hget) hinput
      · simp at hbuild
  | filter input expr, e, hbuild => by
      obtain ⟨e₀, he₀, hbuild⟩ := bind_eq_ok_iff.mp hbuild
      obtain ⟨p, hp, hbuild⟩ := bind_eq_ok_iff.mp hbuild
      exact (build_sound hinputs hbound he₀).filter (Predicate.ofText_typed hp) hbuild
  | project input columns, e, hbuild => by
      obtain ⟨e₀, he₀, hbuild⟩ := bind_eq_ok_iff.mp hbuild
      exact (build_sound hinputs hbound he₀).mapBy (by simp) hbuild
  | rename input relation columns, e, hbuild => by
      obtain ⟨e₀, he₀, hbuild⟩ := bind_eq_ok_iff.mp hbuild
      exact (build_sound hinputs hbound he₀).mapBy (by simp) hbuild
  | aggregate input keys aggregates, e, hbuild => by
      obtain ⟨aggregates', -, hbuild⟩ := bind_eq_ok_iff.mp hbuild
      obtain ⟨e₀, he₀, hbuild⟩ := bind_eq_ok_iff.mp hbuild
      exact (build_sound hinputs hbound he₀).aggregate hbuild
  | join left right type pairs, e, hbuild => by
      obtain ⟨type', l, r, hl, hr, hbuild⟩ := build_join_eq_ok hbuild
      refine (build_sound hinputs hbound hl).joinWith (build_sound hinputs hbound hr) ?_ hbuild
      -- Neither condition that a document can ask for is a function.
      intro p
      split <;> simp

/-- A query is ordered by columns of its result. -/
theorem withSort_eq_ok {q q' : Query} {keys : List SortKey} (hsort : q.withSort keys = .ok q') :
    q' = { q with sortBy := keys } ∧ ∀ k ∈ keys, ∃ i, q.schema.require k.column = .ok i := by
  obtain ⟨_, hkeys, hsort⟩ := bind_eq_ok_iff.mp hsort
  obtain rfl := pure_eq_ok_iff.mp hsort
  refine ⟨rfl, fun k hk => ?_⟩
  obtain ⟨i, hi, -⟩ := bind_eq_ok_iff.mp (ok_of_forM hkeys k hk)
  exact ⟨i, hi⟩

variable {d : Document} {built : Built}

/-- **A query document that builds cannot go wrong.** Over stored relations of checked rows that can
stand where its inputs are declared, its query compiles for every engine. It is then evaluated,
unless in one of its groupings a sum of integers overflows; exactly in this case it fails, and with
this error. -/
theorem eval_build (hbuild : d.build = .ok built) (engine : Engine) {bindings : Bindings}
    (hbound : Bound built.inputs bindings) (clock : Clock) (h : Handouts) :
    ∃ op, engine.compile built.query.expr bindings h = .ok op ∧
      ((∃ result, (engine.eval built.query bindings clock h).1 = .ok result) ∧
          (∀ column, ¬op.Overflows column h) ∨
        ∃ column, (engine.eval built.query bindings clock h).1 =
          .error (.evaluation built.query.label (.sumOverflow column)) ∧
            op.Overflows column h) := by
  obtain ⟨inputs, hinputs, hbuild⟩ := bind_eq_ok_iff.mp hbuild
  obtain ⟨e, he, hbuild⟩ := bind_eq_ok_iff.mp hbuild
  obtain ⟨q, hq, hbuild⟩ := bind_eq_ok_iff.mp hbuild
  obtain rfl := pure_eq_ok_iff.mp hbuild
  obtain ⟨rfl, hkeys⟩ := withSort_eq_ok hq
  have hinputs : ∀ p ∈ inputs, p.2.name = p.1 ∧ p.2.names.Nodup := by
    intro p hp
    obtain ⟨input, -, hinput⟩ := exists_of_mem_mapM hinputs hp
    exact buildInput_eq_ok hinput
  exact engine.eval_of_sound (Node.build_sound hinputs hbound he) hkeys clock

/-! ### Totals of sales -/

/-- Items with their names, not in ascending order. -/
def items : Table :=
  let s : Schema := ⟨"items",
    [⟨"id", .int64, false, .position 0⟩, ⟨"name", .text, false, .position 1⟩]⟩
  ⟨s, [⟨s, [.int64 2, .text "ink"], rfl⟩, ⟨s, [.int64 1, .text "pen"], rfl⟩], by decide⟩

theorem checked_items : items.Checked := by
  unfold Table.Checked
  simp only [items, List.forall_mem_cons]
  exact ⟨rfl, rfl, by simp⟩

/-- Sales of items, one of them of none. -/
def sales : Table :=
  let s : Schema := ⟨"sales",
    [⟨"item", .int64, true, .position 0⟩, ⟨"amount", .int64, false, .position 1⟩]⟩
  ⟨s, [⟨s, [.int64 2, .int64 20], rfl⟩, ⟨s, [.null, .int64 30], rfl⟩], by decide⟩

theorem checked_sales : sales.Checked := by
  unfold Table.Checked
  simp only [sales, List.forall_mem_cons]
  exact ⟨rfl, rfl, by simp⟩

/-- The total of the large sales for each item, the greatest first. -/
def totals : Document where
  inputs := ⟨[("items", [⟨"id", "Int64", false⟩, ⟨"name", "Utf8", false⟩]),
    ("sales", [⟨"item", "Int64", true⟩, ⟨"amount", "Int64", false⟩])], by decide⟩
  query := .aggregate
    (.join (.filter (.scan "sales") "amount > 10") (.scan "items") "full" [("item", "id")])
    ["name"] [⟨"sum", some "amount", some "total"⟩]
  sortBy := ["-total"]
  limit := none
  description := none

/-- The items as if they were in ascending order. -/
def declaredItems : SortedTable :=
  ⟨items, [.ascending "id"], ⟨[(0, false)]⟩, rfl⟩

/-- Bisection goes past the item that comes first. -/
theorem lookup_declaredItems : declaredItems.lookup [.int64 2] = .ok (2, 2) := by
  have hmiddle : (declaredItems.compareAt [.int64 2] 1 == .lt) = true := rfl
  have hstart : boundary (fun i => declaredItems.compareAt [.int64 2] i == .lt) 0 2 = 2 := by
    rw [boundary, if_pos (by decide)]
    dsimp only
    rw [if_pos hmiddle, boundary, if_neg (by decide)]
  have hstop : boundary (fun i => declaredItems.compareAt [.int64 2] i == .eq) 2 2 = 2 := by
    rw [boundary, if_neg (by decide)]
  show Except.ok (boundary _ 0 2, boundary _ (boundary _ 0 2) 2) = _
  rw [hstart, hstop]

/-- The document builds. Its filter text has to be cut into clauses by hand, as `Text.pieces` does
not reduce. -/
theorem exists_build_totals : ∃ built j g, totals.build = .ok built ∧
    built.inputs = [("items", items.schema), ("sales", sales.schema)] ∧
    built.query.expr = .group (.join (.select (.scan sales.schema)
      (.compare "amount" .gt (.int64 10))) (.scan items.schema) j) g ∧
    Join.plan sales.schema items.schema .fullOuter (.equi [("item", "id")]) = .ok j ∧
    Grouping.plan j.schema ["name"] [⟨.sum, some "amount", "total"⟩] = .ok g ∧
    built.query.sortBy = [⟨"total", true⟩] ∧ built.query.limit = none := by
  have hinputs : totals.inputs.entries.mapM buildInput =
      .ok [("items", items.schema), ("sales", sales.schema)] := rfl
  have hread : Predicate.ofText sales.schema "amount > 10" =
      .ok (.compare "amount" .gt (.int64 10)) := by
    unfold Predicate.ofText Predicate.clauses
    rw [Text.pieces_of_cut?_eq_none rfl]
    rfl
  have hfilter : (Node.filter (.scan "sales") "amount > 10").build
      [("items", items.schema), ("sales", sales.schema)] =
      .ok (.select (.scan sales.schema) (.compare "amount" .gt (.int64 10))) := by
    show (Predicate.ofText sales.schema "amount > 10" >>= RelExpr.filter (.scan sales.schema)) = _
    rw [hread]
    rfl
  obtain ⟨j, hj⟩ : ∃ j, Join.plan sales.schema items.schema .fullOuter
      (.equi [("item", "id")]) = .ok j := ⟨_, rfl⟩
  obtain ⟨g, hg⟩ : ∃ g, Grouping.plan j.schema ["name"] [⟨.sum, some "amount", "total"⟩] =
      .ok g := by
    cases hj
    exact ⟨_, rfl⟩
  have hquery : totals.query.build [("items", items.schema), ("sales", sales.schema)] =
      .ok (.group (.join (.select (.scan sales.schema) (.compare "amount" .gt (.int64 10)))
        (.scan items.schema) j) g) := by
    rw [totals, Node.build, Node.build, hfilter]
    cases hj
    cases hg
    rfl
  refine ⟨⟨⟨_, [⟨"total", true⟩], none, none, none⟩, _⟩, j, g, ?_, rfl, rfl, hj, hg, rfl, rfl⟩
  unfold build
  rw [hinputs]
  show (totals.query.build [("items", items.schema), ("sales", sales.schema)] >>= _) = _
  rw [hquery]
  cases hj
  cases hg
  rfl

/-- Bindings of the sales and of the items in a declared order. -/
def itemsAndSales (s : SortedTable) : Bindings :=
  ⟨[("items", .sorted s), ("sales", .table sales)],
    List.pairwise_pair.mpr (show "items" < "sales" by decide)⟩

/-- The pipeline below the grouping, as it is compiled with the default settings. -/
def joinOfSales (j : Join) : Operator :=
  .join (.filter (.source "sales" sales.schema (.table sales)) (.compare "amount" .gt (.int64 10)))
    (.source "items" items.schema (.sorted declaredItems)) j .sortedLookup false

/-- The rows of the join: no sale meets its item. -/
def joinedSales (s : Schema) (hwidth : 4 = s.width) : List Row := [
  ⟨s, [.int64 2, .int64 20, .null, .null], hwidth⟩,
  ⟨s, [.null, .int64 30, .null, .null], hwidth⟩,
  ⟨s, [.null, .null, .int64 2, .text "ink"], hwidth⟩,
  ⟨s, [.null, .null, .int64 1, .text "pen"], hwidth⟩]

section

variable {j : Join} {g : Grouping}
  (hj : Join.plan sales.schema items.schema .fullOuter (.equi [("item", "id")]) = .ok j)
  (hg : Grouping.plan j.schema ["name"] [⟨.sum, some "amount", "total"⟩] = .ok g)

include hj in
/-- The sale of ink is looked up in vain, and the sale of nothing is not looked up. -/
theorem exists_run_joinOfSales : ∃ hwidth r, ((joinOfSales j).run .none).1 = .ok r ∧
    r.items = (joinedSales j.schema hwidth).map .ok := by
  have hink : (Matcher.lookup declaredItems [0]).candidates
      ⟨sales.schema, [.int64 2, .int64 20], rfl⟩ = .ok (2, 2) := lookup_declaredItems
  have hnothing : (Matcher.lookup declaredItems [0]).candidates
      ⟨sales.schema, [.null, .int64 30], rfl⟩ = .ok (0, 0) := rfl
  cases hj
  refine ⟨rfl, .stream ⟨_, (JoinCursor.start _ (.lookup declaredItems [0]) [
    .ok ⟨sales.schema, [.int64 2, .int64 20], rfl⟩,
    .ok ⟨sales.schema, [.null, .int64 30], rfl⟩]).drain⟩, rfl, ?_⟩
  rw [Relation.items, JoinCursor.drain_start]
  simp only [Join.due, List.flatMap_cons, Join.leftDue, hink, hnothing, List.any_cons,
    Matcher.reaches]
  rfl

include hj hg

/-- The totals of any of the amounts are in range. -/
theorem not_overflows_joinOfSales (column : String) :
    ¬(Operator.group (joinOfSales j) g).Overflows column .none := by
  obtain ⟨hwidth, r, hrun, hitems⟩ := exists_run_joinOfSales hj
  rintro ((h | h) | ⟨r', hrun', a, ha, i, hsum, key, first, hfirst, hexceeds⟩)
  · exact h
  · exact h
  · obtain rfl := Except.ok.inj (hrun.symm.trans hrun')
    rw [hitems, okRows_map_ok] at hfirst
    rw [Grouping.aggregates_of_plan hg, List.mem_singleton] at ha
    subst ha
    obtain rfl := Option.some.inj hsum.input
    have hi : 1 = i := by
      have hposition := hsum.position
      cases hj
      cases hg
      exact Except.ok.inj hposition
    subst hi
    have hamounts : (g.members first key).map (fun row => row.cell 1) ∈
        [.int64 20, .int64 30, .null, .null].sublists :=
      List.mem_sublists.mpr ((List.filter_sublist.trans hfirst.sublist).map _)
    have hrange : ∀ amounts ∈ [Value.int64 20, .int64 30, .null, .null].sublists,
        Int64.minValue.toInt ≤ Accumulator.total amounts ∧
          Accumulator.total amounts ≤ Int64.maxValue.toInt := by decide
    exact hexceeds (hrange _ hamounts)

/-- Sales without an item are one group, the first of all. -/
theorem values_of_run_joinOfSales {r : Relation}
    (hrun : ((Operator.group (joinOfSales j) g).run .none).1 = .ok r) :
    ∃ t, r = .table t ∧ t.schema = g.schema ∧
      t.rows.map Row.values = [[.null, .int64 50], [.text "ink", .null], [.text "pen", .null]] := by
  obtain ⟨hwidth, r', hrun', hitems⟩ := exists_run_joinOfSales hj
  rw [Operator.run_group_fst, hrun'] at hrun
  obtain ⟨t, hgroup, rfl⟩ := map_eq_ok_iff.mp hrun
  rw [hitems] at hgroup
  have hrows : ∀ row ∈ joinedSales j.schema hwidth, j.schema.Holds row.values := by
    cases hj
    intro row hrow
    simp only [joinedSales, List.mem_cons, List.not_mem_nil, or_false] at hrow
    rcases hrow with rfl | rfl | rfl | rfl <;> exact (Row.checkAll_eq_ok_iff rfl).mp rfl
  have hvalues := Grouping.values_of_run hg hrows hgroup
  refine ⟨t, rfl, (Grouping.suits_of_run hgroup).1, ?_⟩
  cases hj
  cases hg
  exact (Except.ok.inj hvalues).symm

/-- These rows are in the order of the query: nulls come last in a descending column. -/
theorem rows_of_sort_totals {t : Table} {s : SortedTable} (hschema : t.schema = g.schema)
    (hvalues : t.rows.map Row.values =
      [[.null, .int64 50], [.text "ink", .null], [.text "pen", .null]])
    (hsort : SortedTable.sort t [⟨"total", true⟩] = .ok s) : s.base.rows = t.rows := by
  obtain ⟨hbase, hkeys, -⟩ := SortedTable.sort_eq_ok hsort
  have horder : s.order = ⟨[(1, true)]⟩ := by
    have hresolved := s.resolved
    rw [hbase, hkeys, Table.sortBy, hschema] at hresolved
    cases hj
    cases hg
    exact (Except.ok.inj hresolved).symm
  have hordered : (t.rows.map Row.values).Pairwise fun vs ws =>
      ((RowOrder.directed true (vs[1]?.getD .null) (ws[1]?.getD .null)).then .eq != .gt) =
        true := by
    rw [hvalues]
    decide
  rw [hbase, horder]
  exact List.mergeSort_of_pairwise (List.pairwise_map.mp hordered)

end

/-- The totals are evaluated also over items that are falsely declared to be sorted. -/
theorem eval_build_of_false_declaration :
    ∃ built s result, totals.build = .ok built ∧
      SortedTable.declare items [.ascending "id"] = .ok s ∧ s.isOrdered = false ∧
      (Engine.eval ⟨.default⟩ built.query (itemsAndSales s) ⟨0, 0⟩ .none).1 = .ok result ∧
      result.rows.map Row.values =
        [[.null, .int64 50], [.text "ink", .null], [.text "pen", .null]] := by
  obtain ⟨built, j, g, hbuild, hinputs, hexpr, hj, hg, hsort, hlimit⟩ := exists_build_totals
  have hitems : Input.Suits items.schema (.sorted declaredItems) := ⟨by decide, checked_items⟩
  have hsales : Input.Suits sales.schema (.table sales) := ⟨by decide, checked_sales⟩
  have hbound : Bound built.inputs (itemsAndSales declaredItems) := by
    rw [hinputs]
    unfold Bound
    simp only [List.forall_mem_cons]
    exact ⟨⟨.sorted declaredItems, rfl, hitems⟩, ⟨.table sales, rfl, hsales⟩, by simp⟩
  obtain ⟨op, hcompile, houtcome⟩ := eval_build hbuild ⟨.default⟩ hbound ⟨0, 0⟩ .none
  have hop : Operator.compile .default (itemsAndSales declaredItems) .none built.query.expr =
      .ok (.group (joinOfSales j) g) := by
    rw [hexpr]
    rfl
  obtain rfl := Except.ok.inj ((Engine.compile_eq_ok hcompile).symm.trans hop)
  obtain ⟨⟨result, hresult⟩, -⟩ | ⟨column, -, hcolumn⟩ := houtcome
  · refine ⟨built, declaredItems, result, hbuild, rfl, rfl, hresult, ?_⟩
    obtain ⟨op, r, hcompile, hrun, hpresent, -⟩ := Engine.exists_present_of_eval hresult
    obtain rfl := Except.ok.inj (hcompile.symm.trans hop)
    obtain ⟨t, rfl, hschema, hvalues⟩ := values_of_run_joinOfSales hj hg hrun
    rw [hsort, hlimit] at hpresent
    obtain ⟨hkeys, -⟩ | ⟨-, t', s, hstore, hsorted, -, hrows⟩ := Engine.present_eq_ok hpresent
    · simp at hkeys
    · obtain rfl := Except.ok.inj hstore
      rw [ResultSet.rows, hrows, rows_of_sort_totals hj hg hschema hvalues hsorted]
      exact hvalues
  · exact absurd hcolumn (not_overflows_joinOfSales hj hg column)

end Document

end RelQuery
