import RelQuery.Proofs.Pipeline.Compile
import RelQuery.Proofs.Pipeline.Variant

/-!
# RelQuery.Proofs.Pipeline.Answer

The **answer of an expression** does not depend on how it is executed.

`RelExpr.answer` is the whole way from an expression to its rows: it is compiled over bound
relations, run once, and drained. Compiling a built expression over two sets of bindings that
present the same tables gives two variants of one pipeline (`compile_variant`), so that
`Operator.run_variant` applies to them.
-/

namespace RelQuery

/-- The rows that an expression yields over bound relations. -/
def RelExpr.answer (settings : Settings) (bindings : Bindings) (h : Handouts) (e : RelExpr) :
    Except Error (List Row) := do
  let op ← Operator.compile settings bindings h e
  let r ← (op.run h).1
  Stream.gather r.items

/-- A leaf is bound to a table in the first bindings, and in the second ones to a presentation of
it that is not a stream that is gone. -/
def Rebound (verify : Bool) (h : Handouts) (bindings bindings' : Bindings) (leaf : Schema) : Prop :=
  ∃ t input, bindings.get? leaf.name = some (.table t) ∧ bindings'.get? leaf.name = some input ∧
    input.Presents verify t ∧ ∀ ticket, input.ticket? = some ticket → h.isSpent ticket = false

theorem Input.Presents.schema? {verify : Bool} {t : Table} {input : Input}
    (hpresents : input.Presents verify t) {h : Handouts}
    (hunspent : ∀ ticket, input.ticket? = some ticket → h.isSpent ticket = false) :
    input.schema? h = some t.schema := by
  cases hpresents with
  | table => rfl
  | sorted hsort =>
      obtain ⟨hbase, -⟩ := SortedTable.sort_eq_ok hsort
      rw [Input.schema?, hbase]
      rfl
  | declared hdeclare _ =>
      obtain ⟨hbase, -⟩ := SortedTable.declare_eq_ok hdeclare
      rw [Input.schema?, hbase]
  | stream ticket =>
      simp only [Input.schema?, hunspent ticket rfl, Bool.false_eq_true, if_false]
      rfl

namespace Operator

variable {settings settings' : Settings} {bindings bindings' : Bindings} {h h' : Handouts}

/-- An expression that compiles over tables, with joins as nested loops, compiles over any
presentation of these tables, and to a variant of the same pipeline. -/
theorem compile_variant {e : RelExpr} (hbuilt : e.Built)
    (hplain : settings.strategy = .nestedLoop) : e.isGroupFree = true →
    (∀ leaf ∈ e.leaves, Rebound settings'.verifySorted h' bindings bindings' leaf) →
      ∀ {a : Operator}, compile settings bindings h e = .ok a →
        ∃ b, compile settings' bindings' h' e = .ok b ∧
          Variant settings'.verifySorted a b := by
  induction hbuilt with
  | scan leaf =>
      intro _ hbound a hcompile
      obtain ⟨t, input, hget, hget', hpresents, hunspent⟩ := hbound leaf (by simp)
      obtain ⟨input₀, hget₀, rfl, hfits⟩ := compileLeaf_eq_ok hcompile
      obtain rfl := Option.some.inj (hget.symm.trans hget₀)
      have hfits := hfits t.schema rfl
      exact ⟨_, compileLeaf_of_fits hget' (hpresents.schema? hunspent) hfits,
        Variant.source hfits hpresents⟩
  | filter _ hmake ih =>
      intro hfree hbound a hcompile
      obtain ⟨-, rfl⟩ := RelExpr.filter_eq_ok hmake
      obtain ⟨a, ha, rfl⟩ := compile_select_eq_ok hcompile
      obtain ⟨b, hb, hvariant⟩ := ih hfree (by simpa using hbound) ha
      exact ⟨_, by rw [compile, hb]; rfl, Variant.filter hvariant⟩
  | mapBy _ hmake ih =>
      intro hfree hbound a hcompile
      obtain ⟨m, -, rfl⟩ := RelExpr.mapBy_eq_ok hmake
      obtain ⟨a, ha, rfl⟩ := compile_map_eq_ok hcompile
      obtain ⟨b, hb, hvariant⟩ := ih hfree (by simpa using hbound) ha
      exact ⟨_, by rw [compile, hb]; rfl, Variant.map hvariant⟩
  | aggregate _ hmake _ =>
      intro hfree
      obtain ⟨g, -, rfl⟩ := RelExpr.aggregate_eq_ok hmake
      simp [RelExpr.isGroupFree] at hfree
  | joinWith _ _ hmake ihl ihr =>
      intro hfree hbound a hcompile
      obtain ⟨j, hplan, rfl⟩ := RelExpr.joinWith_eq_ok hmake
      obtain ⟨a, b, ha, hb, rfl⟩ := compile_join_eq_ok hcompile
      simp only [RelExpr.isGroupFree, Bool.and_eq_true] at hfree
      simp only [RelExpr.leaves_join, List.forall_mem_append] at hbound
      obtain ⟨a', ha', hva⟩ := ihl hfree.1 hbound.1 ha
      obtain ⟨b', hb', hvb⟩ := ihr hfree.2 hbound.2 hb
      have hright := (Join.plan_eq_ok hplan).2.1
      refine ⟨_, by rw [compile, ha', hb']; rfl, ?_⟩
      rw [hplain]
      exact Variant.join (fun _ => Join.resolved_of_plan hplan)
        ((compile_schema hb').trans hright.symm) hva hvb

end Operator

namespace RelExpr

/-- **The physical plan does not change the answer.** Take an expression without groups that is
evaluated over tables, with joins as nested loops. If that succeeds, so does its evaluation with any
settings over other presentations of the same tables, as long as no stream is scanned twice, and it
yields the same rows in some order. -/
theorem answer_perm {e : RelExpr} (hbuilt : e.Built) (hfree : e.isGroupFree = true)
    {settings settings' : Settings} (hplain : settings.strategy = .nestedLoop)
    {bindings bindings' : Bindings} {h h' : Handouts}
    (hbound : ∀ leaf ∈ e.leaves, Rebound settings'.verifySorted h' bindings bindings' leaf)
    (honce : (e.ticketsIn bindings').Nodup) {rows : List Row}
    (hrows : e.answer settings bindings h = .ok rows) :
    ∃ rows', e.answer settings' bindings' h' = .ok rows' ∧ rows'.Perm rows := by
  obtain ⟨a, ha, hrows⟩ := bind_eq_ok_iff.mp hrows
  obtain ⟨r, hr, hrows⟩ := bind_eq_ok_iff.mp hrows
  obtain ⟨b, hb, hvariant⟩ := Operator.compile_variant hbuilt hplain hfree hbound ha
  have hfresh : b.Fresh h' := by
    rw [← Operator.compile_tickets hb] at honce
    refine ⟨honce, fun ticket hticket => ?_⟩
    rw [Operator.compile_tickets hb] at hticket
    obtain ⟨leaf, hleaf, hticket⟩ := List.mem_filterMap.mp hticket
    obtain ⟨t, input, -, hget, -, hunspent⟩ := hbound leaf hleaf
    rw [hget] at hticket
    exact hunspent ticket hticket
  obtain ⟨r', rows', hr', hdelivers, hperm⟩ := Operator.run_variant hvariant hr hrows hfresh
  refine ⟨rows', ?_, hperm⟩
  rw [answer, hb]
  simp only [bind, Except.bind, hr']
  exact hdelivers.rows_eq

/-- Orders, one of them without a customer. -/
def orders : Table :=
  let s : Schema := ⟨"orders", [⟨"customer", .int64, true, .position 0⟩]⟩
  ⟨s, [⟨s, [.int64 1], rfl⟩, ⟨s, [.null], rfl⟩], by decide⟩

/-- Customers, not in ascending order. -/
def customers : Table :=
  let s : Schema := ⟨"customers", [⟨"id", .int64, false, .position 0⟩]⟩
  ⟨s, [⟨s, [.int64 2], rfl⟩, ⟨s, [.int64 1], rfl⟩], by decide⟩

/-- Bindings of the customers and of the orders as a stream. -/
def streamedOrders (input : Input) : Bindings :=
  ⟨[("customers", input), ("orders", .stream 0 orders.stream)],
    List.pairwise_pair.mpr (show "customers" < "orders" by decide)⟩

/-- A full outer join, once of two tables by a nested loop, and once of a stream and a table that is
falsely declared to be sorted, by lookups with verification. -/
theorem answer_perm_of_false_declaration :
    ∃ e s rows,
      (scan orders.schema).joinWith (scan customers.schema) .fullOuter
        (.equi [("customer", "id")]) = .ok e ∧
      SortedTable.declare customers [.ascending "id"] = .ok s ∧ s.isOrdered = false ∧
      e.answer ⟨0, .sortedLookup, true, none⟩ (streamedOrders (.sorted s)) .none = .ok rows ∧
      (rows.map Row.values).Perm [[.int64 1, .int64 1], [.null, .null], [.null, .int64 2]] := by
  obtain ⟨e, hjoin⟩ : ∃ e, (scan orders.schema).joinWith (scan customers.schema) .fullOuter
      (.equi [("customer", "id")]) = .ok e := ⟨_, rfl⟩
  obtain ⟨s, hdeclare, hfalse⟩ : ∃ s, SortedTable.declare customers [.ascending "id"] = .ok s ∧
      s.isOrdered = false := ⟨_, rfl, rfl⟩
  let tables : Bindings := ⟨[("customers", .table customers), ("orders", .table orders)],
    List.pairwise_pair.mpr (show "customers" < "orders" by decide)⟩
  have hplain : (e.answer ⟨0, .nestedLoop, false, none⟩ tables .none).map (·.map Row.values) =
      .ok [[.int64 1, .int64 1], [.null, .null], [.null, .int64 2]] := by
    cases hjoin
    show (Stream.gather
      (JoinCursor.start _ (.scan customers) (orders.rows.map .ok)).drain).map _ = _
    rw [JoinCursor.drain_start]
    rfl
  obtain ⟨rows, hrows, hvalues⟩ := map_eq_ok_iff.mp hplain
  have hleaves : e.leaves = [orders.schema, customers.schema] := by
    cases hjoin
    simp
  have hbound : ∀ leaf ∈ e.leaves,
      Rebound true .none tables (streamedOrders (.sorted s)) leaf := by
    rw [hleaves]
    simp only [List.forall_mem_cons]
    refine ⟨⟨orders, _, rfl, rfl, Input.Presents.stream 0, fun _ _ => rfl⟩,
      ⟨customers, _, rfl, rfl, Input.Presents.declared hdeclare (Or.inl rfl), fun _ _ => rfl⟩, ?_⟩
    simp
  have honce : (e.ticketsIn (streamedOrders (.sorted s))).Nodup := by
    rw [ticketsIn, hleaves]
    exact List.pairwise_singleton _ 0
  have hbuilt := Built.joinWith (Built.scan orders.schema) (Built.scan customers.schema) hjoin
  obtain ⟨rows', hrows', hperm⟩ := @answer_perm e hbuilt (by cases hjoin; rfl)
    ⟨0, .nestedLoop, false, none⟩ ⟨0, .sortedLookup, true, none⟩ rfl _ _ _ _ hbound honce _ hrows
  exact ⟨e, s, rows', hjoin, hdeclare, hfalse, hrows', hvalues ▸ hperm.map Row.values⟩

end RelExpr

end RelQuery
