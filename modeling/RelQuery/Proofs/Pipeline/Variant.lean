import RelQuery.Proofs.Join.Cursor
import RelQuery.Proofs.Join.Nested
import RelQuery.Proofs.Pipeline.Run

/-!
# RelQuery.Proofs.Pipeline.Variant

**The physical plan does not change the answer.**

The rows of a table can be bound in other ways (`Input.Presents`): sorted, declared to be sorted, or
as a stream. `Operator.Variant` relates a pipeline over tables whose joins are nested loops to one
with the same operators over other presentations of the same rows, whatever its strategy. The heart
is `run_variant`, an induction along the pipeline: where the first yields rows without an error, the
second yields the same rows in some order. Every operator preserves that, a join because its items
are those of a nested loop with any faithful matcher, and these do not depend on the order of rows.
-/

namespace RelQuery

/-- The ways in which the rows of a table can be bound. An order may be declared without sorting, if
it holds or is verified. -/
inductive Input.Presents (verify : Bool) (t : Table) : Input → Prop where
  | table : Presents verify t (.table t)
  /-- As a table that has been sorted. -/
  | sorted {keys : List SortKey} {s : SortedTable} :
      SortedTable.sort t keys = .ok s → Presents verify t (.sorted s)
  /-- As a table that is declared to be sorted. -/
  | declared {keys : List SortKey} {s : SortedTable} :
      SortedTable.declare t keys = .ok s → verify = true ∨ s.isOrdered = true →
        Presents verify t (.sorted s)
  | stream (ticket : Nat) : Presents verify t (.stream ticket t.stream)

theorem Table.delivers {t : Table} {verify : Bool} {s : Schema} (hfits : t.schema.fits s = true) :
    (Relation.table t).Delivers verify s t.rows where
  rows_eq := Stream.gather_map_ok t.rows
  fits := hfits
  rows_fit := t.rows_fit
  trusted := by simp

theorem SortedTable.delivers {t : SortedTable} {verify : Bool} {s : Schema}
    (hfits : t.base.schema.fits s = true) (htrust : verify = true ∨ t.Ordered) :
    (Relation.sorted t).Delivers verify s t.base.rows where
  rows_eq := Stream.gather_map_ok t.base.rows
  fits := hfits
  rows_fit := t.base.rows_fit
  trusted := by
    intro t' ht
    obtain rfl := Relation.sorted.inj ht
    exact htrust

/-- A presentation of a table is handed out, if it is not a stream that is gone, and yields the rows
of the table in some order. -/
theorem Input.Presents.take {verify : Bool} {t : Table} {input : Input}
    (hpresents : input.Presents verify t) {s : Schema} (hfits : t.schema.fits s = true)
    {h : Handouts} (hunspent : ∀ ticket, input.ticket? = some ticket → h.isSpent ticket = false)
    (name : String) :
    ∃ r rows, (input.take name h).1 = .ok r ∧ r.Delivers verify s rows ∧ rows.Perm t.rows := by
  cases hpresents with
  | table => exact ⟨_, _, rfl, t.delivers hfits, List.Perm.refl _⟩
  | @sorted keys st hsort =>
      obtain ⟨hbase, -, hordered⟩ := SortedTable.sort_eq_ok hsort
      refine ⟨_, _, rfl, st.delivers (hbase ▸ hfits) (Or.inr hordered), ?_⟩
      rw [hbase]
      exact List.mergeSort_perm t.rows _
  | @declared keys st hdeclare htrust =>
      obtain ⟨hbase, -⟩ := SortedTable.declare_eq_ok hdeclare
      refine ⟨_, _, rfl,
        st.delivers (hbase ▸ hfits) (htrust.imp_right SortedTable.isOrdered_iff.mp), ?_⟩
      rw [hbase]
  | stream ticket =>
      refine ⟨.stream t.stream, t.rows, ?_, ⟨Stream.gather_map_ok t.rows, hfits, t.rows_fit, ?_⟩,
        List.Perm.refl _⟩
      · simp only [Input.take, hunspent ticket rfl, Bool.false_eq_true, if_false]
      · simp

namespace Operator

/-- The second pipeline has the operators of the first. The leaves of the first are tables and its
joins are nested loops; those of the second present the same tables and follow any strategy. -/
inductive Variant (verify : Bool) : Operator → Operator → Prop where
  /-- Two presentations of one table, which fits its leaf. -/
  | source {name : String} {s : Schema} {t : Table} {input : Input} :
      t.schema.fits s = true → input.Presents verify t →
        Variant verify (source name s (.table t)) (source name s input)
  | filter {a b : Operator} {p : Predicate} :
      Variant verify a b → Variant verify (filter a p) (filter b p)
  | map {a b : Operator} {m : RowMap} : Variant verify a b → Variant verify (map a m) (map b m)
  | join {a b a' b' : Operator} {j : Join} {strategy : JoinStrategy} {believe : Bool} :
      (∀ k, j.keys? = some k → k.Resolved j.left j.right) → b'.schema = j.right →
      Variant verify a a' → Variant verify b b' →
        Variant verify (join a b j .nestedLoop believe) (join a' b' j strategy verify)

/-! ### Items without an error come from items without an error -/

theorem error_mem_filterMap {p : Predicate} {items : List Item} {e : Error}
    (h : .error e ∈ items) : .error e ∈ items.filterMap (filterItem p) :=
  List.mem_filterMap.mpr ⟨.error e, h, rfl⟩

theorem error_mem_map {m : RowMap} {items : List Item} {e : Error} (h : .error e ∈ items) :
    .error e ∈ items.map (mapItem m) :=
  List.mem_map.mpr ⟨.error e, h, rfl⟩

/-- If an operator passes errors on and yields rows only, its input has yielded rows only. -/
theorem exists_rows_of_passes {items items' : List Item} {rows : List Row}
    (hpass : ∀ e, .error e ∈ items → .error e ∈ items') (h : items' = rows.map .ok) :
    ∃ rows₀ : List Row, items = rows₀.map .ok :=
  ⟨okRows items, eq_map_okRows fun e he => error_not_mem_map_ok (h ▸ hpass e he)⟩

theorem schema_of_apply {m : RowMap} {row out : Row} (h : m.apply row = .ok out) :
    out.schema = m.schema := by
  obtain ⟨values, -, h⟩ := bind_eq_ok_iff.mp h
  exact (Row.ofValues_eq_ok_iff.mp h).2.1

theorem schema_of_combine {j : Join} {left right out : Row} (h : j.combine left right = .ok out) :
    out.schema = j.schema :=
  (Row.ofValues_eq_ok_iff.mp h).2.1

/-! ### What the operators deliver -/

variable {verify : Bool}

/-- A stream of items that are some rows in another order delivers these rows, if they fit. -/
theorem exists_delivers {s : Schema} {items : List Item} {rows : List Row}
    (hperm : items.Perm (rows.map .ok)) (hfit : ∀ row, .ok row ∈ items → row.schema.fits s = true) :
    ∃ rows', (Relation.stream ⟨s, items⟩).Delivers verify s rows' ∧ rows'.Perm rows := by
  obtain ⟨rows', rfl, hrows'⟩ := exists_rows_of_perm hperm
  refine ⟨rows', ⟨Stream.gather_map_ok rows', s.fits_refl, fun row hrow => ?_, by simp⟩, hrows'⟩
  exact hfit row (List.mem_map_of_mem hrow)

/-- A condition keeps the same rows, whatever their order. -/
theorem exists_filter_delivers {p : Predicate} {s : Schema} {r : Relation}
    {rows₀ rows₁ rows : List Row} (hr : r.Delivers verify s rows₁) (hperm : rows₁.Perm rows₀)
    (hitems : (rows₀.map .ok).filterMap (filterItem p) = rows.map .ok) :
    ∃ rows', (Relation.stream ⟨s, r.items.filterMap (filterItem p)⟩).Delivers verify s rows' ∧
      rows'.Perm rows := by
  rw [gather_eq_ok_iff.mp hr.rows_eq]
  refine exists_delivers (hitems ▸ (hperm.map _).filterMap _) fun row hrow => ?_
  obtain ⟨item, hitem, hkept⟩ := List.mem_filterMap.mp hrow
  obtain ⟨row₁, hrow₁, rfl⟩ := List.mem_map.mp hitem
  -- A row that is kept is the row that came in.
  have heq : row₁ = row := by
    unfold filterItem at hkept
    dsimp only at hkept
    split at hkept
    · exact Except.ok.inj (Option.some.inj hkept)
    · simp at hkept
    · simp at hkept
  exact heq ▸ Schema.fits_trans (hr.rows_fit row₁ hrow₁) hr.fits

/-- A map makes the same rows, whatever their order. -/
theorem exists_map_delivers {m : RowMap} {s : Schema} {r : Relation} {rows₀ rows₁ rows : List Row}
    (hr : r.Delivers verify s rows₁) (hperm : rows₁.Perm rows₀)
    (hitems : (rows₀.map .ok).map (mapItem m) = rows.map .ok) :
    ∃ rows', (Relation.stream ⟨m.schema, r.items.map (mapItem m)⟩).Delivers verify m.schema rows' ∧
      rows'.Perm rows := by
  rw [gather_eq_ok_iff.mp hr.rows_eq]
  refine exists_delivers (hitems ▸ (hperm.map _).map _) fun row hrow => ?_
  obtain ⟨item, hitem, hmapped⟩ := List.mem_map.mp hrow
  obtain ⟨row₁, -, rfl⟩ := List.mem_map.mp hitem
  rw [schema_of_apply hmapped]
  exact Schema.fits_refl _

/-- The rows that a join yields have its schema. -/
theorem schema_of_mem_nested {j : Join} {lefts rights : List Row} {row : Row}
    (hmem : .ok row ∈ j.nested lefts rights) : row.schema = j.schema := by
  rcases List.mem_append.mp hmem with hmem | hmem
  · obtain ⟨left, -, hmem⟩ := List.mem_flatMap.mp hmem
    unfold Join.nestedLeft at hmem
    dsimp only at hmem
    split at hmem
    · exact schema_of_combine (List.mem_singleton.mp hmem).symm
    · obtain ⟨right, -, hitem⟩ := List.mem_filterMap.mp hmem
      unfold Join.pairItem at hitem
      split at hitem
      · simp at hitem
      · exact schema_of_combine (Option.some.inj hitem)
      · simp at hitem
  · unfold Join.nestedRight at hmem
    split at hmem
    · obtain ⟨right, -, hitem⟩ := List.mem_filterMap.mp hmem
      split at hitem
      · simp at hitem
      · exact schema_of_combine (Option.some.inj hitem)
    · simp at hmem

/-- A nested loop that yields rows without an error has had rows on both sides, and yields what it
is defined to yield. -/
theorem nested_of_run {j : Join} {believe : Bool} {l r : Relation} {m : Matcher} {rows : List Row}
    (hm : matcherFor j .nestedLoop believe r = .ok m)
    (hrows : Stream.gather (JoinCursor.start j m l.items).drain = .ok rows) :
    ∃ lefts rights : List Row, Stream.gather l.items = .ok lefts ∧
      Stream.gather r.items = .ok rights ∧ j.nested lefts rights = rows.map .ok := by
  rw [Matcher.matcherFor_nestedLoop, Matcher.ofScan, map_eq_ok_iff] at hm
  obtain ⟨t, hstore, rfl⟩ := hm
  rw [JoinCursor.drain_start, gather_untilError, gather_eq_ok_iff] at hrows
  obtain ⟨lefts, hlefts⟩ := exists_rows_of_passes (fun _ => Join.error_mem_due) hrows
  refine ⟨lefts, t.rows, gather_eq_ok_iff.mpr hlefts, gather_of_store hstore, ?_⟩
  rw [← hrows, hlefts, Matcher.due_of_faithful (Matcher.faithful_scan t j)]
  rfl

/-- A join with any strategy makes the same rows as the nested loop, whatever the order of the rows
on either side. -/
theorem exists_join_delivers {j : Join} (strategy : JoinStrategy) {s : Schema} {l r : Relation}
    {lefts lefts' rights rights' rows : List Row}
    (hresolved : ∀ k, j.keys? = some k → k.Resolved j.left j.right)
    (hl : l.Delivers verify s lefts') (hr : r.Delivers verify j.right rights')
    (hlperm : lefts'.Perm lefts) (hrperm : rights'.Perm rights)
    (hnested : j.nested lefts rights = rows.map .ok) :
    ∃ m rows', matcherFor j strategy verify r = .ok m ∧
      (Relation.stream ⟨j.schema, (JoinCursor.start j m l.items).drain⟩).Delivers
        verify j.schema rows' ∧ rows'.Perm rows := by
  obtain ⟨m, hm, hfaithful, hmperm⟩ := Matcher.exists_matcherFor strategy hresolved hr
  have hitems : (j.nested lefts' m.rows).Perm (rows.map .ok) :=
    hnested ▸ Join.nested_perm hlperm (hmperm.trans hrperm)
  have hdrain : (JoinCursor.start j m l.items).drain = j.nested lefts' m.rows := by
    obtain ⟨rows', hrows', -⟩ := exists_rows_of_perm hitems
    rw [JoinCursor.drain_start, gather_eq_ok_iff.mp hl.rows_eq, Matcher.due_of_faithful hfaithful,
      hrows', untilError_map_ok]
  have hfit : ∀ row, .ok row ∈ j.nested lefts' m.rows → row.schema.fits j.schema = true := by
    intro row hrow
    rw [schema_of_mem_nested hrow]
    exact Schema.fits_refl _
  obtain ⟨rows', hdelivers, hperm⟩ := exists_delivers hitems hfit
  exact ⟨m, rows', hm, hdrain ▸ hdelivers, hperm⟩

/-! ### Runs -/

variable {a b : Operator}

theorem Fresh.of_tickets {h : Handouts} (hfresh : a.Fresh h) (htickets : a.tickets = b.tickets) :
    b.Fresh h :=
  ⟨htickets ▸ hfresh.nodup, htickets ▸ hfresh.unspent⟩

/-- Where a pipeline over tables with nested loops yields rows without an error, a variant of it
yields the same rows in some order. -/
theorem run_variant (hv : Variant verify a b) : ∀ {h h' : Handouts} {r : Relation}
    {rows : List Row}, (a.run h).1 = .ok r → Stream.gather r.items = .ok rows → b.Fresh h' →
      ∃ r' rows', (b.run h').1 = .ok r' ∧ r'.Delivers verify b.schema rows' ∧
        rows'.Perm rows := by
  induction hv with
  | @source name s t input hfits hpresents =>
      intro h h' r rows hrun hrows hfresh
      obtain rfl := Except.ok.inj hrun
      obtain rfl := Except.ok.inj ((Stream.gather_map_ok t.rows).symm.trans hrows)
      refine hpresents.take hfits (fun ticket hticket => ?_) name
      exact hfresh.unspent ticket (by simp [tickets, hticket])
  | @filter a b p hv ih =>
      intro h h' r rows hrun hrows hfresh
      rw [run_filter_fst, map_eq_ok_iff] at hrun
      obtain ⟨r₀, hrun, rfl⟩ := hrun
      have hitems := gather_eq_ok_iff.mp hrows
      obtain ⟨rows₀, hrows₀⟩ := exists_rows_of_passes (fun _ => error_mem_filterMap) hitems
      obtain ⟨r₁, rows₁, hrun₁, hr₁, hperm⟩ :=
        ih hrun (gather_eq_ok_iff.mpr hrows₀) (hfresh.of_tickets rfl)
      obtain ⟨rows', hdelivers, hperm'⟩ := exists_filter_delivers hr₁ hperm (hrows₀ ▸ hitems)
      exact ⟨_, rows', by rw [run_filter_fst, hrun₁]; rfl, hdelivers, hperm'⟩
  | @map a b m hv ih =>
      intro h h' r rows hrun hrows hfresh
      rw [run_map_fst, map_eq_ok_iff] at hrun
      obtain ⟨r₀, hrun, rfl⟩ := hrun
      have hitems := gather_eq_ok_iff.mp hrows
      obtain ⟨rows₀, hrows₀⟩ := exists_rows_of_passes (fun _ => error_mem_map) hitems
      obtain ⟨r₁, rows₁, hrun₁, hr₁, hperm⟩ :=
        ih hrun (gather_eq_ok_iff.mpr hrows₀) (hfresh.of_tickets rfl)
      obtain ⟨rows', hdelivers, hperm'⟩ := exists_map_delivers hr₁ hperm (hrows₀ ▸ hitems)
      exact ⟨_, rows', by rw [run_map_fst, hrun₁]; rfl, hdelivers, hperm'⟩
  | @join a b a' b' j strategy believe hresolved hright hva hvb iha ihb =>
      intro h h' r rows hrun hrows hfresh
      obtain ⟨l, r₀, m, hl, hr, hm, rfl⟩ := run_join_eq_ok hrun
      obtain ⟨lefts, rights, hlefts, hrights, hnested⟩ := nested_of_run hm hrows
      obtain ⟨l', lefts', hl', hldelivers, hlperm⟩ := iha hl hlefts hfresh.left
      obtain ⟨r', rights', hr', hrdelivers, hrperm⟩ := ihb hr hrights hfresh.right
      obtain ⟨m', rows', hm', hdelivers, hperm⟩ :=
        exists_join_delivers strategy hresolved hldelivers (hright ▸ hrdelivers) hlperm hrperm
          hnested
      refine ⟨_, rows', ?_, hdelivers, hperm⟩
      rw [run_join_fst, hl']
      simp only [bind, Except.bind, hr', hm']
      rfl

end Operator

end RelQuery
