import RelQuery.Proofs.Grouping.Overflow
import RelQuery.Proofs.Join.Cursor
import RelQuery.Proofs.Join.Total
import RelQuery.Proofs.Pipeline.Built
import RelQuery.Proofs.Pipeline.Compile
import RelQuery.Proofs.Predicate.Typed
import RelQuery.Proofs.Row.Named

/-!
# RelQuery.Proofs.Pipeline.Sound

**Pipelines that cannot go wrong.**

A pipeline is `Operator.Sound` if each of its runs yields rows that suit its schema, unless a sum of
integers overflows in one of its groupings (`Operator.Overflows`). Stored relations whose rows have
been checked are sound sources, and every operator that was planned for its input makes a sound
pipeline of sound ones. `RelExpr.Sound` says the same of an expression before it is compiled, and
that it can be; it is kept by the functions that build expressions, as long as no function of the
caller is involved.
-/

namespace RelQuery

/-- Every row has been made by `Row.ofValues`, which checks its values. -/
def Table.Checked (t : Table) : Prop :=
  ∀ row ∈ t.rows, Row.ofValues row.schema row.values = .ok row

/-- The input is a stored relation of checked rows that can stand where the schema is expected. A
declared order need not hold. -/
def Input.Suits (s : Schema) : Input → Prop
  | table t => t.schema.fits s = true ∧ t.Checked
  | sorted t => t.base.schema.fits s = true ∧ t.base.Checked
  | stream _ _ => False

/-- The relation can stand where the schema is expected, and yields rows that suit it, without an
error. -/
structure Relation.Suits (r : Relation) (s : Schema) : Prop where
  fits : r.schema.fits s = true
  rows : ∃ rows : List Row, r.items = rows.map .ok ∧ ∀ row ∈ rows, row.Suits r.schema

theorem Table.suits_of_checked {t : Table} (h : t.Checked) : ∀ row ∈ t.rows, row.Suits t.schema :=
  fun row hrow => (Row.suits_of_ofValues (h row hrow)).of_fits (t.rows_fit row hrow)

/-- The rows of a relation suit every schema that it suits. -/
theorem Relation.Suits.exists_rows {r : Relation} {s : Schema} (h : r.Suits s) :
    ∃ rows : List Row, r.items = rows.map .ok ∧ ∀ row ∈ rows, row.Suits s := by
  obtain ⟨rows, hitems, hrows⟩ := h.rows
  exact ⟨rows, hitems, fun row hrow => (hrows row hrow).of_fits h.fits⟩

/-- A stream of rows that suit its schema. -/
theorem Relation.suits_stream {s : Schema} {items : List Item}
    (h : ∃ rows : List Row, items = rows.map .ok ∧ ∀ row ∈ rows, row.Suits s) :
    (Relation.stream ⟨s, items⟩).Suits s :=
  ⟨s.fits_refl, h⟩

/-- A relation that suits a schema is stored with rows that suit it. -/
theorem Relation.Suits.exists_store {r : Relation} {s : Schema} (h : r.Suits s) :
    ∃ t, r.store = .ok t ∧ t.schema.fits s = true ∧ ∀ row ∈ t.rows, row.Suits s := by
  obtain ⟨rows, hitems, hrows⟩ := h.rows
  obtain ⟨t, hstore, rfl, hschema⟩ := RelQuery.exists_store (gather_eq_ok_iff.mpr hitems)
    fun row hrow => (hrows row hrow).fits
  exact ⟨t, hstore, hschema ▸ h.fits, fun row hrow => (hrows row hrow).of_fits h.fits⟩

namespace Operator

/-- A run of the pipeline that starts from this record comes to a grouping in which a sum of
integers over the column overflows, in the rows that its input yields. -/
def Overflows (column : String) : Operator → Handouts → Prop
  | source .., _ => False
  | filter input _, h | map input _, h => input.Overflows column h
  | group input g, h => input.Overflows column h ∨
      ∃ r, (input.run h).1 = .ok r ∧ g.Overflows (okRows r.items) column
  | join left right .., h => left.Overflows column h ∨ right.Overflows column (left.run h).2

/-- A run fails exactly if a sum of integers overflows, and with that error; otherwise it yields
rows that suit the schema. -/
def Sound (op : Operator) : Prop :=
  ∀ h, (∃ column, (op.run h).1 = .error (.sumOverflow column) ∧ op.Overflows column h) ∨
    ∃ r, (op.run h).1 = .ok r ∧ r.Suits op.schema ∧ ∀ column, ¬op.Overflows column h

variable {a b : Operator}

theorem sound_source {name : String} {s : Schema} {input : Input} (hinput : input.Suits s) :
    (source name s input).Sound := by
  intro h
  cases input with
  | table t =>
      exact Or.inr
        ⟨.table t, rfl, ⟨hinput.1, t.rows, rfl, Table.suits_of_checked hinput.2⟩, fun _ => id⟩
  | sorted t =>
      exact Or.inr ⟨.sorted t, rfl,
        ⟨hinput.1, t.base.rows, rfl, Table.suits_of_checked hinput.2⟩, fun _ => id⟩
  | stream ticket s' => exact hinput.elim

/-- An operator that makes a stream of the items of its input is sound if it makes rows that suit
its output of rows that suit its input. -/
theorem Sound.stream (ha : a.Sound) {op : Operator} {f : List Item → List Item}
    (hrun : ∀ h, (op.run h).1 = (a.run h).1.map fun r => .stream ⟨op.schema, f r.items⟩)
    (hoverflows : ∀ column h, op.Overflows column h ↔ a.Overflows column h)
    (hf : ∀ rows : List Row, (∀ row ∈ rows, row.Suits a.schema) →
      ∀ item ∈ f (rows.map .ok), ∃ row, item = .ok row ∧ row.Suits op.schema) : op.Sound := by
  intro h
  simp only [hrun, hoverflows]
  rcases ha h with ⟨column, ha, hcolumn⟩ | ⟨r, ha, hr, hnone⟩
  · rw [ha]
    exact Or.inl ⟨column, rfl, hcolumn⟩
  · obtain ⟨rows, hitems, hrows⟩ := hr.exists_rows
    rw [ha]
    refine Or.inr ⟨_, rfl, Relation.suits_stream (exists_rows_of_forall ?_), hnone⟩
    rw [hitems]
    exact hf rows hrows

/-- A typed condition keeps rows that suit the input. -/
theorem Sound.filter (ha : a.Sound) {p : Predicate} (hp : p.Typed a.schema) :
    (filter a p).Sound := by
  refine ha.stream (fun _ => run_filter_fst p) (fun _ _ => Iff.rfl) fun rows hrows item hitem => ?_
  obtain ⟨_, hmem, hkept⟩ := List.mem_filterMap.mp hitem
  obtain ⟨row, hrow, rfl⟩ := List.mem_map.mp hmem
  obtain ⟨keep, hkeep⟩ := hp.exists_eval (hrows row hrow)
  simp only [filterItem, hkeep] at hkept
  cases keep with
  | false => simp at hkept
  | true => exact ⟨row, (Option.some.inj hkept).symm, hrows row hrow⟩

/-- A planned projection or rename makes rows that suit its output. -/
theorem Sound.map (ha : a.Sound) {m : RowMap} {form : MapForm}
    (hform : ∀ items, form ≠ .extension items) (hm : RowMap.plan a.schema form = .ok m) :
    (map a m).Sound := by
  refine ha.stream (fun _ => run_map_fst m) (fun _ _ => Iff.rfl) fun rows hrows item hitem => ?_
  obtain ⟨_, hmem, rfl⟩ := List.mem_map.mp hitem
  obtain ⟨row, hrow, rfl⟩ := List.mem_map.mp hmem
  exact RowMap.exists_apply hform hm (hrows row hrow)

/-- A planned grouping makes rows that suit its output, or a sum of integers overflows in it. -/
theorem Sound.group (ha : a.Sound) {g : Grouping} {keys : List String}
    {aggregates : List Aggregate} (hg : Grouping.plan a.schema keys aggregates = .ok g) :
    (group a g).Sound := by
  intro h
  rw [run_group_fst]
  rcases ha h with ⟨column, hrun, hcolumn⟩ | ⟨r, hrun, hr, hnone⟩
  · exact Or.inl ⟨column, by rw [hrun]; rfl, Or.inl hcolumn⟩
  · obtain ⟨rows, hitems, hrows⟩ := hr.exists_rows
    have hokRows : okRows r.items = rows := by rw [hitems, okRows_map_ok]
    rw [hrun]
    simp only [bind, Except.bind, hitems]
    rcases Grouping.exists_run hg hrows with
      ⟨column, hgroup, hcolumn⟩ | ⟨t, hgroup, hnone', hschema, ht⟩
    · exact Or.inl ⟨column, by rw [hgroup]; rfl, Or.inr ⟨r, hrun, hokRows ▸ hcolumn⟩⟩
    · refine Or.inr ⟨.table t, by rw [hgroup]; rfl, ⟨?_, t.rows, rfl, ?_⟩, ?_⟩
      · show t.schema.fits g.schema = true
        rw [hschema]
        exact Schema.fits_refl _
      · show ∀ row ∈ t.rows, row.Suits t.schema
        rw [hschema]
        exact ht
      · rintro column (hcolumn | ⟨r', hrun', hcolumn⟩)
        · exact hnone column hcolumn
        · obtain rfl := Except.ok.inj (hrun.symm.trans hrun')
          exact hnone' column (hokRows ▸ hcolumn)

/-- A join of relations that suit it finds a matcher, and rows that suit its output are due. A
declared order of the right-hand side may be false: then other pairs of rows are joined, but they
are rows of the two sides all the same. -/
theorem exists_due_of_suits {j : Join} (hj : j.Total) {l r : Relation} (hl : l.Suits j.left)
    (hr : r.Suits j.right) (strategy : JoinStrategy) (verify : Bool) :
    ∃ (m : Matcher) (rows : List Row), matcherFor j strategy verify r = .ok m ∧
      j.due m l.items = rows.map .ok ∧ ∀ row ∈ rows, row.Suits j.schema := by
  obtain ⟨lefts, hlefts, hsuits⟩ := hl.exists_rows
  obtain ⟨t, hstore, hfits, ht⟩ := hr.exists_store
  obtain ⟨m, hmatcher, hm⟩ := Matcher.exists_matcherFor_total hj strategy verify hstore hfits ht
  obtain ⟨rows, hdue, hrows⟩ := hj.exists_due hm hsuits
  exact ⟨m, rows, hmatcher, hlefts ▸ hdue, hrows⟩

/-- A join that was planned without a function makes rows that suit its output, whatever its
strategy. -/
theorem Sound.join (ha : a.Sound) (hb : b.Sound) {j : Join} (hj : j.Total)
    (hleft : j.left = a.schema) (hright : j.right = b.schema) (strategy : JoinStrategy)
    (verify : Bool) : (join a b j strategy verify).Sound := by
  intro h
  rw [run_join_fst]
  rcases ha h with ⟨column, hrun, hcolumn⟩ | ⟨l, hrunl, hl, hnonel⟩
  · exact Or.inl ⟨column, by rw [hrun]; rfl, Or.inl hcolumn⟩
  · rw [hrunl]
    rcases hb (a.run h).2 with ⟨column, hrun, hcolumn⟩ | ⟨r, hrunr, hr, hnoner⟩
    · exact Or.inl ⟨column, by simp only [bind, Except.bind, hrun], Or.inr hcolumn⟩
    · rw [← hleft] at hl
      rw [← hright] at hr
      obtain ⟨m, rows, hmatcher, hdue, hrows⟩ := exists_due_of_suits hj hl hr strategy verify
      have hdrain : (JoinCursor.start j m l.items).drain = rows.map .ok := by
        rw [JoinCursor.drain_start, hdue, untilError_map_ok]
      refine Or.inr ⟨_, ?_, @Relation.suits_stream j.schema _ ⟨rows, hdrain, hrows⟩, ?_⟩
      · simp only [bind, Except.bind, hrunr, hmatcher]
        rfl
      · rintro column (hcolumn | hcolumn)
        · exact hnonel column hcolumn
        · exact hnoner column hcolumn

end Operator

namespace RelExpr

/-- The expression compiles over the bindings, to a pipeline that cannot go wrong, and its columns
have different names. -/
structure Sound (settings : Settings) (bindings : Bindings) (h : Handouts) (e : RelExpr) :
    Prop where
  /-- The columns have different names. -/
  nodup : e.schema.names.Nodup
  compiles : ∃ op, Operator.compile settings bindings h e = .ok op ∧ op.Sound

variable {settings : Settings} {bindings : Bindings} {h : Handouts} {e e' l r : RelExpr}

/-- A leaf for which a stored relation is bound. -/
theorem sound_scan {leaf : Schema} (hnodup : leaf.names.Nodup) {input : Input}
    (hget : bindings.get? leaf.name = some input) (hinput : input.Suits leaf) :
    (scan leaf).Sound settings bindings h := by
  refine ⟨hnodup, _, ?_, @Operator.sound_source leaf.name _ _ hinput⟩
  cases input with
  | table t => exact Operator.compileLeaf_of_fits hget rfl hinput.1
  | sorted t => exact Operator.compileLeaf_of_fits hget rfl hinput.1
  | stream ticket s => exact hinput.elim

theorem Sound.filter (he : e.Sound settings bindings h) {p : Predicate} (hp : p.Typed e.schema)
    (hmake : e.filter p = .ok e') : e'.Sound settings bindings h := by
  obtain ⟨-, rfl⟩ := filter_eq_ok hmake
  obtain ⟨op, hcompile, hop⟩ := he.compiles
  rw [← Operator.compile_schema hcompile] at hp
  exact ⟨he.nodup, _, by rw [Operator.compile, hcompile]; rfl, hop.filter hp⟩

/-- A projection or a rename. -/
theorem Sound.mapBy (he : e.Sound settings bindings h) {form : MapForm}
    (hform : ∀ items, form ≠ .extension items) (hmake : e.mapBy form = .ok e') :
    e'.Sound settings bindings h := by
  obtain ⟨m, hplan, rfl⟩ := mapBy_eq_ok hmake
  obtain ⟨op, hcompile, hop⟩ := he.compiles
  have hnodup := RowMap.nodup_of_plan hplan
  rw [← Operator.compile_schema hcompile] at hplan
  refine ⟨hnodup, _, ?_, hop.map hform hplan⟩
  rw [Operator.compile, hcompile]
  rfl

theorem Sound.aggregate (he : e.Sound settings bindings h) {keys : List String}
    {aggregates : List Aggregate} (hmake : e.aggregate keys aggregates = .ok e') :
    e'.Sound settings bindings h := by
  obtain ⟨g, hplan, rfl⟩ := aggregate_eq_ok hmake
  obtain ⟨op, hcompile, hop⟩ := he.compiles
  have hnodup := Grouping.nodup_of_plan hplan
  rw [← Operator.compile_schema hcompile] at hplan
  refine ⟨hnodup, _, ?_, hop.group hplan⟩
  rw [Operator.compile, hcompile]
  rfl

/-- A join whose condition is no function. -/
theorem Sound.joinWith (hl : l.Sound settings bindings h) (hr : r.Sound settings bindings h)
    {type : JoinType} {condition : JoinCondition} (hcondition : ∀ p, condition ≠ .theta p)
    (hmake : l.joinWith r type condition = .ok e') : e'.Sound settings bindings h := by
  obtain ⟨j, hplan, rfl⟩ := joinWith_eq_ok hmake
  obtain ⟨a, hcompilel, ha⟩ := hl.compiles
  obtain ⟨b, hcompiler, hb⟩ := hr.compiles
  obtain ⟨hleft, hright, -⟩ := Join.plan_eq_ok hplan
  have hleft := hleft.trans (Operator.compile_schema hcompilel).symm
  have hright := hright.trans (Operator.compile_schema hcompiler).symm
  refine ⟨(Join.schema_of_plan hplan).1, _, ?_,
    ha.join hb (Join.total_of_plan hplan fun p hp => absurd hp (hcondition p)) hleft hright
      settings.strategy
      settings.verifySorted⟩
  rw [Operator.compile, hcompilel, hcompiler]
  rfl

end RelExpr

end RelQuery
