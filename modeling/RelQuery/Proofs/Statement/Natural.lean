import Mathlib.Algebra.Ring.Parity
import Mathlib.Data.List.Induction
import RelQuery.Proofs.Engine.Present
import RelQuery.Proofs.Join.Total
import RelQuery.Statement

/-!
# RelQuery.Proofs.Statement.Natural

**What a chain of natural joins compares.**

Each natural join compares the columns of the names that its input shares with what has been joined
so far. That is not what it shares with the inputs so far: the first join on a name qualifies it on
both sides, so the name is gone. An input that has the name brings it back, and the next one hides
it again. So a name is found if an odd number of inputs has had it, in the last of them
(`contains_joinAll_iff`, `position?_joinAll`).

What a join compares agrees in its rows, and stays as it is in the rows of further joins
(`agreesAt_joinInput`, `AgreesAt.joinAll`). `agrees_of_naturalJoins` puts the two together, and
`naturalJoins_miss_qualified` is a chain of three inputs of one column name whose last join compares
nothing.
-/

namespace RelQuery

/-- The two cells hold the same value, and not null. -/
structure Row.Agrees (row : Row) (p q : Nat) : Prop where
  same : (row.cell p).same (row.cell q) = true
  left_not_null : (row.cell p).isNull = false
  right_not_null : (row.cell q).isNull = false

/-- Whatever an equi-join relies on holds: it looks at all rows, or it checks declared orders, or
every declared order holds. -/
def Bindings.Trusted (settings : Settings) (bindings : Bindings) : Prop :=
  settings.strategy = .nestedLoop ∨ settings.verifySorted = true ∨
    ∀ name t, bindings.get? name = some (.sorted t) → t.isOrdered = true

namespace Statement

/-- Inner natural joins of inputs with the first one. -/
def naturalJoins (first : Schema) (rest : List Schema) : Statement :=
  ofClauses (.input first :: rest.map (.naturalJoin .inner))

/-- Joins further inputs to an expression. -/
def joinAll (e : RelExpr) (inputs : List Schema) : Except Error RelExpr :=
  inputs.foldlM (fun e s => joinInput e (s, .natural .inner)) e

/-! ### Building -/

theorem foldl_naturalJoin (type : JoinType) : ∀ (rest : List Schema) (s : Statement),
    (rest.map (Clause.naturalJoin type)).foldl add s =
      { s with inputs := s.inputs ++ rest.map fun schema => (schema, Link.natural type) }
  | [], s => by simp
  | schema :: rest, s => by
      rw [List.map_cons, List.foldl_cons, foldl_naturalJoin type rest]
      simp [add, addInput]

theorem joinAll_cons (e : RelExpr) (s : Schema) (inputs : List Schema) :
    joinAll e (s :: inputs) =
      joinInput e (s, .natural .inner) >>= fun e => joinAll e inputs := by
  rw [joinAll, List.foldlM_cons]
  rfl

theorem joinAll_append (e : RelExpr) (inputs inputs' : List Schema) :
    joinAll e (inputs ++ inputs') = joinAll e inputs >>= fun e => joinAll e inputs' := by
  rw [joinAll, List.foldlM_append]
  rfl

theorem joinAll_concat (e : RelExpr) (inputs : List Schema) (s : Schema) :
    joinAll e (inputs ++ [s]) = joinAll e inputs >>= fun e => joinInput e (s, .natural .inner) := by
  rw [joinAll_append]
  congr 1
  funext e
  rw [joinAll_cons]
  exact bind_pure _

theorem buildExpr_naturalJoins (first : Schema) (rest : List Schema) :
    (naturalJoins first rest).buildExpr = joinAll (.scan first) rest := by
  unfold naturalJoins ofClauses
  rw [List.foldl_cons, foldl_naturalJoin]
  simp only [buildExpr, add, addInput, empty, List.nil_append, List.singleton_append]
  rw [joinAll, List.foldlM_map]
  cases rest.foldlM (fun e s => joinInput e (s, .natural .inner)) (.scan first) <;> rfl

/-- A query of natural joins is the joined expression, as it comes. -/
theorem build_naturalJoins {first : Schema} {rest : List Schema} {q : Query}
    (hbuild : (naturalJoins first rest).build = .ok q) :
    joinAll (.scan first) rest = .ok q.expr := by
  obtain ⟨e, he, hbuild⟩ := bind_eq_ok_iff.mp hbuild
  obtain ⟨q', hsort, hbuild⟩ := bind_eq_ok_iff.mp hbuild
  obtain ⟨_, -, hsort⟩ := bind_eq_ok_iff.mp hsort
  obtain rfl := pure_eq_ok_iff.mp hsort
  obtain rfl := pure_eq_ok_iff.mp hbuild
  rw [← buildExpr_naturalJoins]
  exact he

variable {e e' : RelExpr} {s : Schema} {name : String}

/-- A natural join is a planned join with a leaf. -/
theorem joinInput_eq_ok (hjoin : joinInput e (s, .natural .inner) = .ok e') :
    ∃ j, Join.plan e.schema s .inner (resolveLink e s (.natural .inner)).2 = .ok j ∧
      e' = .join e (.scan s) j := by
  have htype : (resolveLink e s (.natural .inner)).1 = .inner := by
    unfold resolveLink
    dsimp only
    split <;> rfl
  unfold joinInput at hjoin
  dsimp only at hjoin
  rw [htype] at hjoin
  exact RelExpr.joinWith_eq_ok hjoin

theorem mem_sharedColumns {i l : Nat} (hi : e.schema.position? name = some i)
    (hl : s.position? name = some l) : name ∈ sharedColumns e s := by
  refine List.mem_filter.mpr ⟨?_, by rw [Schema.contains, hl]; rfl⟩
  rw [Schema.position?_eq, List.findIdx?_eq_some_iff_getElem] at hi
  obtain ⟨hlt, hname, -⟩ := hi
  exact beq_iff_eq.mp hname ▸ List.getElem_mem hlt

/-- A natural join compares the columns of every name that both sides have. -/
theorem exists_keys_of_natural {j : Join}
    (hplan : Join.plan e.schema s .inner (resolveLink e s (.natural .inner)).2 = .ok j) {i l : Nat}
    (hi : e.schema.position? name = some i) (hl : s.position? name = some l) :
    ∃ k, j.rule = .equi k ∧ (i, l) ∈ k.left.zip k.right := by
  have hshared := mem_sharedColumns hi hl
  obtain ⟨-, -, -, hrule, -⟩ := Join.plan_eq_ok hplan
  unfold resolveLink at hrule
  dsimp only at hrule
  split at hrule
  · rename_i hnone
    rw [hnone] at hshared
    simp at hshared
  · obtain ⟨k, hresolve, hrule⟩ := bind_eq_ok_iff.mp hrule
    have hpositions := (JoinKeys.resolve_resolved hresolve).positions
    have hpair : (name, name) ∈ k.pairs := by
      rw [JoinKeys.pairs_of_resolve hresolve]
      exact List.mem_map.mpr ⟨name, hshared, rfl⟩
    obtain ⟨p, hmem⟩ :=
      JoinKeys.exists_mem_zip_of_mem_left (List.Forall₂.length_eq hpositions) hpair
    obtain ⟨hleft, hright⟩ := (List.forall₂_iff_zip.mp hpositions).2 hmem
    obtain rfl := Option.some.inj (hi.symm.trans (Schema.require_eq_ok_iff.mp hleft))
    obtain rfl := Option.some.inj (hl.symm.trans (Schema.require_eq_ok_iff.mp hright))
    exact ⟨k, (pure_eq_ok_iff.mp hrule).symm, (List.of_mem_zip hmem).2⟩

/-! ### Columns -/

theorem width_of_joinInput (hjoin : joinInput e (s, .natural .inner) = .ok e') :
    e'.schema.width = e.schema.width + s.width := by
  obtain ⟨j, hplan, rfl⟩ := joinInput_eq_ok hjoin
  show j.schema.columns.length = _
  rw [Join.columns_of_plan hplan, List.length_append, Join.sideColumns, Join.sideColumns,
    List.length_map, List.length_map]
  rfl

/-- The number of columns of the inputs before a position. -/
def columnsBefore (inputs : List Schema) (i : Nat) : Nat :=
  ((inputs.take i).map Schema.width).sum

/-- The number of inputs that have a column of this name. -/
def holders (name : String) (inputs : List Schema) : Nat :=
  inputs.countP (·.contains name)

theorem columnsBefore_append {inputs : List Schema} {i : Nat} (h : i ≤ inputs.length) :
    columnsBefore (inputs ++ [s]) i = columnsBefore inputs i := by
  rw [columnsBefore, List.take_append_of_le_length h, columnsBefore]

theorem columnsBefore_concat (inputs : List Schema) :
    columnsBefore (inputs ++ [s]) (inputs.length + 1) =
      columnsBefore inputs inputs.length + s.width := by
  unfold columnsBefore
  rw [List.take_of_length_le (by simp), List.take_of_length_le (Nat.le_refl _)]
  simp

/-- The columns of joined inputs are those of the inputs. -/
theorem width_of_joinAll {first : Schema} {rest : List Schema}
    (hjoin : joinAll (.scan first) rest = .ok e) :
    e.schema.width = columnsBefore (first :: rest) (rest.length + 1) := by
  induction rest using List.reverseRec generalizing e with
  | nil =>
      obtain rfl := pure_eq_ok_iff.mp hjoin
      simp [columnsBefore, RelExpr.schema]
  | append_singleton rest s ih =>
      rw [joinAll_concat, bind_eq_ok_iff] at hjoin
      obtain ⟨e₀, hjoin₀, hjoin⟩ := hjoin
      rw [width_of_joinInput hjoin, ih hjoin₀, List.length_append, List.length_singleton,
        ← List.cons_append]
      exact (@columnsBefore_concat s (first :: rest)).symm

end Statement

namespace Join

variable {left right : Schema} {type : JoinType} {condition : JoinCondition} {j : Join}
  {name : String}

/-- Where a name without a dot stands among the output columns of a side: one that is shared is
qualified, and no qualified name is without a dot. -/
theorem findIdx?_sideColumns {side : Schema} {shared : List String} {padded : Bool}
    (hplain : '.' ∉ name.toList) :
    (sideColumns side shared padded).findIdx? (·.name == name) =
      if name ∈ shared then none else side.position? name := by
  have hqualified : ∀ c : String, s!"{side.name}.{c}" ≠ name := by
    rintro c rfl
    refine hplain (show '.' ∈ (side.name ++ "." ++ c).toList from ?_)
    simp [String.toList_append]
  rw [sideColumns, List.findIdx?_map]
  split
  · rename_i hshared
    rw [List.findIdx?_eq_none_iff]
    intro c _
    rw [Function.comp_apply]
    dsimp only
    split
    · exact beq_eq_false_iff_ne.mpr (hqualified c.name)
    · rename_i hc
      refine beq_eq_false_iff_ne.mpr ?_
      rintro rfl
      exact hc (List.contains_iff_mem.mpr hshared)
  · rename_i hshared
    rw [Schema.position?]
    congr 1
    funext c
    rw [Function.comp_apply]
    dsimp only
    split
    · rename_i hc
      rw [beq_eq_false_iff_ne.mpr (hqualified c.name), eq_comm, beq_eq_false_iff_ne]
      rintro rfl
      exact hshared (List.contains_iff_mem.mp hc)
    · rfl

/-- Where a name without a dot stands among the output columns: a name of both sides is hidden. -/
theorem position?_of_plan (hplan : plan left right type condition = .ok j)
    (hplain : '.' ∉ name.toList) :
    j.schema.position? name =
      if left.contains name = true ∧ right.contains name = true then none
      else (left.position? name).or ((right.position? name).map (· + left.width)) := by
  rw [Schema.position?, columns_of_plan hplan, List.findIdx?_append, findIdx?_sideColumns hplain,
    findIdx?_sideColumns hplain]
  simp only [mem_sharedNames_iff, ← Schema.contains_iff]
  split
  · rfl
  · simp [sideColumns, Schema.width]

end Join

namespace Statement

variable {e e' : RelExpr} {s first : Schema} {before after rest : List Schema} {name : String}

/-- The last input that has a column of this name is at position `i`, and has it at position `k`. -/
structure LastHolder (name : String) (inputs : List Schema) (i k : Nat) : Prop where
  has : ∃ s, inputs[i]? = some s ∧ s.position? name = some k
  /-- No later input has it. -/
  last : ∀ i' s', i < i' → inputs[i']? = some s' → s'.contains name = false

/-- If the last of all inputs has the column, it is the last one to have it. -/
theorem LastHolder.of_contains {inputs : List Schema} {i k : Nat}
    (hlast : LastHolder name (inputs ++ [s]) i k) (hs : s.contains name = true) :
    i = inputs.length ∧ s.position? name = some k := by
  obtain ⟨⟨s', hget, hk⟩, hlater⟩ := hlast
  have hconcat : (inputs ++ [s])[inputs.length]? = some s := by simp
  have hle : i ≤ inputs.length := by
    have hlt := (List.getElem?_eq_some_iff.mp hget).1
    rw [List.length_append, List.length_singleton] at hlt
    omega
  have hnot : ¬i < inputs.length := by
    intro hlt
    rw [hlater _ s hlt hconcat] at hs
    simp at hs
  obtain rfl : i = inputs.length := by omega
  rw [hconcat] at hget
  exact ⟨rfl, Option.some.inj hget ▸ hk⟩

/-- Otherwise it is among the inputs before. -/
theorem LastHolder.of_not_contains {inputs : List Schema} {i k : Nat}
    (hlast : LastHolder name (inputs ++ [s]) i k) (hs : s.contains name = false) :
    i < inputs.length ∧ LastHolder name inputs i k := by
  obtain ⟨⟨s', hget, hk⟩, hlater⟩ := hlast
  have hlt : i < inputs.length := by
    have hlt := (List.getElem?_eq_some_iff.mp hget).1
    rw [List.length_append, List.length_singleton] at hlt
    refine Nat.lt_of_le_of_ne (by omega) ?_
    rintro rfl
    rw [List.getElem?_concat_length] at hget
    obtain rfl := Option.some.inj hget
    rw [Schema.contains, hk] at hs
    simp at hs
  refine ⟨hlt, ⟨s', List.getElem?_append_left hlt ▸ hget, hk⟩, fun i' s'' hi' hget' => ?_⟩
  refine hlater i' s'' hi' ?_
  rw [List.getElem?_append_left (List.getElem?_eq_some_iff.mp hget').1]
  exact hget'

theorem holders_concat (name : String) (inputs : List Schema) (s : Schema) :
    holders name (inputs ++ [s]) = holders name inputs + if s.contains name then 1 else 0 := by
  rw [holders, List.countP_append, List.countP_singleton, holders]

theorem position?_of_joinInput (hjoin : joinInput e (s, .natural .inner) = .ok e')
    (hplain : '.' ∉ name.toList) :
    e'.schema.position? name =
      if e.schema.contains name = true ∧ s.contains name = true then none
      else (e.schema.position? name).or ((s.position? name).map (· + e.schema.width)) := by
  obtain ⟨j, hplan, rfl⟩ := joinInput_eq_ok hjoin
  exact Join.position?_of_plan hplan hplain

/-- A name without a dot is found in joined inputs if an odd number of them has it: each further
input that has it hides it or brings it back. -/
theorem contains_joinAll_iff (hplain : '.' ∉ name.toList)
    (hjoin : joinAll (.scan first) rest = .ok e) :
    e.schema.contains name = true ↔ Odd (holders name (first :: rest)) := by
  induction rest using List.reverseRec generalizing e with
  | nil =>
      obtain rfl := pure_eq_ok_iff.mp hjoin
      show first.contains name = true ↔ _
      cases hfirst : first.contains name <;> simp [holders, hfirst]
  | append_singleton rest s ih =>
      rw [joinAll_concat, bind_eq_ok_iff] at hjoin
      obtain ⟨e₀, hjoin₀, hjoin⟩ := hjoin
      rw [← List.cons_append, holders_concat, Schema.contains, position?_of_joinInput hjoin hplain]
      cases hs : s.contains name with
      | false =>
          have hnone := Schema.position?_eq_none_iff.mpr hs
          simp only [Bool.false_eq_true, and_false, if_false, hnone, Option.map_none,
            Option.or_none, Nat.add_zero]
          exact ih hjoin₀
      | true =>
          rw [if_pos rfl, Nat.odd_add_one, ← ih hjoin₀]
          cases he : e₀.schema.contains name with
          | true => simp
          | false =>
              have hsome : (s.position? name).isSome = true := hs
              simp [hsome]

/-- A name without a dot that an odd number of inputs has is found where the last of them has it. -/
theorem position?_joinAll (hplain : '.' ∉ name.toList)
    (hjoin : joinAll (.scan first) rest = .ok e) {i k : Nat}
    (hlast : LastHolder name (first :: rest) i k) (hodd : Odd (holders name (first :: rest))) :
    e.schema.position? name = some (columnsBefore (first :: rest) i + k) := by
  induction rest using List.reverseRec generalizing e with
  | nil =>
      obtain rfl := pure_eq_ok_iff.mp hjoin
      obtain ⟨⟨s, hget, hk⟩, -⟩ := hlast
      obtain ⟨hi, hs⟩ := List.getElem?_eq_some_iff.mp hget
      obtain rfl : i = 0 := Nat.lt_one_iff.mp hi
      obtain rfl : first = s := hs
      simpa [columnsBefore, RelExpr.schema] using hk
  | append_singleton rest s ih =>
      rw [joinAll_concat, bind_eq_ok_iff] at hjoin
      obtain ⟨e₀, hjoin₀, hjoin⟩ := hjoin
      rw [position?_of_joinInput hjoin hplain]
      rw [← List.cons_append] at hlast hodd ⊢
      rw [holders_concat] at hodd
      cases hs : s.contains name with
      | false =>
          obtain ⟨hi, hlast⟩ := hlast.of_not_contains hs
          have hnone := Schema.position?_eq_none_iff.mpr hs
          rw [hs] at hodd
          rw [if_neg (by simp), hnone, ih hjoin₀ hlast hodd, columnsBefore_append (Nat.le_of_lt hi)]
          rfl
      | true =>
          obtain ⟨rfl, hk⟩ := hlast.of_contains hs
          rw [hs, if_pos rfl, Nat.odd_add_one, ← contains_joinAll_iff hplain hjoin₀] at hodd
          have hnone := Schema.position?_eq_none_iff.mpr (Bool.eq_false_iff.mpr hodd)
          rw [if_neg fun hboth => hodd hboth.1, hnone, hk, width_of_joinAll hjoin₀,
            columnsBefore_append (Nat.le_refl _)]
          simp [Nat.add_comm]

/-! ### Rows -/

/-- Every row that a pipeline of the expression yields agrees at two positions. -/
def AgreesAt (settings : Settings) (bindings : Bindings) (h : Handouts) (e : RelExpr) (p q : Nat) :
    Prop :=
  ∀ op h' r row, Operator.compile settings bindings h e = .ok op → h.Before h' →
    (op.run h').1 = .ok r → .ok row ∈ r.items → row.Agrees p q

variable {settings : Settings} {bindings : Bindings} {h h' : Handouts} {j : Join}
  {condition : JoinCondition}

/-- A sorted table that a leaf yields is the one that is bound to it. -/
theorem ordered_of_run_scan
    (hordered : ∀ name t, bindings.get? name = some (.sorted t) → t.isOrdered = true)
    {op : Operator} (hcompile : Operator.compile settings bindings h (.scan s) = .ok op)
    {t : SortedTable} (hrun : (op.run h').1 = .ok (.sorted t)) : t.Ordered := by
  obtain ⟨input, hget, rfl, -⟩ := Operator.compileLeaf_eq_ok hcompile
  obtain ⟨hinput, -⟩ := Input.take_eq_ok hrun
  cases input with
  | sorted t' =>
      obtain rfl := Relation.sorted.inj hinput
      exact SortedTable.isOrdered_iff.mp (hordered _ _ hget)
  | table t' => simp [Input.relation] at hinput
  | stream ticket s' => simp [Input.relation] at hinput

/-- A row that an inner join with a leaf yields is a row of the left-hand side and one that matches
it. -/
theorem exists_sides_of_run (hchecked : bindings.Checked) (htrusted : bindings.Trusted settings)
    (hplan : Join.plan e.schema s .inner condition = .ok j) {op : Operator}
    (hcompile : Operator.compile settings bindings h (.join e (.scan s) j) = .ok op)
    (hbefore : h.Before h') {r : Relation} (hrun : (op.run h').1 = .ok r) {row : Row}
    (hrow : .ok row ∈ r.items) :
    ∃ a l left right, Operator.compile settings bindings h e = .ok a ∧ (a.run h').1 = .ok l ∧
      .ok left ∈ l.items ∧ left.values.length = e.schema.width ∧
      j.matched left right = .ok true ∧ row.values = left.values ++ right.values := by
  obtain ⟨a, b, ha, hb, rfl⟩ := Operator.compile_join_eq_ok hcompile
  obtain ⟨l, r', m, hl, hr', hm, rfl⟩ := Operator.run_join_eq_ok hrun
  obtain ⟨hleft, hright, hinner, -⟩ := Join.plan_eq_ok hplan
  have hlconforms := Operator.conforms_of_compile hchecked ha hbefore hl
  have hfits : r'.schema.fits j.right = true := by
    rw [hright]
    exact (Operator.conforms_of_compile hchecked hb
      (hbefore.trans (Operator.before_run a h')) hr').fits
  have htrust : settings.strategy = .nestedLoop ∨ settings.verifySorted = true ∨
      ∀ t, r' = .sorted t → t.Ordered :=
    htrusted.imp_right fun htrusted => htrusted.imp_right fun hordered t ht =>
      ordered_of_run_scan hordered hb (ht ▸ hr')
  have hfaithful := Matcher.faithful_of_matcherFor (fun k hk => Join.resolved_of_plan hplan hk)
    hfits htrust hm
  have hdue : .ok row ∈ j.due m l.items := by
    refine mem_of_mem_untilError ?_
    rw [← JoinCursor.drain_start]
    exact hrow
  obtain ⟨left, right, hmem, hmatched, hcombine⟩ := hfaithful.exists_matched hinner hdue
  have hwidth := (hlconforms.suits hmem).holds.length
  have hvalues := (Row.ofValues_eq_ok_iff.mp hcombine).2.2
  exact ⟨a, l, left, right, ha, hl, hmem, hwidth, hmatched, hvalues⟩

theorem cell_append_left {row left right : Row} (hvalues : row.values = left.values ++ right.values)
    {p : Nat} (hp : p < left.values.length) : row.cell p = left.cell p := by
  rw [Row.cell, Row.get?, hvalues, List.getElem?_append_left hp]
  rfl

theorem cell_append_right {row left right : Row}
    (hvalues : row.values = left.values ++ right.values) (l : Nat) :
    row.cell (left.values.length + l) = right.cell l := by
  rw [Row.cell, Row.get?, hvalues, List.getElem?_append_right (Nat.le_add_right _ _),
    Nat.add_sub_cancel_left]
  rfl

/-- Joining a further input keeps what agrees. -/
theorem AgreesAt.joinInput {p q : Nat} (hagrees : AgreesAt settings bindings h e p q)
    (hchecked : bindings.Checked) (htrusted : bindings.Trusted settings)
    (hjoin : joinInput e (s, .natural .inner) = .ok e') (hp : p < e.schema.width)
    (hq : q < e.schema.width) : AgreesAt settings bindings h e' p q := by
  obtain ⟨j, hplan, rfl⟩ := joinInput_eq_ok hjoin
  intro op h' r row hcompile hbefore hrun hrow
  obtain ⟨a, l, left, right, ha, hl, hmem, hwidth, -, hvalues⟩ :=
    exists_sides_of_run hchecked htrusted hplan hcompile hbefore hrun hrow
  have hleft := hagrees a h' l left ha hbefore hl hmem
  rw [← hwidth] at hp hq
  have hcellp := cell_append_left hvalues hp
  have hcellq := cell_append_left hvalues hq
  exact ⟨by rw [hcellp, hcellq]; exact hleft.same, by rw [hcellp]; exact hleft.left_not_null,
    by rw [hcellq]; exact hleft.right_not_null⟩

/-- A name that the expression and the input share agrees from then on. -/
theorem agreesAt_joinInput (hchecked : bindings.Checked) (htrusted : bindings.Trusted settings)
    (hjoin : Statement.joinInput e (s, .natural .inner) = .ok e') {p l : Nat}
    (hp : e.schema.position? name = some p) (hl : s.position? name = some l) :
    AgreesAt settings bindings h e' p (e.schema.width + l) := by
  obtain ⟨j, hplan, rfl⟩ := joinInput_eq_ok hjoin
  obtain ⟨k, hrule, hpair⟩ := exists_keys_of_natural hplan hp hl
  intro op h' r row hcompile hbefore hrun hrow
  obtain ⟨a, lr, left, right, -, -, -, hwidth, hmatched, hvalues⟩ :=
    exists_sides_of_run hchecked htrusted hplan hcompile hbefore hrun hrow
  simp only [Join.matched, hrule, Except.ok.injEq, JoinKeys.matched, List.all_eq_true] at hmatched
  have hcells := hmatched (p, l) hpair
  simp only [Bool.and_eq_true, Bool.not_eq_true'] at hcells
  obtain ⟨hnull, hsame⟩ := hcells
  have hlt : p < left.values.length := hwidth ▸ Schema.lt_width_of_position? hp
  have hcellp := cell_append_left hvalues hlt
  have hcelll := cell_append_right hvalues l
  rw [← hwidth]
  exact ⟨by rw [hcellp, hcelll]; exact hsame, by rw [hcellp]; exact hnull,
    by rw [hcelll, ← Value.isNull_eq_of_same hsame]; exact hnull⟩

/-- Joining further inputs keeps what agrees. -/
theorem AgreesAt.joinAll (hchecked : bindings.Checked) (htrusted : bindings.Trusted settings)
    {p q : Nat} : ∀ {inputs : List Schema} {e e' : RelExpr}, AgreesAt settings bindings h e p q →
      p < e.schema.width → q < e.schema.width → Statement.joinAll e inputs = .ok e' →
        AgreesAt settings bindings h e' p q
  | [], e, e', hagrees, _, _, hjoin => by
      obtain rfl := pure_eq_ok_iff.mp hjoin
      exact hagrees
  | s :: inputs, e, e', hagrees, hp, hq, hjoin => by
      rw [joinAll_cons] at hjoin
      obtain ⟨e₁, hjoin₁, hjoin⟩ := bind_eq_ok_iff.mp hjoin
      have hwidth := width_of_joinInput hjoin₁
      exact (hagrees.joinInput hchecked htrusted hjoin₁ hp hq).joinAll hchecked htrusted
        (by omega) (by omega) hjoin

/-- **What a chain of natural joins compares.** Take inner natural joins that build, over checked
relations whose declared orders can be relied on, and let `e` be what the inputs before `later`
make.

In every row of a result, each column of `e` whose name `later` has holds the value of `later`'s
column, and not null. Which names `e` has is told by the inputs: a name without a dot is found where
the last of them has it, if an odd number of them has it. If an even number has it, the joins have
qualified it wherever it stood: `e` does not have it any more, and `later` is not joined on it. -/
theorem agrees_of_naturalJoins {later : Schema} {q : Query}
    (hbuild : (naturalJoins first (before ++ later :: after)).build = .ok q) :
    ∃ e, (naturalJoins first before).buildExpr = .ok e ∧
      (∀ (engine : Engine) (bindings : Bindings) (clock : Clock) (h : Handouts)
        (result : ResultSet), bindings.Checked → bindings.Trusted engine.settings →
        (engine.eval q bindings clock h).1 = .ok result → ∀ row ∈ result.rows, ∀ name p l,
          e.schema.position? name = some p → later.position? name = some l →
            row.Agrees p (columnsBefore (first :: before) (before.length + 1) + l)) ∧
      ∀ name : String, '.' ∉ name.toList →
        (Odd (holders name (first :: before)) → ∀ i k, LastHolder name (first :: before) i k →
          e.schema.position? name = some (columnsBefore (first :: before) i + k)) ∧
        (Even (holders name (first :: before)) → e.schema.position? name = none) := by
  have hjoin := build_naturalJoins hbuild
  rw [joinAll_append] at hjoin
  obtain ⟨e, he, hjoin⟩ := bind_eq_ok_iff.mp hjoin
  rw [joinAll_cons] at hjoin
  obtain ⟨e', he', hjoin⟩ := bind_eq_ok_iff.mp hjoin
  refine ⟨e, (buildExpr_naturalJoins first before).trans he, ?_, fun name hplain => ⟨?_, ?_⟩⟩
  · intro engine bindings clock h result hchecked htrusted heval row hrow name p l hp hl
    obtain ⟨op, r, hcompile, hrun, hitems⟩ := Engine.exists_run_of_eval heval
    have hwidth := width_of_joinInput he'
    have hltp := Schema.lt_width_of_position? hp
    have hltl := Schema.lt_width_of_position? hl
    have hagrees : AgreesAt engine.settings bindings h q.expr p (e.schema.width + l) :=
      (agreesAt_joinInput hchecked htrusted he' hp hl).joinAll hchecked htrusted
        (by omega) (by omega) hjoin
    rw [← width_of_joinAll he]
    exact hagrees op h r row hcompile (Handouts.Before.refl h) hrun (hitems row hrow)
  · intro hodd i k hlast
    exact position?_joinAll hplain he hlast hodd
  · intro heven
    rw [Schema.position?_eq_none_iff, Bool.eq_false_iff]
    intro hsome
    exact Nat.not_odd_iff_even.mpr heven ((contains_joinAll_iff hplain he).mp hsome)

/-- What relations of parts look like. -/
def partSchema (name : String) : Schema :=
  ⟨name, [⟨"part", .int64, false, .position 0⟩]⟩

/-- A relation of one part. -/
def onePart (name : String) (id : Int64) : Table :=
  ⟨partSchema name, [⟨partSchema name, [.int64 id], rfl⟩],
    List.forall_mem_singleton.mpr (Schema.fits_refl _)⟩

theorem checked_onePart (name : String) (id : Int64) :
    (Relation.table (onePart name id)).Checked := by
  intro row hrow
  obtain rfl := Except.ok.inj (List.mem_singleton.mp hrow)
  exact ⟨rfl, Schema.fits_refl _⟩

/-- A part that is in the catalogue and in stock, and the price of another one. -/
def partBindings : Bindings :=
  ⟨[("catalogue", .table (onePart "catalogue" 1)), ("prices", .table (onePart "prices" 2)),
    ("stock", .table (onePart "stock" 1))], by decide⟩

theorem checked_partBindings : partBindings.Checked := by
  refine Bindings.checked_of_entries ?_
  simp only [partBindings, List.forall_mem_cons]
  exact ⟨checked_onePart _ _, checked_onePart _ _, checked_onePart _ _, by simp⟩

/-- The joins of the catalogue with the stock and the prices have the part in stock and the price of
the other one in one row. -/
theorem exists_eval_parts : ∃ q result row,
    (naturalJoins (partSchema "catalogue") [partSchema "stock", partSchema "prices"]).build =
      .ok q ∧
      (Engine.eval ⟨⟨0, .nestedLoop, false, none⟩⟩ q partBindings ⟨0, 0⟩ .none).1 = .ok result ∧
      row ∈ result.rows ∧ row.values = [.int64 1, .int64 1, .int64 2] := by
  obtain ⟨q, hbuild⟩ : ∃ q, (naturalJoins (partSchema "catalogue")
      [partSchema "stock", partSchema "prices"]).build = .ok q := ⟨_, rfl⟩
  obtain ⟨op, hcompile⟩ : ∃ op, Engine.compile ⟨⟨0, .nestedLoop, false, none⟩⟩ q.expr partBindings
      .none = .ok op := by
    cases hbuild
    exact ⟨_, rfl⟩
  obtain ⟨r, hrun, hitems⟩ : ∃ r, (op.run .none).1 = .ok r ∧
      r.items.map (Except.map Row.values) = [.ok [.int64 1, .int64 1, .int64 2]] := by
    cases hbuild
    cases hcompile
    refine ⟨_, rfl, ?_⟩
    show (JoinCursor.start _ _ (JoinCursor.start _ _ _).drain).drain.map _ = _
    rw [JoinCursor.drain_start, JoinCursor.drain_start]
    rfl
  obtain ⟨item, hitems, hitem⟩ := List.map_eq_singleton_iff.mp hitems
  obtain ⟨row, rfl, hvalues⟩ := map_eq_ok_iff.mp hitem
  have hpresents := Engine.presents_of_run checked_partBindings hcompile hrun ⟨0, 0⟩
  obtain ⟨result, hresult, hrows⟩ := hpresents.rows_of_take (by cases hbuild; rfl) [row] (by
    cases hbuild
    exact hitems)
  exact ⟨q, result, row, hbuild, hresult, hrows ▸ List.mem_singleton.mpr rfl, hvalues⟩

/-- The part in the catalogue is the one in stock. Both have the name, so their join has not. -/
theorem agrees_of_naturalJoins_stock : ∃ q result row,
    (naturalJoins (partSchema "catalogue") [partSchema "stock", partSchema "prices"]).build =
      .ok q ∧
      (Engine.eval ⟨⟨0, .nestedLoop, false, none⟩⟩ q partBindings ⟨0, 0⟩ .none).1 = .ok result ∧
      row ∈ result.rows ∧ row.Agrees 0 1 ∧
      ∃ e, (naturalJoins (partSchema "catalogue") [partSchema "stock"]).buildExpr = .ok e ∧
        e.schema.position? "part" = none := by
  obtain ⟨q, result, row, hbuild, heval, hrow, -⟩ := exists_eval_parts
  obtain ⟨e, he, hagrees, -⟩ := @agrees_of_naturalJoins (partSchema "catalogue") []
    [partSchema "prices"] (partSchema "stock") q hbuild
  obtain ⟨e', he', -, hfound⟩ := @agrees_of_naturalJoins (partSchema "catalogue")
    [partSchema "stock"] [] (partSchema "prices") q hbuild
  obtain rfl : .scan (partSchema "catalogue") = e := Except.ok.inj he
  have hstock : row.Agrees 0 1 := hagrees _ _ _ _ _ checked_partBindings (Or.inl rfl) heval row hrow
    "part" 0 0 rfl rfl
  exact ⟨q, result, row, hbuild, heval, hrow, hstock, e', he',
    (hfound "part" (by decide)).2 ⟨1, rfl⟩⟩

/-- The one with a price is another: the first join has qualified the name, so the second compares
nothing, although its input shares the name with both inputs before it. -/
theorem naturalJoins_miss_qualified : ∃ q result row,
    (naturalJoins (partSchema "catalogue") [partSchema "stock", partSchema "prices"]).build =
      .ok q ∧
      (Engine.eval ⟨⟨0, .nestedLoop, false, none⟩⟩ q partBindings ⟨0, 0⟩ .none).1 = .ok result ∧
      row ∈ result.rows ∧ (partSchema "catalogue").position? "part" = some 0 ∧
      (partSchema "prices").position? "part" = some 0 ∧
      columnsBefore [partSchema "catalogue", partSchema "stock", partSchema "prices"] 2 = 2 ∧
      (row.cell 0).same (row.cell 2) = false := by
  obtain ⟨q, result, row, hbuild, heval, hrow, hvalues⟩ := exists_eval_parts
  refine ⟨q, result, row, hbuild, heval, hrow, rfl, rfl, rfl, ?_⟩
  rw [Row.cell, Row.cell, Row.get?, Row.get?, hvalues]
  decide

end Statement

end RelQuery
