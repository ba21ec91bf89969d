import RelQuery.Proofs.Grouping.Run
import RelQuery.Proofs.Join.Total
import RelQuery.Proofs.Pipeline.Built
import RelQuery.Proofs.Row.Map

/-!
# RelQuery.Proofs.Pipeline.WellFormed

**Every node of a built expression is well-formed.**

Planning turns names into positions once, and running reads these positions without a check. So what
a plan says has to be true of the schemas of the node's inputs: each position is that of a column,
and of the column that was meant. `RelExpr.WellFormed` says it for a node, with one structure for
each operation.

A column is found by its name, and the first of that name is taken. This is the column that was
meant only if names differ, which is why the invariant also says that the names of each node's
schema are pairwise different. That is what carries it through nested renames, stars and qualified
names: each step needs it of its inputs, and gives it again because `Schema.ofColumns` checks it
(`wellFormed_of_built`).
-/

namespace RelQuery

/-- The schema comes from one of the functions that make schemas. -/
def Schema.Made (s : Schema) : Prop :=
  ∃ name columns, ofColumns name columns = .ok s ∨ base name columns = .ok s

theorem Schema.Made.nodup {s : Schema} (h : s.Made) : s.names.Nodup := by
  obtain ⟨name, columns, h | h⟩ := h
  · exact nodup_of_ofColumns h
  · exact nodup_of_ofColumns h

/-! ### Operations -/

/-- A map is well-formed over its input if each output column is fed from what belongs to it. -/
structure RowMap.WellFormed (m : RowMap) (input : Schema) : Prop where
  source : m.source = input
  feeds : List.Forall₂ (FedBy input) m.schema.columns m.feeds

namespace Grouping

/-- The position is that of the grouping column. -/
def KeyAt (input : Schema) (name : String) (i : Nat) : Prop :=
  ∃ c, input.columns[i]? = some c ∧ c.name = name

/-- The position is that of the column that the aggregate names. Only an aggregate over rows has
none. -/
def ReadsAt (input : Schema) (a : Aggregate) : Option Nat → Prop
  | none => a.kind.isOverRows = true
  | some i => a.kind.isOverRows = false ∧ ∃ c, input.columns[i]? = some c ∧ a.input = some c.name

/-- A grouping is well-formed over its input if it reads the columns it names. -/
structure WellFormed (g : Grouping) (input : Schema) : Prop where
  source : g.source = input
  keys : List.Forall₂ (KeyAt input) g.keys g.keyPositions
  inputs : List.Forall₂ (ReadsAt input) g.aggregates g.inputPositions

end Grouping

namespace JoinKeys

/-- The positions are those of the columns of a pair, which have one type. -/
def PairAt (left right : Schema) (pair : String × String) (p : Nat × Nat) : Prop :=
  ∃ a b, left.columns[p.1]? = some a ∧ a.name = pair.1 ∧
    right.columns[p.2]? = some b ∧ b.name = pair.2 ∧ a.type = b.type

/-- The columns of an equi-join are well-formed over its inputs if they are the named ones, and none
takes part in two pairs. -/
structure WellFormed (k : JoinKeys) (left right : Schema) : Prop where
  /-- There are as many positions on either side. -/
  length : k.left.length = k.right.length
  pairs : List.Forall₂ (PairAt left right) k.pairs (k.left.zip k.right)
  left_nodup : k.left.Nodup
  right_nodup : k.right.Nodup

end JoinKeys

namespace Join

/-- The output column stands for a column of one side. It is qualified by the relation of its side
if the other side has a column of that name, and it is nullable if that column is or if the side can
be padded. -/
structure Carries (side other : Schema) (padded : Bool) (c out : Column) : Prop where
  type : out.type = c.type
  nullable : out.nullable = true ↔ c.nullable = true ∨ padded = true
  name : out.name = if c.name ∈ other.names then s!"{side.name}.{c.name}" else c.name

/-- A join is well-formed over its inputs if its output columns stand for those of the left-hand
side, then for those of the right-hand side. A side is padded where the rows of the other side are
kept. -/
structure WellFormed (j : Join) (left right : Schema) : Prop where
  sides : j.left = left ∧ j.right = right
  /-- The columns of an equi-join are well-formed. -/
  keys : ∀ k, j.rule = .equi k → k.WellFormed left right
  columns : ∃ lefts rights, j.schema.columns = lefts ++ rights ∧
    List.Forall₂ (Carries left right j.type.keepsRight) left.columns lefts ∧
    List.Forall₂ (Carries right left j.type.keepsLeft) right.columns rights

end Join

namespace RelExpr

/-- The operation of a node is well-formed over the schemas of its inputs. -/
def OperationFits : RelExpr → Prop
  | scan _ => True
  | select input p => p.validate input.schema = .ok ()
  | map input m => m.WellFormed input.schema
  | group input g => g.WellFormed input.schema
  | join left right j => j.WellFormed left.schema right.schema

/-- A node is well-formed: its columns have different names, and its operation fits its inputs. The
inputs themselves need not be. -/
structure WellFormed (e : RelExpr) : Prop where
  nodup : e.schema.names.Nodup
  operation : e.OperationFits

end RelExpr

/-! ### Planned operations -/

theorem RowMap.wellFormed_of_plan {source : Schema} {form : MapForm} {m : RowMap}
    (hplan : plan source form = .ok m) : m.WellFormed source where
  source := by
    obtain ⟨_, -, hplan⟩ := bind_eq_ok_iff.mp hplan
    obtain ⟨_, -, hplan⟩ := bind_eq_ok_iff.mp hplan
    obtain ⟨_, -, hplan⟩ := bind_eq_ok_iff.mp hplan
    rw [← pure_eq_ok_iff.mp hplan]
  feeds := plan_fedBy hplan

namespace Grouping

variable {source : Schema}

theorem keyAt_of_planKey {name : String} {p : Column × Nat}
    (hplan : planKey source name = .ok p) : KeyAt source name p.2 := by
  obtain ⟨i, hi, hplan⟩ := bind_eq_ok_iff.mp hplan
  obtain ⟨c, hc, hplan⟩ := bind_eq_ok_iff.mp hplan
  obtain rfl := pure_eq_ok_iff.mp hplan
  exact ⟨c, Schema.column_of_require hi hc⟩

theorem readsAt_of_planAggregate {a : Aggregate} {p : Column × Option Nat}
    (hplan : planAggregate source a = .ok p) : ReadsAt source a p.2 := by
  obtain ⟨hrows, hp⟩ | ⟨hcolumn, i, c, hp, hname, -, hc⟩ := planAggregate_eq_ok hplan
  · rw [hp]
    exact hrows
  · rw [hp]
    exact ⟨hcolumn, c, hc, hname⟩

theorem wellFormed_of_plan {keys : List String} {aggregates : List Aggregate} {g : Grouping}
    (hplan : plan source keys aggregates = .ok g) : g.WellFormed source := by
  obtain ⟨rfl, keyColumns, outputs, hplanned⟩ := plan_planned hplan
  refine ⟨rfl, ?_, ?_⟩
  · rw [hplanned.keyPositions, List.forall₂_map_right_iff]
    exact hplanned.keys.imp fun _ _ => keyAt_of_planKey
  · rw [hplanned.inputPositions, List.forall₂_map_right_iff]
    exact hplanned.aggregates.imp fun _ _ => readsAt_of_planAggregate

end Grouping

namespace JoinKeys

variable {left right : Schema}

theorem pairAt_of_resolvePair {pair : String × String} {p : Nat × Nat}
    (hresolve : resolvePair left right pair = .ok p) : PairAt left right pair p := by
  obtain ⟨hi, hj, a, b, ha, hb, htype⟩ := resolvePair_eq_ok_iff.mp hresolve
  obtain ⟨hcolumn, hname⟩ := Schema.column_of_require hi ha
  obtain ⟨hcolumn', hname'⟩ := Schema.column_of_require hj hb
  exact ⟨a, b, hcolumn, hname, hcolumn', hname', htype⟩

theorem wellFormed_of_resolve {pairs : List (String × String)} {k : JoinKeys}
    (hresolve : resolve left right pairs = .ok k) : k.WellFormed left right := by
  obtain ⟨-, rfl, hlength, hpairs, hlefts, hrights⟩ := resolve_eq_ok_iff.mp hresolve
  have hleft : k.left = (k.left.zip k.right).map Prod.fst :=
    (List.map_fst_zip (Nat.le_of_eq hlength)).symm
  have hright : k.right = (k.left.zip k.right).map Prod.snd :=
    (List.map_snd_zip (Nat.le_of_eq hlength.symm)).symm
  refine ⟨hlength, hpairs.imp fun _ _ => pairAt_of_resolvePair, ?_, ?_⟩
  · rw [hleft]
    refine Schema.nodup_positions left ?_ hlefts
    rw [List.forall₂_map_left_iff, List.forall₂_map_right_iff]
    exact hpairs.imp fun pair p hp => (resolvePair_eq_ok_iff.mp hp).1
  · rw [hright]
    refine Schema.nodup_positions right ?_ hrights
    rw [List.forall₂_map_left_iff, List.forall₂_map_right_iff]
    exact hpairs.imp fun pair p hp => (resolvePair_eq_ok_iff.mp hp).2.1

end JoinKeys

namespace Join

variable {left right : Schema} {type : JoinType} {condition : JoinCondition} {j : Join}

/-- The output columns of a side stand for its columns, if shared names are those that the other
side has too. -/
theorem carries_sideColumns {side other : Schema} {shared : List String} (padded : Bool)
    (hshared : ∀ name ∈ side.names, name ∈ shared ↔ name ∈ other.names) :
    List.Forall₂ (Carries side other padded) side.columns (sideColumns side shared padded) := by
  rw [sideColumns, List.forall₂_map_right_iff, List.forall₂_same]
  intro c hc
  refine ⟨rfl, by simp, ?_⟩
  have hname := hshared c.name (List.mem_map_of_mem hc)
  by_cases hother : c.name ∈ other.names
  · simp [hother, hname.mpr hother]
  · simp [hother, mt hname.mp hother]

theorem wellFormed_of_plan (hplan : plan left right type condition = .ok j) :
    j.WellFormed left right := by
  have hcolumns := columns_of_plan hplan
  obtain ⟨rfl, rfl, rfl, hrule, -⟩ := plan_eq_ok hplan
  refine ⟨⟨rfl, rfl⟩, fun k hk => ?_, _, _, hcolumns, ?_, ?_⟩
  · rw [hk] at hrule
    cases condition with
    | cross => simp [planRule] at hrule
    | theta p => simp [planRule] at hrule
    | equi pairs =>
        obtain ⟨k', hresolve, hrule⟩ := bind_eq_ok_iff.mp hrule
        obtain rfl := JoinRule.equi.inj (pure_eq_ok_iff.mp hrule)
        exact JoinKeys.wellFormed_of_resolve hresolve
  · refine carries_sideColumns _ fun name hname => ?_
    rw [mem_sharedNames_iff, and_iff_right hname]
  · refine carries_sideColumns _ fun name hname => ?_
    rw [mem_sharedNames_iff, and_iff_left hname]

end Join

/-! ### Built expressions -/

namespace RelExpr

variable {e node : RelExpr}

/-- What stands below the root of an expression stands in one of its inputs. -/
theorem at?_cons_eq_some {i : Nat} {place : List Nat} (h : e.at? (i :: place) = some node) :
    ∃ input ∈ e.inputs, input.at? place = some node := by
  rw [at?, Option.bind_eq_some_iff] at h
  obtain ⟨input, hinput, h⟩ := h
  exact ⟨input, List.mem_of_getElem? hinput, h⟩

/-- The inputs of a built expression are built, and their leaves are leaves of it. -/
theorem Built.of_mem_inputs (hbuilt : e.Built) {input : RelExpr} (hinput : input ∈ e.inputs) :
    input.Built ∧ ∀ leaf ∈ input.leaves, leaf ∈ e.leaves := by
  cases hbuilt with
  | scan s => simp [inputs] at hinput
  | filter hbuilt hfilter =>
      obtain ⟨-, rfl⟩ := filter_eq_ok hfilter
      obtain rfl := List.mem_singleton.mp hinput
      exact ⟨hbuilt, by simp⟩
  | mapBy hbuilt hmap =>
      obtain ⟨m, -, rfl⟩ := mapBy_eq_ok hmap
      obtain rfl := List.mem_singleton.mp hinput
      exact ⟨hbuilt, by simp⟩
  | aggregate hbuilt haggregate =>
      obtain ⟨g, -, rfl⟩ := aggregate_eq_ok haggregate
      obtain rfl := List.mem_singleton.mp hinput
      exact ⟨hbuilt, by simp⟩
  | joinWith hl hr hjoin =>
      obtain ⟨j, -, rfl⟩ := joinWith_eq_ok hjoin
      rcases List.mem_cons.mp hinput with rfl | hinput
      · exact ⟨hl, fun leaf hleaf => by simp [hleaf]⟩
      · obtain rfl := List.mem_singleton.mp hinput
        exact ⟨hr, fun leaf hleaf => by simp [hleaf]⟩

/-- The columns of a built expression have different names. -/
theorem Built.nodup (hbuilt : e.Built) (hleaves : ∀ leaf ∈ e.leaves, leaf.Made) :
    e.schema.names.Nodup := by
  induction hbuilt with
  | scan s => exact (hleaves s (by simp)).nodup
  | filter _ hfilter ih =>
      obtain ⟨-, rfl⟩ := filter_eq_ok hfilter
      exact ih (by simpa using hleaves)
  | mapBy _ hmap _ =>
      obtain ⟨m, hplan, rfl⟩ := mapBy_eq_ok hmap
      exact RowMap.nodup_of_plan hplan
  | aggregate _ haggregate _ =>
      obtain ⟨g, hplan, rfl⟩ := aggregate_eq_ok haggregate
      exact Grouping.nodup_of_plan hplan
  | joinWith _ _ hjoin _ _ =>
      obtain ⟨j, hplan, rfl⟩ := joinWith_eq_ok hjoin
      exact (Join.schema_of_plan hplan).1

/-- The operation at the root was planned for the inputs that stand there. -/
theorem Built.operationFits (hbuilt : e.Built) : e.OperationFits := by
  cases hbuilt with
  | scan s => trivial
  | filter _ hfilter =>
      obtain ⟨hvalid, rfl⟩ := filter_eq_ok hfilter
      exact hvalid
  | mapBy _ hmap =>
      obtain ⟨m, hplan, rfl⟩ := mapBy_eq_ok hmap
      exact RowMap.wellFormed_of_plan hplan
  | aggregate _ haggregate =>
      obtain ⟨g, hplan, rfl⟩ := aggregate_eq_ok haggregate
      exact Grouping.wellFormed_of_plan hplan
  | joinWith _ _ hjoin =>
      obtain ⟨j, hplan, rfl⟩ := joinWith_eq_ok hjoin
      exact Join.wellFormed_of_plan hplan

/-- **Every node of a built expression is well-formed**, if the schemas of its leaves have been made
by the functions that make schemas. -/
theorem wellFormed_of_built (hbuilt : e.Built) (hleaves : ∀ leaf ∈ e.leaves, leaf.Made)
    (place : List Nat) (hnode : e.at? place = some node) : node.WellFormed := by
  induction place generalizing e with
  | nil =>
      obtain rfl := Option.some.inj hnode
      exact ⟨hbuilt.nodup hleaves, hbuilt.operationFits⟩
  | cons i place ih =>
      obtain ⟨input, hinput, hnode⟩ := at?_cons_eq_some hnode
      obtain ⟨hbuilt, hmem⟩ := hbuilt.of_mem_inputs hinput
      exact ih hbuilt (fun leaf hleaf => hleaves leaf (hmem leaf hleaf)) hnode

/-- Pupils, by number. -/
def pupils : Schema :=
  ⟨"pupils", [⟨"number", .int32, false, .position 0⟩, ⟨"name", .text, false, .position 1⟩]⟩

/-- Marks of pupils. -/
def marks : Schema :=
  ⟨"marks", [⟨"number", .int32, false, .position 0⟩, ⟨"mark", .int32, true, .position 1⟩]⟩

/-- A join of marks with pupils, below it the marks with all of their columns listed by a star. The
number of a pupil occurs on both sides and is qualified. -/
theorem wellFormed_of_built_report :
    ∃ listed e, (scan marks).project ["*"] = .ok listed ∧
      (scan pupils).joinWith listed .leftOuter (.equi [("number", "number")]) = .ok e ∧
      e.schema.names = ["pupils.number", "name", "marks.number", "mark"] ∧
      e.WellFormed ∧ listed.WellFormed := by
  obtain ⟨listed, hlisted⟩ : ∃ listed, (scan marks).project ["*"] = .ok listed := ⟨_, rfl⟩
  obtain ⟨e, hjoin, hnames⟩ : ∃ e, (scan pupils).joinWith listed .leftOuter
      (.equi [("number", "number")]) = .ok e ∧
      e.schema.names = ["pupils.number", "name", "marks.number", "mark"] := by
    cases hlisted
    exact ⟨_, rfl, rfl⟩
  have hbuilt : e.Built := .joinWith (.scan pupils) (.mapBy (.scan marks) hlisted) hjoin
  obtain ⟨j, -, rfl⟩ := joinWith_eq_ok hjoin
  obtain ⟨m, -, rfl⟩ := mapBy_eq_ok hlisted
  have hleaves : ∀ leaf ∈ (join (scan pupils) (map (scan marks) m) j).leaves, leaf.Made := by
    rw [leaves_join, leaves_scan, leaves_map, leaves_scan]
    refine List.forall_mem_cons.mpr ⟨⟨"pupils", pupils.columns, Or.inr rfl⟩, ?_⟩
    exact List.forall_mem_singleton.mpr ⟨"marks", marks.columns, Or.inl rfl⟩
  refine ⟨_, _, hlisted, hjoin, hnames, ?_, ?_⟩
  · exact wellFormed_of_built hbuilt hleaves [] rfl
  · exact wellFormed_of_built hbuilt hleaves [1] rfl

end RelExpr

end RelQuery
