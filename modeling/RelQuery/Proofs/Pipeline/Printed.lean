import Mathlib.Data.List.Flatten
import RelQuery.Proofs.Pipeline.Shape
import RelQuery.Proofs.Text.Lines

/-!
# RelQuery.Proofs.Pipeline.Printed

**The lines of a printed plan.**

A plan is one text, and an operator has a line in it only as long as nothing in the line ends it.
Names of relations and columns, labels of functions and text literals stand in the plan as they are,
so each type of the algebra gets the list of the `texts` it is written with, and a lemma that says
that these decide whether it is written on one line (`oneLine_render_iff`).

The walk gives the lines in order (`toList_plan`), so a plan has as many lines as operators exactly
if none of its texts has a break (`length_lines_plan_iff`).

A line tells the level and the kind of its operator, however it goes on. Breaks only add lines to
those of the operators (`marksFrom_sublist`), and no shape is left of another one if some of its
operators are left out (`outline_eq_of_sublist`), so a plan without breaks is the plan of one shape.
With breaks two pipelines of different shape can have the same plan.
-/

namespace RelQuery

/-! ### What an expression is written with -/

namespace Value

/-- A text literal is written as it is. Other values are written in letters of their own. -/
def texts : Value → List String
  | text s => [s]
  | _ => []

theorem oneLine_literal_iff (v : Value) : OneLine v.literal ↔ Tidy v.texts := by
  cases v with
  | null => decide
  | bool b => cases b <;> decide
  | int32 n => simp [literal, render, texts]
  | int64 n => simp [literal, render, texts]
  | float32 x => simp [literal, render, texts]
  | float64 x => simp [literal, render, texts]
  | text s => simp +decide [literal, texts]
  | bytes bs =>
      have hbytes : Tidy (bs.map fun b => b.toNat.repr) :=
        List.forall_mem_map.mpr fun b _ => .nat b.toNat
      simp +decide [literal, render, texts, OneLine.intercalate_iff, hbytes]

end Value

namespace Predicate

/-- The names, labels and literals that a condition is written with. -/
def texts : Predicate → List String
  | compare column _ literal => column :: literal.texts
  | isNull column => [column]
  | and p q => p.texts ++ q.texts
  | or p q => p.texts ++ q.texts
  | not p => p.texts
  | custom label _ => [label]

theorem oneLine_render_iff (p : Predicate) : OneLine p.render ↔ Tidy p.texts := by
  induction p with
  | compare column op literal =>
      cases op <;> simp +decide [render, texts, Comparison.symbol, Value.oneLine_literal_iff]
  | isNull column => simp +decide [render, texts]
  | and p q ihp ihq => simp +decide [render, texts, ihp, ihq]
  | or p q ihp ihq => simp +decide [render, texts, ihp, ihq]
  | not p ih => simp +decide [render, texts, ih]
  | custom label test => simp [render, texts]

end Predicate

namespace ValueExpr

/-- The names, labels and literals that an expression is written with. -/
def texts : ValueExpr → List String
  | column name => [name]
  | literal v => v.texts
  | condition p => p.texts
  | custom label _ _ => [label]

theorem oneLine_render_iff (e : ValueExpr) : OneLine e.render ↔ Tidy e.texts := by
  cases e with
  | column name => simp [render, texts]
  | literal v => exact v.oneLine_literal_iff
  | condition p => exact p.oneLine_render_iff
  | custom label type compute => simp [render, texts]

end ValueExpr

namespace OutputItem

/-- The names, labels and literals that an item is written with. -/
def texts : OutputItem → List String
  | all => []
  | column name label => name :: label.toList
  | computed name expr => expr.texts ++ [name]

theorem oneLine_render_iff (item : OutputItem) :
    OneLine item.render ↔ Tidy item.texts := by
  cases item with
  | all => decide
  | column name label => cases label <;> simp +decide [render, texts]
  | computed name expr =>
      simp +decide [render, texts, expr.oneLine_render_iff]

end OutputItem

namespace RowMap

/-- The names, labels and literals that a map is written with. -/
def texts (m : RowMap) : List String :=
  match m.form with
  | .projection columns => columns
  | .rename relation columns =>
    (relation.toList.flatMap fun name => [m.source.name, name]) ++
      columns.flatMap fun (old, new) => [old, new]
  | .extension items => items.flatMap OutputItem.texts

theorem oneLine_render_iff (m : RowMap) : OneLine m.render ↔ Tidy m.texts := by
  unfold render texts
  cases m.form with
  | projection columns => simp +decide [OneLine.intercalate_iff]
  | rename relation columns =>
      have hpairs := Tidy.map_iff (f := fun (old, new) => s!"{old} AS {new}")
        (g := fun (old, new) => [old, new]) (fun pair => by simp +decide) columns
      cases relation <;> simp +decide [OneLine.intercalate_iff, hpairs, and_assoc]
  | extension items =>
      simp +decide [OneLine.intercalate_iff, Tidy.map_iff OutputItem.oneLine_render_iff]

end RowMap

namespace Aggregate

/-- The names that an aggregate is written with. -/
def texts (a : Aggregate) : List String :=
  a.input.toList ++ [a.output]

theorem oneLine_name (k : AggregateKind) : OneLine k.name := by
  cases k <;> decide

/-- The name is not written if it is the usual one, which is on one line if the column is. -/
theorem oneLine_render_iff (a : Aggregate) : OneLine a.render ↔ Tidy a.texts := by
  have hargument : OneLine (a.input.getD "*") ↔ Tidy a.input.toList := by
    cases a.input <;> simp +decide
  simp only [render, texts]
  split
  case isTrue husual =>
      rw [← husual]
      simp +decide [oneLine_name, hargument]
  case isFalse => simp +decide [oneLine_name, hargument]

end Aggregate

namespace Grouping

/-- The names that a grouping is written with. -/
def texts (g : Grouping) : List String :=
  g.keys ++ g.aggregates.flatMap Aggregate.texts

theorem oneLine_render_iff (g : Grouping) : OneLine g.render ↔ Tidy g.texts := by
  have haggregates := Tidy.map_iff Aggregate.oneLine_render_iff g.aggregates
  rw [render, texts]
  split
  case isTrue hkeys =>
      rw [List.isEmpty_iff.mp hkeys]
      simp +decide [OneLine.intercalate_iff, haggregates]
  case isFalse => simp +decide [OneLine.intercalate_iff, haggregates]

end Grouping

namespace Join

/-- The names and labels that a join is written with; its type is not among them. -/
def texts (j : Join) : List String :=
  match j.rule with
  | .cross => []
  | .theta p => [p.label]
  | .equi keys => keys.pairs.flatMap fun (l, r) => [l, r]

theorem oneLine_render_iff (j : Join) : OneLine j.render ↔ Tidy j.texts := by
  have htype : OneLine j.type.render := by
    cases j.type <;> decide
  unfold render texts
  cases j.rule with
  | cross => simp +decide [htype]
  | theta p => simp +decide [htype]
  | equi keys =>
      have hpairs := Tidy.map_iff (f := fun (l, r) => s!"{l} = {r}")
        (g := fun (l, r) => [l, r]) (fun pair => by simp +decide) keys.pairs
      simp +decide [OneLine.intercalate_iff, htype, hpairs]

end Join

theorem Schema.oneLine_render_iff (s : Schema) : OneLine s.render ↔ Tidy (s.name :: s.names) := by
  simp +decide [render, OneLine.intercalate_iff]

theorem Input.oneLine_describe (h : Handouts) (input : Input) : OneLine (input.describe h) := by
  cases input with
  | table t => simp +decide [describe]
  | sorted t => simp +decide [describe]
  | stream ticket s =>
      rw [describe]
      split <;> decide

namespace Operator

variable {h h' : Handouts} {op op' : Operator}

/-- What an operator says of itself is written with: names of columns and relations, labels, and
text literals. -/
def ownTexts : Operator → List String
  | source name _ _ => [name]
  | filter _ p => p.texts
  | map _ m => m.texts
  | group _ g => g.texts
  | join _ _ j _ _ => j.texts

/-- What the line of an operator is written with. -/
def lineTexts (op : Operator) : List String :=
  op.ownTexts ++ op.schema.name :: op.schema.names

/-- What the plan of a pipeline is written with. -/
def texts (op : Operator) : List String :=
  op.placed.flatMap fun entry => entry.2.lineTexts

theorem oneLine_describe_iff (h : Handouts) (op : Operator) :
    OneLine (op.describe h) ↔ Tidy op.ownTexts := by
  cases op with
  | source name s input =>
      simp +decide [describe, ownTexts, input.oneLine_describe h]
  | filter input p => exact p.oneLine_render_iff
  | map input m => exact m.oneLine_render_iff
  | group input g => exact g.oneLine_render_iff
  | join left right j strategy verify =>
      simp only [describe, ownTexts, ← j.oneLine_render_iff]
      split <;> simp +decide

/-! ### Lines -/

/-- The line of an operator in a printed plan, without the break at its end. -/
def line (h : Handouts) (depth : Nat) (op : Operator) : List Char :=
  List.replicate (2 * depth) ' ' ++ s!"{op.kind}: {op.describe h} -> {op.schema.render}".toList

theorem toList_planLine (h : Handouts) (depth : Nat) (op : Operator) :
    (op.planLine h depth).toList = op.line h depth ++ ['\n'] := by
  rw [planLine, treeLine, String.toList_append, String.toList_append, String.toList_ofList]
  rfl

/-- A walk prints what it enters, and nothing when it leaves. -/
theorem toList_join_visits {print : Visit → String}
    (henter : ∀ depth op, print (.enter depth op) = op.planLine h depth)
    (hleave : ∀ depth op, print (.leave depth op) = "") (visits : List Visit) :
    (String.join (visits.map print)).toList =
      Text.unlines ((entered visits).map fun entry => entry.2.line h entry.1) := by
  induction visits with
  | nil => rfl
  | cons visit visits ih =>
      rw [String.toList_join] at ih ⊢
      rw [List.map_cons, List.flatMap_cons, ih]
      cases visit with
      | enter depth op => simp [henter, toList_planLine, entered, Text.unlines]
      | leave depth op => simp [hleave, entered]

/-- A plan is the lines of the operators at their places, each ended by a break. -/
theorem toList_plan (h : Handouts) (op : Operator) : (op.plan h).toList =
    Text.unlines (op.placed.map fun entry => entry.2.line h entry.1.length) := by
  rw [plan, toList_join_visits (fun _ _ => rfl) (fun _ _ => rfl), walk, entered_walkFrom,
    List.map_map]
  simp [Function.comp_def]

theorem not_mem_line_iff (h : Handouts) (depth : Nat) (op : Operator) :
    '\n' ∉ op.line h depth ↔ Tidy op.lineTexts := by
  have hkind : OneLine op.kind := by
    cases op <;> simp +decide [kind]
  have hline : OneLine s!"{op.kind}: {op.describe h} -> {op.schema.render}" ↔
      Tidy op.lineTexts := by
    simp +decide [lineTexts, hkind, oneLine_describe_iff, Schema.oneLine_render_iff]
  rw [← hline, line, List.mem_append, not_or, OneLine]
  simp

/-! ### What the lines tell -/

/-- What a line tells of its operator, however it goes on: the level and the kind. -/
def markOf (line : List Char) : Nat × String :=
  (Text.indent line / 2, String.ofList (Text.keyword line))

/-- The front of a line, up to the colon. -/
def lineFront (depth : Nat) (op : Operator) : List Char :=
  List.replicate (2 * depth) ' ' ++ op.kind.toList ++ [':']

theorem line_eq (h : Handouts) (depth : Nat) (op : Operator) : op.line h depth =
    op.lineFront depth ++ s!" {op.describe h} -> {op.schema.render}".toList := by
  simp only [line, lineFront, String.toList_append, List.append_assoc]
  rfl

theorem ne_of_mem_kind (op : Operator) : ∀ c ∈ op.kind.toList, c ≠ ' ' ∧ c ≠ ':' := by
  cases op <;> simp [kind]

theorem not_mem_lineFront (depth : Nat) (op : Operator) : '\n' ∉ op.lineFront depth := by
  cases op <;> simp [lineFront, kind]

theorem indent_lineFront_append (depth : Nat) (op : Operator) (rest : List Char) :
    Text.indent (op.lineFront depth ++ rest) = 2 * depth := by
  simp [lineFront, Text.indent_replicate_append op.ne_of_mem_kind]

theorem markOf_lineFront_append (depth : Nat) (op : Operator) (rest : List Char) :
    markOf (op.lineFront depth ++ rest) = (depth, op.kind) := by
  rw [markOf, indent_lineFront_append]
  simp [lineFront, Text.keyword_replicate_append op.ne_of_mem_kind]

/-- What the lines of the operators tell, from a level on. -/
def marksFrom (depth : Nat) (op : Operator) : List (Nat × String) :=
  op.placed.map fun entry => (depth + entry.1.length, entry.2.kind)

/-- Whatever a plan is written with, its lines tell what those of the operators do. The lines that
breaks in the texts make come between them. -/
theorem marksFrom_sublist (h : Handouts) (op : Operator) :
    (op.marksFrom 0).Sublist ((Text.lines (op.plan h).toList).map markOf) := by
  rw [toList_plan, Text.lines_unlines, List.flatMap_map, List.map_flatMap, marksFrom,
    List.map_eq_flatMap]
  refine List.Sublist.flatMap_right _ fun entry _ => List.singleton_sublist.mpr ?_
  obtain ⟨rest, lines, hlines⟩ := Text.exists_lines_eq
    (entry.2.not_mem_lineFront entry.1.length)
    s!" {entry.2.describe h} -> {entry.2.schema.render}".toList
  rw [line_eq, hlines, List.map_cons, markOf_lineFront_append, Nat.zero_add]
  exact List.mem_cons_self

theorem tidy_texts_iff (h : Handouts) : Tidy op.texts ↔
    ∀ part ∈ op.placed.map fun entry => entry.2.line h entry.1.length, '\n' ∉ part := by
  rw [Tidy, texts, List.forall_mem_flatMap, List.forall_mem_map]
  exact forall₂_congr fun entry _ => (entry.2.not_mem_line_iff h entry.1.length).symm

/-- A plan has as many lines as operators exactly if nothing that it is written with has a break. -/
theorem length_lines_plan_iff (h : Handouts) (op : Operator) :
    (Text.lines (op.plan h).toList).length = op.placed.length ↔ Tidy op.texts := by
  rw [tidy_texts_iff h, ← Text.length_lines_unlines_iff, toList_plan, List.length_map]

theorem lines_plan (htidy : Tidy op.texts) : Text.lines (op.plan h).toList =
    op.placed.map fun entry => entry.2.line h entry.1.length := by
  rw [toList_plan, Text.lines_unlines_of_not_mem ((tidy_texts_iff h).mp htidy)]

/-- Without breaks there are no other lines. -/
theorem map_markOf_lines (htidy : Tidy op.texts) :
    (Text.lines (op.plan h).toList).map markOf = op.marksFrom 0 := by
  rw [lines_plan htidy, List.map_map, marksFrom]
  refine List.map_congr_left fun entry _ => ?_
  rw [Function.comp_apply, line_eq, markOf_lineFront_append, Nat.zero_add]

/-! ### Shapes -/

/-- The shape of a pipeline: what kind of operator stands at which place. -/
def outline (op : Operator) : List (List Nat × String) :=
  op.placed.map (Prod.map id kind)

theorem outline_eq (op : Operator) : op.outline = ([], op.kind) ::
    (op.inputs.map outline).zipIdx.flatMap fun entry =>
      entry.1.map (Prod.map (entry.2 :: ·) id) := by
  cases op <;> simp [outline, placed, inputs, Prod.map_comp_map]

theorem marksFrom_eq (depth : Nat) (op : Operator) : op.marksFrom depth =
    (depth, op.kind) :: op.inputs.flatMap (marksFrom (depth + 1)) := by
  cases op <;>
    simp [marksFrom, placed, inputs, Function.comp_def, Nat.add_assoc, Nat.add_comm 1]

theorem length_inputs_eq (hkind : op.kind = op'.kind) : op.inputs.length = op'.inputs.length := by
  cases op <;> cases op' <;> simp [kind] at hkind <;> rfl

/-! ### Marks that are left out -/

/-- How many of the marks are of a level. -/
def countAt (depth : Nat) (marks : List (Nat × String)) : Nat :=
  marks.countP (·.1 == depth)

theorem countAt_append (depth : Nat) (marks rest : List (Nat × String)) :
    countAt depth (marks ++ rest) = countAt depth marks + countAt depth rest :=
  List.countP_append

theorem countAt_cons_self (depth : Nat) (kind : String) (rest : List (Nat × String)) :
    countAt depth ((depth, kind) :: rest) = countAt depth rest + 1 :=
  List.countP_cons_of_pos (beq_self_eq_true depth)

theorem countAt_le {marks marks' : List (Nat × String)} (hsublist : marks.Sublist marks')
    (depth : Nat) : countAt depth marks ≤ countAt depth marks' :=
  hsublist.countP_le

/-- The marks of what stands below an operator are of higher levels. -/
theorem lt_of_mem_below {depth : Nat} {ops : List Operator} {mark : Nat × String}
    (hmem : mark ∈ ops.flatMap (marksFrom (depth + 1))) : depth < mark.1 := by
  obtain ⟨op, -, hmem⟩ := List.mem_flatMap.mp hmem
  obtain ⟨entry, -, rfl⟩ := List.mem_map.mp hmem
  exact Nat.lt_of_lt_of_le (Nat.lt_succ_self depth) (Nat.le_add_right _ _)

theorem countAt_marksFrom (depth : Nat) (op : Operator) :
    countAt depth (op.marksFrom depth) = 1 := by
  have hbelow : countAt depth (op.inputs.flatMap (marksFrom (depth + 1))) = 0 :=
    List.countP_eq_zero.mpr fun mark hmem => by
      simpa using Nat.ne_of_gt (lt_of_mem_below hmem)
  rw [marksFrom_eq, countAt_cons_self, hbelow]

/-- Each of several pipelines has one mark of the first level. -/
theorem countAt_flatMap (depth : Nat) (ops : List Operator) :
    countAt depth (ops.flatMap (marksFrom depth)) = ops.length := by
  induction ops with
  | nil => rfl
  | cons op ops ih =>
      rw [List.flatMap_cons, countAt_append, countAt_marksFrom, ih, List.length_cons, Nat.add_comm]

/-- It is the first of its marks, so a list that leaves none of these out begins with one. -/
theorem level_of_sublist {depth : Nat} {ops : List Operator} {mark : Nat × String}
    {marks : List (Nat × String)}
    (hsublist : (mark :: marks).Sublist (ops.flatMap (marksFrom depth)))
    (hcount : ops.length ≤ countAt depth (mark :: marks)) : mark.1 = depth := by
  cases ops with
  | nil => exact absurd (List.sublist_nil.mp hsublist) (by simp)
  | cons op ops =>
      have htotal := countAt_flatMap depth (op :: ops)
      rw [List.flatMap_cons, marksFrom_eq, List.cons_append] at hsublist htotal
      rcases List.cons_sublist_cons'.mp hsublist with hbelow | ⟨rfl, -⟩
      · have hle := countAt_le hbelow depth
        rw [countAt_cons_self] at htotal
        omega
      · rfl

/-- If some marks of pipelines are those of as many pipelines, then some marks of the first are
those of the first, and so on. None of the marks of the first level can be left out, so the others
stay between the same two of them. -/
theorem sublist_of_flatMap_cons {depth : Nat} {ops ops' : List Operator}
    (hlength : ops'.length = ops.length)
    (hsublist : ((op' :: ops').flatMap (marksFrom depth)).Sublist
      ((op :: ops).flatMap (marksFrom depth))) :
    (op'.marksFrom depth).Sublist (op.marksFrom depth) ∧
      (ops'.flatMap (marksFrom depth)).Sublist (ops.flatMap (marksFrom depth)) := by
  rw [List.flatMap_cons, List.flatMap_cons] at hsublist
  obtain ⟨first, rest, heq, hfirst, hrest⟩ := List.sublist_append_iff.mp hsublist
  have hcountFirst := countAt_le hfirst depth
  have hcountRest := countAt_le hrest depth
  rw [countAt_marksFrom] at hcountFirst
  rw [countAt_flatMap] at hcountRest
  rcases List.append_eq_append_iff.mp heq with ⟨more, rfl, hothers⟩ | ⟨more, hself, rfl⟩
  · -- Nothing of the other pipelines goes into the first one.
    cases more with
    | nil => exact ⟨by simpa using hfirst, by simpa [hothers] using hrest⟩
    | cons mark more =>
        have htotal := countAt_flatMap depth ops'
        have hall := List.Sublist.refl (ops'.flatMap (marksFrom depth))
        nth_rewrite 1 [hothers] at hall
        rw [hothers] at htotal
        obtain rfl := level_of_sublist hall (Nat.le_of_eq htotal.symm)
        rw [countAt_append, countAt_marksFrom, countAt_cons_self] at hcountFirst
        omega
  · -- Nothing of the first pipeline goes into the other ones.
    cases more with
    | nil => exact ⟨by simpa [hself] using hfirst, by simpa using hrest⟩
    | cons mark more =>
        have hcount : ops.length ≤
            countAt depth (mark :: more ++ ops'.flatMap (marksFrom depth)) := by
          rw [countAt_append, countAt_flatMap]
          omega
        obtain rfl := level_of_sublist hrest hcount
        rw [countAt_append, countAt_flatMap, countAt_cons_self] at hcountRest
        omega

/-- Pipelines of which some marks are those of as many others have the shapes of these, if that
holds of single ones. -/
theorem outlines_eq_of_sublist {depth : Nat} : ∀ {ops ops' : List Operator},
    (∀ op ∈ ops, ∀ op' : Operator, (op'.marksFrom depth).Sublist (op.marksFrom depth) →
      op'.outline = op.outline) →
    ops'.length = ops.length →
    (ops'.flatMap (marksFrom depth)).Sublist (ops.flatMap (marksFrom depth)) →
      ops'.map outline = ops.map outline
  | [], [], _, _, _ => rfl
  | op :: ops, op' :: ops', hread, hlength, hsublist => by
      have hlength := Nat.succ.inj hlength
      obtain ⟨hfirst, hrest⟩ := sublist_of_flatMap_cons hlength hsublist
      rw [List.forall_mem_cons] at hread
      rw [List.map_cons, List.map_cons, hread.1 op' hfirst,
        outlines_eq_of_sublist hread.2 hlength hrest]

/-- A pipeline cannot be made another one by leaving some of its operators out: the kinds say how
many inputs each operator has, and the levels to which operator an input belongs. -/
theorem outline_eq_of_sublist (op : Operator) : ∀ {op' : Operator} {depth : Nat},
    (op'.marksFrom depth).Sublist (op.marksFrom depth) → op'.outline = op.outline := by
  induction op using inputs_induction with
  | step op ih =>
      intro op' depth hsublist
      rw [marksFrom_eq, marksFrom_eq depth op] at hsublist
      rcases List.cons_sublist_cons'.mp hsublist with hbelow | ⟨hroot, hinputs⟩
      · have hmem := hbelow.subset List.mem_cons_self
        exact absurd (lt_of_mem_below hmem) (Nat.lt_irrefl depth)
      · have hkind : op'.kind = op.kind := (Prod.mk.inj hroot).2
        have houtlines := outlines_eq_of_sublist (fun input hmem _ => ih input hmem)
          (length_inputs_eq hkind) hinputs
        rw [outline_eq, outline_eq op, hkind, houtlines]

/-- **A printed plan has one line for each operator, as long as no text breaks a line.** Whatever a
pipeline is made of, its plan has as many lines as the pipeline has operators exactly if none of the
names, labels and text literals in it has a line break. In that case the lines are those of the
operators in preorder, each indented by two spaces for each level. The plan then shares neither its
text nor the bytes of the text, from which the digest of a run is computed, with the plan of any
pipeline of another shape, whatever that is made of and whichever streams are gone. -/
theorem plan_lines (h : Handouts) (op : Operator) :
    ((Text.lines (op.plan h).toList).length = op.placed.length ↔ Tidy op.texts) ∧
    (Tidy op.texts →
      List.Forall₂ (fun line entry => Text.indent line = 2 * entry.1.length)
        (Text.lines (op.plan h).toList) op.placed ∧
      ∀ (h' : Handouts) (op' : Operator), op.outline ≠ op'.outline →
        op.plan h ≠ op'.plan h' ∧ (op.plan h).toUTF8.toList ≠ (op'.plan h').toUTF8.toList) := by
  refine ⟨length_lines_plan_iff h op, fun htidy => ⟨?_, ?_⟩⟩
  · rw [lines_plan htidy, List.forall₂_map_left_iff, List.forall₂_same]
    intro entry _
    rw [line_eq, indent_lineFront_append]
  · intro h' op' hshape
    have hplan : op.plan h ≠ op'.plan h' := by
      intro heq
      have hsublist := op'.marksFrom_sublist h'
      rw [← heq, map_markOf_lines htidy] at hsublist
      exact hshape (op.outline_eq_of_sublist hsublist).symm
    exact ⟨hplan, mt Text.eq_of_utf8_eq hplan⟩

/-- Notes, each on a page. -/
def notes : Schema :=
  ⟨"notes", [⟨"page", .int32, false, .position 0⟩, ⟨"body", .text, false, .position 1⟩]⟩

/-- A table without notes. -/
def noNotes : Input :=
  .table ⟨notes, [], by simp⟩

/-- Bindings for the notes. -/
def shelf : Bindings :=
  ⟨[("notes", noNotes)], List.pairwise_singleton _ _⟩

/-- The condition that a note has a given body. -/
def bodyIs (body : String) : Predicate :=
  .compare "body" .eq (.text body)

/-- A condition on the notes makes a plan of two lines, and another plan than no condition. -/
theorem plan_lines_notes : ∃ leaf op, compile default shelf .none (.scan notes) = .ok leaf ∧
    compile default shelf .none (.select (.scan notes) (bodyIs "two lines")) = .ok op ∧
    (Text.lines (op.plan .none).toList).length = 2 ∧
    (op.plan .none).toUTF8.toList ≠ (leaf.plan .none).toUTF8.toList := by
  let leaf : Operator := .source "notes" notes noNotes
  obtain ⟨hcount, hlines⟩ := plan_lines .none (.filter leaf (bodyIs "two lines"))
  refine ⟨leaf, _, rfl, rfl, hcount.mpr (by decide), ?_⟩
  obtain ⟨-, hother⟩ := hlines (by decide)
  exact (hother .none leaf (by decide)).2

/-- Bills, whose one column has a given name. -/
def bills (column : String) : Schema :=
  ⟨"bills", [⟨column, .int32, false, .position 0⟩]⟩

/-- Bindings for bills whose column has a given name. -/
def desk (column : String) : Bindings :=
  ⟨[("bills", .stream 0 (.ofRows (bills column) []))], List.pairwise_singleton _ _⟩

/-- All bills, by a condition that only its label tells from others. -/
def labelled (label : String) : Predicate :=
  .custom label fun _ => .ok true

/-- A name that ends its line and begins the next one as the line of a source begins. -/
def forged : String :=
  "id)\n  source: bills Stream(fresh) -> bills(id"

/-- All bills, through two conditions. -/
def filteredTwice : RelExpr :=
  .select (.select (.scan (bills forged)) (labelled "open")) (labelled "late")

/-- The label has the lines of all operators but the last. -/
def filteredOnce : RelExpr :=
  .select (.scan (bills "id")) <| labelled <|
    "late -> bills(id)\n  source: bills Stream(fresh) -> bills(id)\n" ++
    "  filter: open -> bills(id)\n  source: bills Stream(fresh) -> bills(id)\n" ++
    "    source: bills Stream(fresh)"

/-- A text literal with a break makes three lines of two operators. A column name and a label with
breaks make the plans of two pipelines the same, one of three operators and one of two. -/
theorem plan_broken :
    (∃ e op, RelExpr.filter (.scan notes) (bodyIs "two\nlines") = .ok e ∧
      compile default shelf .none e = .ok op ∧
      op.placed.length = 2 ∧ (Text.lines (op.plan .none).toList).length = 3) ∧
    ∃ twice once, compile default (desk forged) .none filteredTwice = .ok twice ∧
      compile default (desk "id") .none filteredOnce = .ok once ∧
      twice.placed.length = 3 ∧ once.placed.length = 2 ∧ twice.plan .none = once.plan .none := by
  refine ⟨⟨_, _, rfl, rfl, rfl, rfl⟩, _, _, rfl, rfl, rfl, rfl, ?_⟩
  decide +kernel

end Operator

end RelQuery
