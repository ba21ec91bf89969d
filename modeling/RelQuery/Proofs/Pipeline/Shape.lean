import RelQuery.Proofs.Pipeline.Compile

/-!
# RelQuery.Proofs.Pipeline.Shape

**A pipeline has the shape of its expression.**

A place in a tree is a path: the indices of the inputs to follow from the root. Expressions and
pipelines are different types, and what they have in common is said place by place: compilation maps
the inputs of a node to the inputs of its operator, in order (`compile_inputs`), so at each place
there is a node and the operator compiled from it, or neither (`compile_at?`).

A walk is compared with places and not with operators, since equal operators may stand at different
places. `Operator.placed` lists the operators with their places as they stand in the tree; a walk
enters exactly these (`entered_walkFrom`), and its visits are nested like brackets
(`nested_walkFrom`). All of this is proved once for the list of inputs of an operator, whatever the
operator is (`walkFrom_eq`, `placed_eq`).

Compilation fails at the first leaf that the bindings do not supply, in the order in which the stack
of `RelExpr.leaves` finds them (`compile_of_refused?_eq_some`), and otherwise succeeds.
-/

namespace RelQuery

/-- The operator that implements a node, by its printed name. -/
def RelExpr.operatorKind : RelExpr → String
  | scan _ => "source"
  | select .. => "filter"
  | map .. => "map"
  | group .. => "aggregate"
  | join .. => "join"

/-! ### What the bindings have for a leaf -/

/-- Whether what is bound is a stream that has been handed out. -/
def Input.isGone (h : Handouts) (input : Input) : Bool :=
  input.ticket?.any h.isSpent

theorem Input.schema?_eq (h : Handouts) (input : Input) :
    input.schema? h = if input.isGone h then none else some input.relation.schema := by
  cases input with
  | table t => rfl
  | sorted t => rfl
  | stream ticket s => rfl

namespace Bindings

/-- Whether something is bound to the leaf: a stream that is gone, or rows that the leaf takes. -/
def supplies (bindings : Bindings) (h : Handouts) (leaf : Schema) : Bool :=
  (bindings.get? leaf.name).any fun input => input.isGone h || input.relation.schema.fits leaf

/-- Why the bindings do not supply a leaf. -/
inductive Refuses (bindings : Bindings) (h : Handouts) (leaf : Schema) : Error → Prop where
  /-- Nothing is bound to the name. -/
  | unbound : bindings.get? leaf.name = none →
      Refuses bindings h leaf (.unbound leaf.name bindings.names)
  /-- What is bound has rows of another kind. -/
  | incompatible {input : Input} : bindings.get? leaf.name = some input →
      input.isGone h = false → input.relation.schema.fits leaf = false →
      Refuses bindings h leaf
        (.boundSchema leaf.name input.relation.schema.render leaf.render)

/-- A missing binding is a problem of the plan, an incompatible one is a problem of schemas. -/
theorem Refuses.kind {bindings : Bindings} {h : Handouts} {leaf : Schema} {e : Error}
    (hrefuses : bindings.Refuses h leaf e) :
    e.kind = if (bindings.get? leaf.name).isSome then .schema else .plan := by
  cases hrefuses with
  | unbound hget =>
      rw [hget]
      rfl
  | incompatible hget _ _ =>
      rw [hget]
      rfl

end Bindings

/-- The first leaf that the bindings do not supply. -/
def RelExpr.refused? (bindings : Bindings) (h : Handouts) (e : RelExpr) : Option Schema :=
  e.leaves.find? fun leaf => !bindings.supplies h leaf

namespace Operator

variable {settings : Settings} {bindings : Bindings} {h : Handouts} {leaf : Schema}
variable {e : RelExpr} {a op part : Operator}

theorem compileLeaf_of_supplies (hsupplies : bindings.supplies h leaf = true) :
    ∃ op, compileLeaf bindings h leaf = .ok op := by
  rw [compileLeaf]
  cases hget : bindings.get? leaf.name with
  | none =>
      rw [Bindings.supplies, hget] at hsupplies
      exact absurd hsupplies (by simp)
  | some input =>
      rw [Bindings.supplies, hget, Option.any_some, Bool.or_eq_true] at hsupplies
      refine ⟨source leaf.name leaf input, ?_⟩
      by_cases hgone : input.isGone h = true
      · simp [Input.schema?_eq, hgone]
      · simp [Input.schema?_eq, hgone, hsupplies.resolve_left hgone]

theorem compileLeaf_of_not_supplies (hnot : bindings.supplies h leaf = false) :
    ∃ error, bindings.Refuses h leaf error ∧ compileLeaf bindings h leaf = .error error := by
  rw [compileLeaf]
  cases hget : bindings.get? leaf.name with
  | none => exact ⟨_, .unbound hget, rfl⟩
  | some input =>
      rw [Bindings.supplies, hget, Option.any_some, Bool.or_eq_false_iff] at hnot
      obtain ⟨hgone, hfits⟩ := hnot
      refine ⟨_, .incompatible hget hgone hfits, ?_⟩
      simp [Input.schema?_eq, hgone, hfits]

/-- Compilation succeeds if no leaf is refused. -/
theorem compile_of_refused?_eq_none : ∀ {e : RelExpr}, e.refused? bindings h = none →
    ∃ op, compile settings bindings h e = .ok op
  | .scan leaf, hnone => by
      rw [RelExpr.refused?, RelExpr.leaves_scan, List.find?_singleton] at hnone
      exact compileLeaf_of_supplies (by simpa using hnone)
  | .select input p, hnone => by
      rw [RelExpr.refused?, RelExpr.leaves_select] at hnone
      obtain ⟨a, ha⟩ := compile_of_refused?_eq_none hnone
      exact ⟨filter a p, bind_eq_ok_iff.mpr ⟨a, ha, rfl⟩⟩
  | .map input m, hnone => by
      rw [RelExpr.refused?, RelExpr.leaves_map] at hnone
      obtain ⟨a, ha⟩ := compile_of_refused?_eq_none hnone
      exact ⟨map a m, bind_eq_ok_iff.mpr ⟨a, ha, rfl⟩⟩
  | .group input g, hnone => by
      rw [RelExpr.refused?, RelExpr.leaves_group] at hnone
      obtain ⟨a, ha⟩ := compile_of_refused?_eq_none hnone
      exact ⟨group a g, bind_eq_ok_iff.mpr ⟨a, ha, rfl⟩⟩
  | .join left right j, hnone => by
      rw [RelExpr.refused?, RelExpr.leaves_join, List.find?_append, Option.or_eq_none_iff] at hnone
      obtain ⟨a, ha⟩ := compile_of_refused?_eq_none hnone.1
      obtain ⟨b, hb⟩ := compile_of_refused?_eq_none hnone.2
      exact ⟨join a b j _ _, bind_eq_ok_iff.mpr ⟨a, ha, bind_eq_ok_iff.mpr ⟨b, hb, rfl⟩⟩⟩

/-- Compilation fails at the first leaf that is refused. If that is a leaf of the right-hand side of
a join, the left-hand side has compiled. -/
theorem compile_of_refused?_eq_some : ∀ {e : RelExpr}, e.refused? bindings h = some leaf →
    ∃ error, bindings.Refuses h leaf error ∧ compile settings bindings h e = .error error
  | .scan s, hsome => by
      rw [RelExpr.refused?, RelExpr.leaves_scan] at hsome
      obtain rfl := List.mem_singleton.mp (List.mem_of_find?_eq_some hsome)
      exact compileLeaf_of_not_supplies (by simpa using List.find?_some hsome)
  | .select input p, hsome => by
      rw [RelExpr.refused?, RelExpr.leaves_select] at hsome
      obtain ⟨error, hrefuses, herror⟩ := compile_of_refused?_eq_some hsome
      exact ⟨error, hrefuses, bind_eq_error_iff.mpr (Or.inl herror)⟩
  | .map input m, hsome => by
      rw [RelExpr.refused?, RelExpr.leaves_map] at hsome
      obtain ⟨error, hrefuses, herror⟩ := compile_of_refused?_eq_some hsome
      exact ⟨error, hrefuses, bind_eq_error_iff.mpr (Or.inl herror)⟩
  | .group input g, hsome => by
      rw [RelExpr.refused?, RelExpr.leaves_group] at hsome
      obtain ⟨error, hrefuses, herror⟩ := compile_of_refused?_eq_some hsome
      exact ⟨error, hrefuses, bind_eq_error_iff.mpr (Or.inl herror)⟩
  | .join left right j, hsome => by
      rw [RelExpr.refused?, RelExpr.leaves_join, List.find?_append, Option.or_eq_some_iff] at hsome
      rcases hsome with hleft | ⟨hleft, hright⟩
      · obtain ⟨error, hrefuses, herror⟩ := compile_of_refused?_eq_some hleft
        exact ⟨error, hrefuses, bind_eq_error_iff.mpr (Or.inl herror)⟩
      · obtain ⟨a, ha⟩ := @compile_of_refused?_eq_none settings bindings h left hleft
        obtain ⟨error, hrefuses, herror⟩ := compile_of_refused?_eq_some hright
        exact ⟨error, hrefuses, bind_eq_error_iff.mpr
          (Or.inr ⟨a, ha, bind_eq_error_iff.mpr (Or.inl herror)⟩)⟩

/-! ### Places -/

/-- The operator at a place: the indices of the inputs that lead to it from the root. -/
def at? (op : Operator) : List Nat → Option Operator
  | [] => some op
  | i :: place => op.inputs[i]?.bind fun input => input.at? place

/-- The operators of a pipeline with their places, an operator before its inputs. -/
def placed (op : Operator) : List (List Nat × Operator) :=
  match op with
  | source .. => [([], op)]
  | filter input _ | map input _ | group input _ =>
    ([], op) :: input.placed.map (Prod.map (0 :: ·) id)
  | join left right _ _ _ =>
    ([], op) :: left.placed.map (Prod.map (0 :: ·) id)
      ++ right.placed.map (Prod.map (1 :: ·) id)

theorem placed_eq (op : Operator) : op.placed = ([], op) :: op.inputs.zipIdx.flatMap
    fun entry => entry.1.placed.map (Prod.map (entry.2 :: ·) id) := by
  cases op <;> simp [placed, inputs]

theorem walkFrom_eq (depth : Nat) (op : Operator) : op.walkFrom depth =
    .enter depth op :: op.inputs.flatMap (walkFrom (depth + 1)) ++ [.leave depth op] := by
  cases op <;> simp [walkFrom, inputs]

theorem sizeOf_lt_of_mem_inputs (hmem : a ∈ op.inputs) : sizeOf a < sizeOf op := by
  cases op with
  | source name s input => simp [inputs] at hmem
  | filter input p =>
      obtain rfl := List.mem_singleton.mp hmem
      simp only [filter.sizeOf_spec]
      omega
  | map input m =>
      obtain rfl := List.mem_singleton.mp hmem
      simp only [map.sizeOf_spec]
      omega
  | group input g =>
      obtain rfl := List.mem_singleton.mp hmem
      simp only [group.sizeOf_spec]
      omega
  | join left right j strategy verify =>
      simp only [inputs, List.mem_cons, List.not_mem_nil, or_false] at hmem
      simp only [join.sizeOf_spec]
      rcases hmem with rfl | rfl <;> omega

/-- What holds of an operator if it holds of its inputs holds of every operator. -/
theorem inputs_induction {P : Operator → Prop}
    (step : ∀ op, (∀ input ∈ op.inputs, P input) → P op) (op : Operator) : P op :=
  step op fun input _ => inputs_induction step input
termination_by op
decreasing_by exact sizeOf_lt_of_mem_inputs ‹_›

/-- The list has the operators of the tree with the places at which they stand. -/
theorem mem_placed_iff (op : Operator) : ∀ {place : List Nat} {part : Operator},
    (place, part) ∈ op.placed ↔ op.at? place = some part := by
  induction op using inputs_induction with
  | step op ih =>
      intro place part
      rw [placed_eq, List.mem_cons]
      cases place with
      | nil => simp [at?, eq_comm]
      | cons i place =>
          simp only [Prod.mk.injEq, List.cons_ne_nil, false_and, false_or, at?, List.mem_flatMap,
            List.mem_map, Option.bind_eq_some_iff]
          constructor
          · rintro ⟨⟨input, i'⟩, hmem, ⟨place', part'⟩, hpart, heq⟩
            obtain ⟨⟨rfl, rfl⟩, rfl⟩ := by simpa using heq
            rw [List.mem_zipIdx_iff_getElem?] at hmem
            exact ⟨input, hmem, (ih input (List.mem_of_getElem? hmem)).mp hpart⟩
          · rintro ⟨input, hget, hat⟩
            exact ⟨(input, i), List.mem_zipIdx_iff_getElem?.mpr hget, (place, part),
              (ih input (List.mem_of_getElem? hget)).mpr hat, rfl⟩

/-- The places are listed in the order of paths: a place before those below it, and those below one
input before those below the next. -/
theorem pairwise_placed (op : Operator) :
    (op.placed.map Prod.fst).Pairwise (List.Lex (· < ·)) := by
  induction op using inputs_induction with
  | step op ih =>
      rw [List.pairwise_map, placed_eq, List.pairwise_cons]
      constructor
      · intro entry hentry
        simp only [List.mem_flatMap, List.mem_map] at hentry
        obtain ⟨⟨input, i⟩, -, below, -, rfl⟩ := hentry
        exact .nil
      · rw [List.pairwise_flatMap]
        constructor
        · rintro ⟨input, i⟩ hmem
          have hinput := ih input (List.mem_of_getElem? (List.mem_zipIdx_iff_getElem?.mp hmem))
          rw [List.pairwise_map] at hinput ⊢
          exact hinput.imp fun hlex => .cons hlex
        · refine (pairwise_zipIdx op.inputs).imp fun hlt x hx y hy => ?_
          obtain ⟨x', -, rfl⟩ := List.mem_map.mp hx
          obtain ⟨y', -, rfl⟩ := List.mem_map.mp hy
          exact .rel hlt

/-! ### Walks -/

/-- A walk enters the operator itself, and what the walks through its inputs enter. -/
theorem enter_mem_walkFrom_iff {depth d : Nat} : .enter d part ∈ op.walkFrom depth ↔
    (d = depth ∧ part = op) ∨
      ∃ input ∈ op.inputs, .enter d part ∈ input.walkFrom (depth + 1) := by
  rw [walkFrom_eq]
  simp

/-- The operators that a walk enters, with their depths. -/
def entered : List Visit → List (Nat × Operator) :=
  List.filterMap fun
    | .enter depth op => some (depth, op)
    | .leave .. => none

/-- A sequence of visits at a depth in which each operator that is entered is left again, after
visits at greater depth and before the next operator at its own depth is entered. -/
inductive Nested : Nat → List Visit → Prop where
  | nil (depth : Nat) : Nested depth []
  | cons {depth : Nat} {op : Operator} {inner rest : List Visit} :
      Nested (depth + 1) inner → Nested depth rest →
      Nested depth (.enter depth op :: inner ++ .leave depth op :: rest)

theorem Nested.append {depth : Nat} {visits rest : List Visit} (hvisits : Nested depth visits)
    (hrest : Nested depth rest) : Nested depth (visits ++ rest) := by
  induction hvisits with
  | nil depth => exact hrest
  | @cons depth op inner rest' hinner _ _ ih =>
      have happend := @Nested.cons depth op _ _ hinner (ih hrest)
      simpa using happend

theorem nested_flatMap {depth : Nat} {inputs : List Operator}
    (hinputs : ∀ input ∈ inputs, Nested depth (input.walkFrom depth)) :
    Nested depth (inputs.flatMap (walkFrom depth)) := by
  induction inputs with
  | nil => exact .nil depth
  | cons input inputs ih =>
      rw [List.forall_mem_cons] at hinputs
      rw [List.flatMap_cons]
      exact hinputs.1.append (ih hinputs.2)

/-- The visits of a walk are nested. -/
theorem nested_walkFrom (op : Operator) : ∀ depth, Nested depth (op.walkFrom depth) := by
  induction op using inputs_induction with
  | step op ih =>
      intro depth
      rw [walkFrom_eq]
      exact .cons (nested_flatMap fun input hmem => ih input hmem (depth + 1)) (.nil depth)

theorem entered_append (visits rest : List Visit) :
    entered (visits ++ rest) = entered visits ++ entered rest :=
  List.filterMap_append

/-- The walks through the inputs of an operator, which stand one step below it. -/
theorem entered_flatMap {depth : Nat} {inputs : List Operator}
    (hinputs : ∀ input ∈ inputs, entered (input.walkFrom (depth + 1)) =
      input.placed.map (Prod.map (fun place => depth + 1 + place.length) id)) :
    ∀ first, entered (inputs.flatMap (walkFrom (depth + 1))) =
      ((inputs.zipIdx first).flatMap fun entry =>
        entry.1.placed.map (Prod.map (entry.2 :: ·) id)).map
          (Prod.map (fun place => depth + place.length) id) := by
  induction inputs with
  | nil =>
      intro first
      rfl
  | cons input inputs ih =>
      intro first
      rw [List.forall_mem_cons] at hinputs
      rw [List.flatMap_cons, entered_append, hinputs.1, ih hinputs.2, List.zipIdx_cons,
        List.flatMap_cons, List.map_append, List.map_map]
      congr 2
      funext entry
      show (depth + 1 + entry.1.length, entry.2) = (depth + (entry.1.length + 1), entry.2)
      rw [Nat.add_right_comm, Nat.add_assoc]

/-- A walk enters the operators at their places, each at the depth of its place. -/
theorem entered_walkFrom (op : Operator) : ∀ depth, entered (op.walkFrom depth) =
    op.placed.map (Prod.map (fun place => depth + place.length) id) := by
  induction op using inputs_induction with
  | step op ih =>
      intro depth
      have hinputs := entered_flatMap (fun input hmem => ih input hmem (depth + 1)) 0
      rw [walkFrom_eq, placed_eq, entered_append, List.map_cons, ← hinputs]
      simp [entered]

/-- The walk through a pipeline: it enters the operators in the order of their places, each place
once and at its depth, and leaves them in the order of brackets. -/
structure Traverses (visits : List Visit) (op : Operator) (places : List (List Nat × Operator)) :
    Prop where
  /-- A place comes before those below it, and those below one input before those below the next.
  In particular no place occurs twice. -/
  ordered : (places.map Prod.fst).Pairwise (List.Lex (· < ·))
  /-- These are the places of the pipeline. -/
  complete : ∀ place part, (place, part) ∈ places ↔ op.at? place = some part
  /-- What is entered is what stands at the places, at the distance from the root. -/
  entered : entered visits = places.map (Prod.map List.length id)
  nested : Nested 0 visits

theorem traverses_walk (op : Operator) : Traverses op.walk op op.placed where
  ordered := pairwise_placed op
  complete := fun _ _ => mem_placed_iff op
  entered := by
    rw [walk, entered_walkFrom]
    simp only [Nat.zero_add]
  nested := nested_walkFrom op 0

/-! ### Compiled pipelines -/

/-- The inputs of a compiled operator are compiled from the inputs of its node. -/
theorem compile_inputs (hcompile : compile settings bindings h e = .ok op) :
    List.Forall₂ (fun node part => compile settings bindings h node = .ok part)
      e.inputs op.inputs := by
  cases e with
  | scan leaf =>
      obtain ⟨input, -, rfl, -⟩ := compileLeaf_eq_ok hcompile
      exact .nil
  | select input p =>
      obtain ⟨a, ha, rfl⟩ := compile_select_eq_ok hcompile
      exact .cons ha .nil
  | map input m =>
      obtain ⟨a, ha, rfl⟩ := compile_map_eq_ok hcompile
      exact .cons ha .nil
  | group input g =>
      obtain ⟨a, ha, rfl⟩ := compile_group_eq_ok hcompile
      exact .cons ha .nil
  | join left right j =>
      obtain ⟨a, b, ha, hb, rfl⟩ := compile_join_eq_ok hcompile
      exact .cons ha (.cons hb .nil)

theorem compile_kind (hcompile : compile settings bindings h e = .ok op) :
    op.kind = e.operatorKind := by
  cases e with
  | scan leaf =>
      obtain ⟨input, -, rfl, -⟩ := compileLeaf_eq_ok hcompile
      rfl
  | select input p =>
      obtain ⟨a, -, rfl⟩ := compile_select_eq_ok hcompile
      rfl
  | map input m =>
      obtain ⟨a, -, rfl⟩ := compile_map_eq_ok hcompile
      rfl
  | group input g =>
      obtain ⟨a, -, rfl⟩ := compile_group_eq_ok hcompile
      rfl
  | join left right j =>
      obtain ⟨a, b, -, -, rfl⟩ := compile_join_eq_ok hcompile
      rfl

/-- What stands at a place of a pipeline has been compiled from what stands there in the
expression. -/
theorem compile_at? (place : List Nat) : ∀ {e : RelExpr} {op : Operator},
    compile settings bindings h e = .ok op →
      Option.Rel (fun part node => compile settings bindings h node = .ok part)
        (op.at? place) (e.at? place) := by
  induction place with
  | nil =>
      intro e op hcompile
      exact .some hcompile
  | cons i place ih =>
      intro e op hcompile
      have hinputs := compile_inputs hcompile
      rw [at?, RelExpr.at?]
      by_cases hi : i < op.inputs.length
      · have hi' : i < e.inputs.length := hinputs.length_eq ▸ hi
        rw [List.getElem?_eq_getElem hi, List.getElem?_eq_getElem hi']
        exact ih (hinputs.get hi' hi)
      · have hi' : ¬ i < e.inputs.length := hinputs.length_eq ▸ hi
        rw [List.getElem?_eq_none (Nat.not_lt.mp hi), List.getElem?_eq_none (Nat.not_lt.mp hi')]
        exact .none

/-- Every operator of a pipeline is the pipeline of a part of its expression. -/
theorem exists_compile_of_mem_walk (hcompile : compile settings bindings h e = .ok op)
    {depth d : Nat} (hpart : .enter d part ∈ op.walkFrom depth) :
    ∃ e', compile settings bindings h e' = .ok part := by
  have hentered : (d, part) ∈ entered (op.walkFrom depth) :=
    List.mem_filterMap.mpr ⟨_, hpart, rfl⟩
  rw [entered_walkFrom, List.mem_map] at hentered
  obtain ⟨⟨place, part'⟩, hplaced, heq⟩ := hentered
  obtain ⟨-, rfl⟩ := Prod.mk.inj heq
  have hplace := compile_at? place hcompile
  rw [(mem_placed_iff op).mp hplaced] at hplace
  generalize e.at? place = node at hplace
  cases hplace with
  | some hpart => exact ⟨_, hpart⟩

/-- An operator implements a node: it is of the kind that the node asks for, and has its schema. -/
structure Implements (op : Operator) (e : RelExpr) : Prop where
  kind : op.kind = e.operatorKind
  schema : op.schema = e.schema

/-- **Compilation is complete, reports the first bad leaf and keeps the shape.** An expression
compiles exactly if the bindings supply all of its leaves, and otherwise fails with the reason for
which the first leaf that they do not supply is refused. The walk through the pipeline visits each
of its operators once, in preorder and nested, and at each place there is an operator exactly if
there is a node of the expression, which it implements. -/
theorem compile_shape (settings : Settings) (bindings : Bindings) (h : Handouts) (e : RelExpr) :
    ((∃ op, compile settings bindings h e = .ok op) ↔
      ∀ leaf ∈ e.leaves, bindings.supplies h leaf = true) ∧
    (∀ leaf, e.refused? bindings h = some leaf →
      ∃ error, compile settings bindings h e = .error error ∧ bindings.Refuses h leaf error ∧
        error.kind = if (bindings.get? leaf.name).isSome then .schema else .plan) ∧
    ∀ op, compile settings bindings h e = .ok op →
      (∃ places, Traverses op.walk op places) ∧
      ∀ place, Option.Rel Implements (op.at? place) (e.at? place) := by
  refine ⟨⟨?_, ?_⟩, ?_, ?_⟩
  · rintro ⟨op, hcompile⟩
    cases hrefused : e.refused? bindings h with
    | none => simpa [RelExpr.refused?] using hrefused
    | some leaf =>
        obtain ⟨error, -, herror⟩ := @compile_of_refused?_eq_some settings _ _ _ e hrefused
        rw [hcompile] at herror
        exact absurd herror (by simp)
  · intro hsupplied
    exact compile_of_refused?_eq_none (by simpa [RelExpr.refused?] using hsupplied)
  · intro leaf hrefused
    obtain ⟨error, hrefuses, herror⟩ := compile_of_refused?_eq_some hrefused
    exact ⟨error, herror, hrefuses, hrefuses.kind⟩
  · intro op hcompile
    refine ⟨⟨op.placed, traverses_walk op⟩, fun place => ?_⟩
    have hplace := compile_at? place hcompile
    generalize op.at? place = part, e.at? place = node at hplace
    cases hplace with
    | none => exact .none
    | some hpart => exact .some ⟨compile_kind hpart, compile_schema hpart⟩

/-- Berths of a harbour, a stream that has been handed out. -/
def berths : Schema :=
  ⟨"berths", [⟨"depth", .int32, false, .position 0⟩]⟩

/-- Ships, which are bound under another type than `wideShips` asks for. -/
def ships : Schema :=
  ⟨"ships", [⟨"draught", .int32, false, .position 0⟩]⟩

/-- Ships whose draught takes more bits. -/
def wideShips : Schema :=
  ⟨"ships", [⟨"draught", .int64, false, .position 0⟩]⟩

/-- Bindings for the berths and the ships. -/
def harbour : Bindings :=
  ⟨[("berths", .stream 0 (.ofRows berths [])), ("ships", .table ⟨ships, [], by simp⟩)],
    List.pairwise_pair.mpr (show "berths" < "ships" by decide)⟩

/-- Dry berths with all ships. -/
def moorings : RelExpr :=
  .join (.select (.scan berths) (.isNull "depth")) (.scan ships)
    ⟨berths, ships, .inner, .cross, ⟨"berths_ships", berths.columns ++ ships.columns⟩⟩

/-- All ships with tugs: the first leaf has another type than what is bound, the second has
nothing bound to it. -/
def tows : RelExpr :=
  .join (.scan wideShips) (.scan ⟨"tugs", []⟩)
    ⟨wideShips, ⟨"tugs", []⟩, .inner, .cross, ⟨"ships_tugs", wideShips.columns⟩⟩

/-- A stream that is gone is no reason to refuse a leaf. Of two leaves that are refused, the first
gives the error. -/
theorem compile_shape_harbour :
    (∃ op, compile default harbour (Handouts.none.spend 0) moorings = .ok op ∧
      (∃ places, Traverses op.walk op places) ∧
      ∀ place, Option.Rel Implements (op.at? place) (moorings.at? place)) ∧
    ∃ error, compile default harbour .none tows = .error error ∧
      harbour.Refuses .none wideShips error ∧ error.kind = .schema := by
  have hmoorings := compile_shape default harbour (Handouts.none.spend 0) moorings
  have htows := compile_shape default harbour .none tows
  refine ⟨?_, ?_⟩
  · have hsupplied : ∀ leaf ∈ moorings.leaves,
        harbour.supplies (Handouts.none.spend 0) leaf = true := by
      simp only [moorings, RelExpr.leaves_join, RelExpr.leaves_select, RelExpr.leaves_scan]
      exact List.forall_mem_cons.mpr ⟨by decide, List.forall_mem_singleton.mpr (by decide)⟩
    obtain ⟨op, hcompile⟩ := hmoorings.1.mpr hsupplied
    exact ⟨op, hcompile, hmoorings.2.2 op hcompile⟩
  · have hrefused : tows.refused? harbour .none = some wideShips := by
      simp only [RelExpr.refused?, tows, RelExpr.leaves_join, RelExpr.leaves_scan]
      decide
    exact htows.2.1 wideShips hrefused

end Operator

end RelQuery
