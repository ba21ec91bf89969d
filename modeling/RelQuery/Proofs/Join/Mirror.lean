import Mathlib.Data.List.Perm.Basic
import Mathlib.Data.List.Zip
import RelQuery.Proofs.Join.Total

/-!
# RelQuery.Proofs.Join.Mirror

**The mirror image of a join.**

`Join.mirror` exchanges the sides of a join. It is what planning makes of the inputs in the other
order, under the mirrored type and condition (`plan_mirror`), because nothing that planning asks of
one side is not asked of the other.

The nested loop treats its sides differently: a left-hand row is padded as soon as it has been
compared with all right-hand rows, and the right-hand rows come at the end. `Join.looped` lists the
same tuples in three blocks, the pairs and then the rows without a match of either side
(`map_tuple?_nested`). In this form the mirror image has the pairs in the order of the other loop
and the last two blocks in each other's place, so it lists the same tuples with their values
exchanged (`looped_mirror`). A tuple that cannot be made stands in these lists as none.
-/

namespace RelQuery

/-- The type that does with the rows of each side what the given one does with those of the other.
-/
def JoinType.mirror : JoinType → JoinType
  | inner => inner
  | leftOuter => rightOuter
  | rightOuter => leftOuter
  | fullOuter => fullOuter

@[simp] theorem JoinType.keepsLeft_mirror (type : JoinType) :
    type.mirror.keepsLeft = type.keepsRight := by
  cases type <;> rfl

@[simp] theorem JoinType.keepsRight_mirror (type : JoinType) :
    type.mirror.keepsRight = type.keepsLeft := by
  cases type <;> rfl

/-- The same condition on the rows in the other order. -/
def PairPredicate.flip (p : PairPredicate) : PairPredicate :=
  ⟨p.label, fun left right => p.test right left⟩

/-- The condition of the join with its sides exchanged. -/
def JoinCondition.mirror : JoinCondition → JoinCondition
  | cross => cross
  | theta p => theta p.flip
  | equi pairs => equi (pairs.map Prod.swap)

/-! ### Keys -/

namespace JoinKeys

variable {left right : Schema} {pairs : List (String × String)} {k : JoinKeys}

/-- The compared columns with the sides exchanged. -/
def mirror (k : JoinKeys) : JoinKeys :=
  ⟨k.pairs.map Prod.swap, k.right, k.left⟩

theorem resolvePair_swap {pair : String × String} {p : Nat × Nat}
    (h : resolvePair left right pair = .ok p) :
    resolvePair right left pair.swap = .ok p.swap := by
  obtain ⟨hi, hj, a, b, ha, hb, htype⟩ := resolvePair_eq_ok_iff.mp h
  exact resolvePair_eq_ok_iff.mpr ⟨hj, hi, b, a, hb, ha, htype.symm⟩

/-- Column pairs that are accepted are accepted the other way round. -/
theorem resolve_mirror (h : resolve left right pairs = .ok k) :
    resolve right left (pairs.map Prod.swap) = .ok k.mirror := by
  obtain ⟨hpairs, rfl, hlength, hpositions, hlefts, hrights⟩ := resolve_eq_ok_iff.mp h
  refine resolve_eq_ok_iff.mpr ⟨by simpa using hpairs, rfl, hlength.symm, ?_, ?_, ?_⟩
  · show List.Forall₂ _ _ (k.right.zip k.left)
    rw [← List.zip_swap, List.forall₂_map_left_iff, List.forall₂_map_right_iff]
    exact hpositions.imp fun _ _ => resolvePair_swap
  · rw [List.map_map]
    exact hrights
  · rw [List.map_map]
    exact hlefts

/-- Rows match if they do the other way round: the test for null looks at one side only, but a value
that is the same as null is null. -/
theorem matched_mirror (k : JoinKeys) (l r : Row) : k.mirror.matched r l = k.matched l r := by
  rw [Bool.eq_iff_iff, matched_iff, matched_iff]
  show (∀ p ∈ k.right.zip k.left, _) ↔ _
  rw [← List.zip_swap, List.forall_mem_map]
  refine forall₂_congr fun p _ => ?_
  show ((r.cell p.2).isNull = false ∧ (l.cell p.1).isNull = false ∧ _) ↔ _
  rw [Value.same_comm, and_left_comm]
  rfl

end JoinKeys

/-! ### Planning -/

/-- The rule of the join with its sides exchanged. -/
def JoinRule.mirror : JoinRule → JoinRule
  | cross => cross
  | theta p => theta p.flip
  | equi k => equi k.mirror

namespace Join

/-- The same join with its sides exchanged. -/
def mirror (j : Join) : Join where
  left := j.right
  right := j.left
  type := j.type.mirror
  rule := j.rule.mirror
  schema := ⟨s!"{j.right.name}_{j.left.name}",
    j.schema.columns.drop j.left.width ++ j.schema.columns.take j.left.width⟩

variable {left right : Schema} {type : JoinType} {condition : JoinCondition} {j : Join}

theorem planRule_mirror {rule : JoinRule} (h : planRule left right condition = .ok rule) :
    planRule right left condition.mirror = .ok rule.mirror := by
  cases condition with
  | cross =>
      obtain rfl := Except.ok.inj h
      rfl
  | theta p =>
      obtain rfl := Except.ok.inj h
      rfl
  | equi pairs =>
      obtain ⟨k, hk, h⟩ := bind_eq_ok_iff.mp h
      obtain rfl := pure_eq_ok_iff.mp h
      exact bind_eq_ok_iff.mpr ⟨k.mirror, JoinKeys.resolve_mirror hk, rfl⟩

/-- The output columns of a side depend only on which of its names are shared. -/
theorem sideColumns_congr {side : Schema} {shared shared' : List String} (padded : Bool)
    (h : ∀ {name}, name ∈ shared ↔ name ∈ shared') :
    sideColumns side shared padded = sideColumns side shared' padded := by
  unfold sideColumns
  refine List.map_congr_left fun c _ => ?_
  simp only [List.contains_iff_mem, h]

theorem mem_sharedNames_comm {name : String} :
    name ∈ sharedNames left right ↔ name ∈ sharedNames right left := by
  rw [mem_sharedNames_iff, mem_sharedNames_iff, and_comm]

theorem length_sideColumns (side : Schema) (shared : List String) (padded : Bool) :
    (sideColumns side shared padded).length = side.width := by
  simp [sideColumns, Schema.width]

/-- The columns of the mirror image are those of the join with the two blocks exchanged. -/
theorem columns_mirror (hplan : plan left right type condition = .ok j) :
    j.mirror.schema.columns = sideColumns right (sharedNames left right) type.keepsLeft ++
      sideColumns left (sharedNames left right) type.keepsRight := by
  have hcolumns := columns_of_plan hplan
  obtain ⟨rfl, rfl, rfl, -, -⟩ := plan_eq_ok hplan
  have hlength := length_sideColumns j.left (sharedNames j.left j.right) j.type.keepsRight
  show j.schema.columns.drop j.left.width ++ j.schema.columns.take j.left.width = _
  rw [hcolumns, List.drop_left' hlength, List.take_left' hlength]

/-- The inputs in the other order are accepted, and give the mirror image. -/
theorem plan_mirror (hplan : plan left right type condition = .ok j) :
    plan right left type.mirror condition.mirror = .ok j.mirror := by
  have hmirror := columns_mirror hplan
  obtain ⟨rfl, rfl, rfl, hrule, hschema⟩ := plan_eq_ok hplan
  refine bind_eq_ok_iff.mpr
    ⟨_, planRule_mirror hrule, bind_eq_ok_iff.mpr ⟨j.mirror.schema, ?_, rfl⟩⟩
  have hempty : (sharedNames j.right j.left).isEmpty = (sharedNames j.left j.right).isEmpty := by
    rw [Bool.eq_iff_iff, List.isEmpty_iff, List.isEmpty_iff, List.eq_nil_iff_forall_not_mem,
      List.eq_nil_iff_forall_not_mem]
    exact forall_congr' fun name => not_congr mem_sharedNames_comm
  have hname : (j.right.name == j.left.name) = (j.left.name == j.right.name) := Bool.beq_comm
  unfold outputSchema at hschema ⊢
  dsimp only at hschema ⊢
  rw [hempty, hname]
  split at hschema
  · simp at hschema
  · rename_i hdistinct
    obtain ⟨-, hnodup⟩ := Schema.ofColumns_eq_ok_iff.mp hschema
    have hside : ∀ (side : Schema) (padded : Bool),
        sideColumns side (sharedNames j.right j.left) padded =
          sideColumns side (sharedNames j.left j.right) padded :=
      fun _ padded => sideColumns_congr padded mem_sharedNames_comm
    rw [if_neg hdistinct, JoinType.keepsLeft_mirror, JoinType.keepsRight_mirror, hside, hside,
      ← hmirror]
    refine Schema.ofColumns_eq_ok_iff.mpr ⟨rfl, ?_⟩
    rw [hmirror, List.map_append]
    rw [List.map_append] at hnodup
    exact List.nodup_append_comm.mp hnodup

/-! ### Pairs of rows -/

/-- Whether two rows match, where the condition has an answer. -/
def matches? (j : Join) (left right : Row) : Bool :=
  (j.matched left right).toOption == some true

theorem Total.matched_eq (h : j.Total) (left right : Row) :
    j.matched left right = .ok (j.matches? left right) := by
  obtain ⟨b, hb⟩ := h.matched left right
  rw [matches?, hb]
  cases b <;> rfl

theorem matched_mirror (j : Join) (l r : Row) : j.mirror.matched r l = j.matched l r := by
  unfold matched mirror
  cases j.rule with
  | cross => rfl
  | theta p => rfl
  | equi k => exact congrArg Except.ok (k.matched_mirror l r)

/-- The values of an item that is a row. -/
def tuple? (item : Item) : Option (List Value) :=
  (item.map Row.values).toOption

/-- The tuple of two rows, if it can be made. -/
def pairTuple? (j : Join) (left right : Row) : Option (List Value) :=
  tuple? (j.combine left right)

/-- The tuple with the first `n` values moved behind the others. -/
def exchange (n : Nat) (vs : List Value) : List Value :=
  vs.drop n ++ vs.take n

theorem exchange_append {us vs : List Value} {n : Nat} (h : us.length = n) :
    exchange n (us ++ vs) = vs ++ us := by
  rw [exchange, List.drop_left' h, List.take_left' h]

theorem pairTuple?_of_holds {l r : Row} (h : j.schema.Holds (l.values ++ r.values)) :
    j.pairTuple? l r = some (l.values ++ r.values) := by
  rw [pairTuple?, combine, Row.ofValues_of_holds h]
  rfl

theorem pairTuple?_of_not_holds {l r : Row} (h : ¬ j.schema.Holds (l.values ++ r.values)) :
    j.pairTuple? l r = none := by
  rw [pairTuple?, combine]
  cases hrow : Row.ofValues j.schema (l.values ++ r.values) with
  | error e => rfl
  | ok row => exact absurd (Row.holds_of_ofValues hrow).1 h

/-- The row has one value for each column of the side. -/
def Spans (row : Row) (side : Schema) : Prop :=
  row.values.length = side.width

theorem spans_nulls (side : Schema) : Spans (Row.nulls side) side := by
  simp [Spans]

/-- The output has a column for each column of the sides. -/
def Widths (j : Join) : Prop :=
  j.schema.width = j.left.width + j.right.width

theorem widths_of_plan (hplan : plan left right type condition = .ok j) : j.Widths := by
  have hcolumns := columns_of_plan hplan
  obtain ⟨rfl, rfl, -, -, -⟩ := plan_eq_ok hplan
  rw [Widths, Schema.width, hcolumns, List.length_append, length_sideColumns, length_sideColumns]

/-- Values that the output takes are taken by the mirror image with the blocks exchanged. -/
theorem holds_mirror (hwidths : j.Widths) {l r : Row} (hl : Spans l j.left)
    (hr : Spans r j.right) :
    j.mirror.schema.Holds (r.values ++ l.values) ↔ j.schema.Holds (l.values ++ r.values) := by
  unfold Schema.Holds
  show List.Forall₂ _
    (j.schema.columns.drop j.left.width ++ j.schema.columns.take j.left.width) _ ↔ _
  have hdrop : (j.schema.columns.drop j.left.width).length = r.values.length := by
    rw [List.length_drop, hr, show j.schema.columns.length = _ from hwidths,
      Nat.add_sub_cancel_left]
  rw [← hl]
  rw [← hl] at hdrop
  constructor
  · intro h
    have hright := List.forall₂_take_append _ _ _ h
    have hleft := List.forall₂_drop_append _ _ _ h
    rw [List.take_left' hdrop] at hright
    rw [List.drop_left' hdrop] at hleft
    simpa only [List.take_append_drop] using List.rel_append hleft hright
  · intro h
    exact List.rel_append (List.forall₂_drop_append _ _ _ h) (List.forall₂_take_append _ _ _ h)

/-- The tuple of two rows is that of the mirror image with its values exchanged. -/
theorem pairTuple?_mirror (hwidths : j.Widths) {l r : Row} (hl : Spans l j.left)
    (hr : Spans r j.right) :
    (j.mirror.pairTuple? r l).map (exchange j.right.width) = j.pairTuple? l r := by
  have hmirror := holds_mirror hwidths hl hr
  by_cases hholds : j.schema.Holds (l.values ++ r.values)
  · rw [pairTuple?_of_holds hholds, pairTuple?_of_holds (hmirror.mpr hholds), Option.map_some,
      exchange_append hr]
  · rw [pairTuple?_of_not_holds hholds, pairTuple?_of_not_holds (mt hmirror.mp hholds)]
    rfl

/-! ### Three blocks -/

/-- The tuples of the pairs of rows that match. -/
def pairsOf (j : Join) (lefts rights : List Row) : List (Option (List Value)) :=
  lefts.flatMap fun left => rights.flatMap fun right =>
    if j.matches? left right then [j.pairTuple? left right] else []

/-- The tuples of the left-hand rows that match nothing, if those are kept. -/
def leftAlone (j : Join) (lefts rights : List Row) : List (Option (List Value)) :=
  lefts.flatMap fun left =>
    if j.type.keepsLeft && !rights.any (j.matches? left) then
      [j.pairTuple? left (Row.nulls j.right)]
    else []

/-- The tuples of the right-hand rows that match nothing, if those are kept. -/
def rightAlone (j : Join) (lefts rights : List Row) : List (Option (List Value)) :=
  rights.flatMap fun right =>
    if j.type.keepsRight && !lefts.any (j.matches? · right) then
      [j.pairTuple? (Row.nulls j.left) right]
    else []

/-- The tuples of a join: the pairs, then the rows of either side that match nothing. -/
def looped (j : Join) (lefts rights : List Row) : List (Option (List Value)) :=
  j.pairsOf lefts rights ++ (j.leftAlone lefts rights ++ j.rightAlone lefts rights)

/-- A left-hand row contributes its pairs, or else itself. -/
theorem map_tuple?_nestedLeft (h : j.Total) (rights : List Row) (left : Row) :
    (j.nestedLeft rights left).map tuple? =
      (rights.flatMap fun right =>
        if j.matches? left right then [j.pairTuple? left right] else []) ++
        if j.type.keepsLeft && !rights.any (j.matches? left) then
          [j.pairTuple? left (Row.nulls j.right)]
        else [] := by
  have hpair : ∀ right, j.pairItem left right =
      if j.matches? left right then some (j.combine left right) else none := by
    intro right
    rw [pairItem, h.matched_eq]
    cases j.matches? left right <;> rfl
  have hpairs : (rights.filterMap (j.pairItem left)).map tuple? = rights.flatMap fun right =>
      if j.matches? left right then [j.pairTuple? left right] else [] := by
    rw [List.filterMap_eq_flatMap_toList, List.map_flatMap]
    refine List.flatMap_congr fun right _ => ?_
    rw [hpair]
    cases j.matches? left right <;> rfl
  unfold nestedLeft
  dsimp only
  by_cases hany : rights.any (j.matches? left) = true
  · -- Some row matches, so there is a pair and no padded row.
    have hempty : (rights.filterMap (j.pairItem left)).isEmpty = false := by
      obtain ⟨right, hright, hmatches⟩ := List.any_eq_true.mp hany
      have hitem : j.pairItem left right = some (j.combine left right) := by
        rw [hpair, if_pos hmatches]
      rw [List.isEmpty_eq_false_iff]
      exact List.ne_nil_of_mem (List.mem_filterMap.mpr ⟨right, hright, hitem⟩)
    rw [hempty, Bool.false_and, if_neg (by simp), hpairs, hany]
    simp
  · have hnone : ∀ right ∈ rights, ¬ j.matches? left right = true := by
      simpa using hany
    have hnil : rights.filterMap (j.pairItem left) = [] := by
      refine List.filterMap_eq_nil_iff.mpr fun right hright => ?_
      rw [hpair, if_neg (hnone right hright)]
    rw [← hpairs, hnil, Bool.eq_false_iff.mpr hany]
    cases j.type.keepsLeft <;> rfl

theorem map_tuple?_nestedRight (j : Join) (lefts rights : List Row) :
    (j.nestedRight lefts rights).map tuple? = j.rightAlone lefts rights := by
  unfold nestedRight rightAlone
  cases j.type.keepsRight with
  | false => simp
  | true =>
      rw [if_pos rfl, List.filterMap_eq_flatMap_toList, List.map_flatMap]
      refine List.flatMap_congr fun right _ => ?_
      show List.map tuple? (Option.toList (if lefts.any (j.matches? · right) then none
        else some (j.padLeft right))) = _
      cases lefts.any (j.matches? · right) <;> rfl

/-- The nested loop gives the three blocks, in another order. -/
theorem map_tuple?_nested (h : j.Total) (lefts rights : List Row) :
    ((j.nested lefts rights).map tuple?).Perm (j.looped lefts rights) := by
  rw [nested, List.map_append, List.map_flatMap, map_tuple?_nestedRight, looped,
    ← List.append_assoc]
  refine List.Perm.append_right _ ?_
  simp only [map_tuple?_nestedLeft h]
  exact (List.flatMap_append_perm lefts _ _).symm

/-- Two loops can be exchanged. -/
theorem flatMap_flatMap_perm {α β γ : Type} (f : α → β → List γ) (as : List α) (bs : List β) :
    (as.flatMap fun a => bs.flatMap (f a)).Perm (bs.flatMap fun b => as.flatMap (f · b)) := by
  induction as with
  | nil => simp
  | cons a as ih =>
      simp only [List.flatMap_cons]
      exact (ih.append_left _).trans (List.flatMap_append_perm bs _ _)

theorem matches?_mirror (j : Join) (l r : Row) : j.mirror.matches? r l = j.matches? l r := by
  rw [matches?, matches?, matched_mirror]

section

variable {lefts rights : List Row}

theorem pairsOf_mirror (hwidths : j.Widths) (hlefts : ∀ l ∈ lefts, Spans l j.left)
    (hrights : ∀ r ∈ rights, Spans r j.right) :
    (j.pairsOf lefts rights).Perm
      ((j.mirror.pairsOf rights lefts).map (Option.map (exchange j.right.width))) := by
  have hpair : (j.mirror.pairsOf rights lefts).map (Option.map (exchange j.right.width)) =
      rights.flatMap fun r => lefts.flatMap fun l =>
        if j.matches? l r then [j.pairTuple? l r] else [] := by
    rw [pairsOf, List.map_flatMap]
    refine List.flatMap_congr fun r hr => ?_
    rw [List.map_flatMap]
    refine List.flatMap_congr fun l hl => ?_
    rw [matches?_mirror]
    split
    · rw [List.map_singleton, pairTuple?_mirror hwidths (hlefts l hl) (hrights r hr)]
    · rfl
  rw [hpair]
  exact flatMap_flatMap_perm _ lefts rights

/-- The left-hand rows without a match are the right-hand ones of the mirror image. -/
theorem leftAlone_mirror (hwidths : j.Widths) (hlefts : ∀ l ∈ lefts, Spans l j.left) :
    (j.mirror.rightAlone rights lefts).map (Option.map (exchange j.right.width)) =
      j.leftAlone lefts rights := by
  rw [rightAlone, leftAlone, List.map_flatMap]
  refine List.flatMap_congr fun l hl => ?_
  simp only [matches?_mirror]
  rw [show j.mirror.type.keepsRight = j.type.keepsLeft from JoinType.keepsRight_mirror j.type]
  split
  · exact congrArg (fun t => [t]) (pairTuple?_mirror hwidths (hlefts l hl) (spans_nulls j.right))
  · rfl

theorem rightAlone_mirror (hwidths : j.Widths) (hrights : ∀ r ∈ rights, Spans r j.right) :
    (j.mirror.leftAlone rights lefts).map (Option.map (exchange j.right.width)) =
      j.rightAlone lefts rights := by
  rw [rightAlone, leftAlone, List.map_flatMap]
  refine List.flatMap_congr fun r hr => ?_
  have hany : lefts.any (j.mirror.matches? r) = lefts.any (j.matches? · r) :=
    congrArg lefts.any (funext fun l => matches?_mirror j l r)
  rw [hany, show j.mirror.type.keepsLeft = j.type.keepsRight from JoinType.keepsLeft_mirror j.type]
  split
  · exact congrArg (fun t => [t]) (pairTuple?_mirror hwidths (spans_nulls j.left) (hrights r hr))
  · rfl

/-- The mirror image lists the same tuples with their values exchanged. -/
theorem looped_mirror (hwidths : j.Widths) (hlefts : ∀ l ∈ lefts, Spans l j.left)
    (hrights : ∀ r ∈ rights, Spans r j.right) :
    (j.looped lefts rights).Perm
      ((j.mirror.looped rights lefts).map (Option.map (exchange j.right.width))) := by
  rw [looped, looped, List.map_append, List.map_append, leftAlone_mirror hwidths hlefts,
    rightAlone_mirror hwidths hrights]
  exact (pairsOf_mirror hwidths hlefts hrights).append List.perm_append_comm

end

end Join

end RelQuery
