import RelQuery.Algebra.Expr
import RelQuery.Proofs.Except

/-!
# RelQuery.Proofs.Pipeline.Built

Expressions that have been **built node by node**.

An expression is a tree of planned operations, and nothing in its type says that a node was planned
for the inputs it has. `RelExpr.Built` says it: the expression is what the building functions make.
The leaves of a built tree, which are collected with a stack, are those of its parts in order
(`leaves_join` and its companions).
-/

namespace RelQuery

/-- The entries of a list are numbered upwards. -/
theorem pairwise_zipIdx {α : Type} (l : List α) : l.zipIdx.Pairwise fun a b => a.2 < b.2 := by
  have hindices : (l.zipIdx.map Prod.snd).Pairwise (· < ·) := by
    rw [List.zipIdx_map_snd]
    exact List.pairwise_lt_range'
  exact List.pairwise_map.mp hindices

namespace RelExpr

/-- The expression is made by the functions that build expressions. -/
inductive Built : RelExpr → Prop where
  | scan (s : Schema) : Built (scan s)
  | filter {e e' : RelExpr} {p : Predicate} : Built e → e.filter p = .ok e' → Built e'
  | mapBy {e e' : RelExpr} {form : MapForm} : Built e → e.mapBy form = .ok e' → Built e'
  | aggregate {e e' : RelExpr} {keys : List String} {aggregates : List Aggregate} :
      Built e → e.aggregate keys aggregates = .ok e' → Built e'
  | joinWith {l r e' : RelExpr} {type : JoinType} {condition : JoinCondition} :
      Built l → Built r → l.joinWith r type condition = .ok e' → Built e'

/-- Whether no part of the expression groups rows. -/
def isGroupFree : RelExpr → Bool
  | scan _ => true
  | select input _ => input.isGroupFree
  | map input _ => input.isGroupFree
  | group _ _ => false
  | join left right _ => left.isGroupFree && right.isGroupFree

/-- The part of the expression at a place: the indices of the inputs that lead to it from the
root. -/
def at? (e : RelExpr) : List Nat → Option RelExpr
  | [] => some e
  | i :: place => e.inputs[i]?.bind fun input => input.at? place

/-! ### What the building functions make -/

variable {e e' l r : RelExpr}

theorem filter_eq_ok {p : Predicate} (h : e.filter p = .ok e') :
    p.validate e.schema = .ok () ∧ e' = select e p := by
  obtain ⟨_, hvalid, h⟩ := bind_eq_ok_iff.mp h
  exact ⟨hvalid, (pure_eq_ok_iff.mp h).symm⟩

theorem mapBy_eq_ok {form : MapForm} (h : e.mapBy form = .ok e') :
    ∃ op, RowMap.plan e.schema form = .ok op ∧ e' = map e op := by
  obtain ⟨op, hop, h⟩ := bind_eq_ok_iff.mp h
  exact ⟨op, hop, (pure_eq_ok_iff.mp h).symm⟩

theorem aggregate_eq_ok {keys : List String} {aggregates : List Aggregate}
    (h : e.aggregate keys aggregates = .ok e') :
    ∃ op, Grouping.plan e.schema keys aggregates = .ok op ∧ e' = group e op := by
  obtain ⟨op, hop, h⟩ := bind_eq_ok_iff.mp h
  exact ⟨op, hop, (pure_eq_ok_iff.mp h).symm⟩

theorem joinWith_eq_ok {type : JoinType} {condition : JoinCondition}
    (h : l.joinWith r type condition = .ok e') :
    ∃ op, Join.plan l.schema r.schema type condition = .ok op ∧ e' = join l r op := by
  obtain ⟨op, hop, h⟩ := bind_eq_ok_iff.mp h
  exact ⟨op, hop, (pure_eq_ok_iff.mp h).symm⟩

/-! ### Leaves -/

/-- The leaves of a stack are those of its top, then those of the rest. -/
theorem leavesOfStack_append (stack rest : List RelExpr) :
    leavesOfStack (stack ++ rest) = leavesOfStack stack ++ leavesOfStack rest := by
  induction stack using leavesOfStack.induct with
  | case1 => rw [leavesOfStack, List.nil_append, List.nil_append]
  | case2 s stack ih =>
      rw [List.cons_append, leavesOfStack, leavesOfStack, ih, List.cons_append]
  | case3 e stack hscan ih =>
      rw [List.append_assoc] at ih
      cases e with
      | scan s => exact (hscan s rfl).elim
      | _ => simpa only [List.cons_append, leavesOfStack] using ih

@[simp] theorem leaves_scan (s : Schema) : (scan s).leaves = [s] := by
  simp only [leaves, leavesOfStack]

@[simp] theorem leaves_select (p : Predicate) : (select e p).leaves = e.leaves := by
  simp only [leaves, leavesOfStack, inputs, List.append_nil]

@[simp] theorem leaves_map (op : RowMap) : (map e op).leaves = e.leaves := by
  simp only [leaves, leavesOfStack, inputs, List.append_nil]

@[simp] theorem leaves_group (op : Grouping) : (group e op).leaves = e.leaves := by
  simp only [leaves, leavesOfStack, inputs, List.append_nil]

@[simp] theorem leaves_join (op : Join) : (join l r op).leaves = l.leaves ++ r.leaves := by
  simp only [leaves, leavesOfStack, inputs, List.append_nil]
  exact leavesOfStack_append [l] [r]

end RelExpr

end RelQuery
