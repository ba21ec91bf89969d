import RelQuery.Proofs.Pipeline.Fusion
import RelQuery.Statement

/-!
# RelQuery.Proofs.Statement.Filters

**Repeated filter clauses are successive filters.**

A statement collects the conditions of its filter clauses into one conjunction (`condition_add`),
and restricts the joined inputs by it before anything else is done with them. `Statement.buildBy`
leaves open how the rows are restricted; `filters_split` says that building restricts them as the
conditions one after another would, wherever the clauses stand among the others.
-/

namespace RelQuery

/-- The queries present the results of expressions that can stand for each other in the same way. -/
structure Query.Interchangeable (q q' : Query) : Prop where
  expr : q.expr.Interchangeable q'.expr
  presentation : { q with expr := q'.expr } = q'

/-- The condition that a clause adds to a statement. -/
def Clause.condition? : Clause → Option Predicate
  | .filter p => some p
  | _ => none

namespace Statement

variable {e e' : RelExpr}

/-! ### Building in steps -/

/-- The joined inputs. -/
def joined (s : Statement) : Except Error RelExpr :=
  match s.inputs with
  | [] => .error .noInput
  | (first, _) :: rest => rest.foldlM joinInput (.scan first)

/-- The rows that satisfy a condition, if there is one. -/
def restricted (condition : Option Predicate) (e : RelExpr) : Except Error RelExpr :=
  match condition with
  | some p => e.filter p
  | none => .ok e

/-- The groups of an expression, if the statement has keys or aggregates. -/
def grouped (s : Statement) (e : RelExpr) : Except Error RelExpr :=
  if s.aggregates.isEmpty && s.keys.isEmpty then .ok e else e.aggregate s.keys s.aggregates

/-- What the statement selects of an expression, if it selects anything. -/
def selected (s : Statement) (e : RelExpr) : Except Error RelExpr :=
  if s.selects then selectItems e s.items else .ok e

/-- An expression under the name of the statement, if it has one. -/
def titled (s : Statement) (e : RelExpr) : Except Error RelExpr :=
  match s.name with
  | some name => e.rename (some name) []
  | none => .ok e

/-- The expression of a statement, where the joined inputs are restricted in a given way. -/
def exprBy (s : Statement) (restrict : RelExpr → Except Error RelExpr) : Except Error RelExpr := do
  let e ← s.joined
  let e ← restrict e
  let e ← s.grouped e
  let e ← s.selected e
  s.titled e

/-- The query that presents the result of an expression as the statement asks for. -/
def present (s : Statement) (e : RelExpr) : Except Error Query := do
  let q ← (Query.ofExpr e).withSort s.sortBy
  return { q with limit := s.limit, description := s.description, sql := some s.sql }

/-- Builds a query, where the joined inputs are restricted in a given way. -/
def buildBy (s : Statement) (restrict : RelExpr → Except Error RelExpr) : Except Error Query := do
  s.present (← s.exprBy restrict)

theorem buildExpr_eq (s : Statement) : s.buildExpr = s.exprBy (restricted s.condition) := by
  unfold buildExpr exprBy joined
  cases s.inputs with
  | nil => rfl
  | cons first rest =>
      refine congrArg (rest.foldlM joinInput (.scan first.1) >>= ·) (funext fun e => ?_)
      unfold restricted grouped selected titled
      cases s.condition <;> cases s.aggregates.isEmpty && s.keys.isEmpty <;>
        cases s.selects <;> rfl

/-- A statement restricts its inputs by its condition. -/
theorem build_eq (s : Statement) : s.build = s.buildBy (restricted s.condition) := by
  rw [build, buildExpr_eq]
  rfl

/-! ### Conditions -/

/-- The conjunction of conditions, if there are any. -/
def conjunctionOf? : List Predicate → Option Predicate
  | [] => none
  | p :: ps => some (Predicate.conjunction p ps)

/-- A filter clause adds its condition behind those that are there, and no other clause does. -/
theorem condition_add {s : Statement} {ps : List Predicate} (hs : s.condition = conjunctionOf? ps) :
    ∀ c : Clause, (s.add c).condition = conjunctionOf? (ps ++ c.condition?.toList)
  | .filter p => by
      cases ps with
      | nil => simp [add, hs, conjunctionOf?, Clause.condition?, Predicate.conjunction]
      | cons q ps => simp [add, hs, conjunctionOf?, Clause.condition?, Predicate.conjunction]
  | .input _ | .join _ _ _ | .naturalJoin _ _ | .joinWhere _ _ _ | .select _ | .selectAs _ _
  | .selectExprAs _ _ | .aggregate _ | .groupBy _ | .named _ | .sortBy _ | .limit _
  | .description _ => by simp [add, addInput, hs, Clause.condition?]

/-- The condition of a statement is the conjunction of those of its clauses, in order. -/
theorem condition_foldl : ∀ (clauses : List Clause) {s : Statement} {ps : List Predicate},
    s.condition = conjunctionOf? ps →
      (clauses.foldl add s).condition =
        conjunctionOf? (ps ++ clauses.filterMap Clause.condition?)
  | [], s, ps, hs => by simp [hs]
  | c :: clauses, s, ps, hs => by
      rw [List.foldl_cons, condition_foldl clauses (condition_add hs c), List.append_assoc]
      cases hc : c.condition? <;> simp [hc]

theorem condition_ofClauses (clauses : List Clause) :
    (ofClauses clauses).condition = conjunctionOf? (clauses.filterMap Clause.condition?) :=
  @condition_foldl clauses empty [] rfl

/-! ### Building alike -/

theorem grouped_alike (s : Statement) (he : e.Interchangeable e') :
    SameOutcome RelExpr.Interchangeable (s.grouped e) (s.grouped e') := by
  unfold grouped
  split
  · exact .ok he
  · exact he.aggregate s.keys s.aggregates

theorem selected_alike (s : Statement) (he : e.Interchangeable e') :
    SameOutcome RelExpr.Interchangeable (s.selected e) (s.selected e') := by
  unfold selected selectItems
  split
  · cases s.items.mapM plainName? with
    | some columns => exact he.mapBy (.projection columns)
    | none => exact he.mapBy (.extension s.items)
  · exact .ok he

theorem titled_alike (s : Statement) (he : e.Interchangeable e') :
    SameOutcome RelExpr.Interchangeable (s.titled e) (s.titled e') := by
  unfold titled
  cases s.name with
  | none => exact .ok he
  | some name => exact he.mapBy (.rename (some name) [])

theorem present_alike (s : Statement) (he : e.Interchangeable e') :
    SameOutcome Query.Interchangeable (s.present e) (s.present e') := by
  unfold present Query.withSort
  simp only [Query.schema, Query.ofExpr, he.schema]
  cases s.sortBy.forM fun k => do let _ ← e'.schema.require k.column with
  | error err => exact .error err
  | ok u => exact .ok ⟨he, rfl⟩

/-- Building only uses the restricted rows. -/
theorem buildBy_alike (s : Statement) {restrict restrict' : RelExpr → Except Error RelExpr}
    (h : ∀ e, SameOutcome RelExpr.Interchangeable (restrict e) (restrict' e)) :
    SameOutcome Query.Interchangeable (s.buildBy restrict) (s.buildBy restrict') := by
  have hexpr : SameOutcome RelExpr.Interchangeable (s.exprBy restrict) (s.exprBy restrict') := by
    unfold exprBy
    cases s.joined with
    | error err => exact .error err
    | ok e =>
        exact (h e).bind fun he => (s.grouped_alike he).bind fun he =>
          (s.selected_alike he).bind fun he => s.titled_alike he
  exact hexpr.bind fun he => s.present_alike he

/-- **Conditions can be split and fused.** The rows of any expression that satisfy a conjunction are
those that satisfy its first part and then its second: planning both succeeds, or fails with the
same error, and for all settings and bindings the pipelines are the same item by item, with each
error in its place. So whatever sends items into two filters, one filter makes the same of them. A
statement whose clauses are filters in part restricts its inputs by their conditions one after
another. -/
theorem filters_split :
    (∀ (e : RelExpr) (p q : Predicate), SameOutcome RelExpr.Interchangeable
      (e.filter (.and p q)) (e.filter p >>= fun e' => e'.filter q)) ∧
    (∀ (input : Operator) (p q : Predicate) (h : Handouts),
      (Operator.filter input (.and p q)).run h = (Operator.filter (.filter input p) q).run h) ∧
    ∀ clauses : List Clause, SameOutcome Query.Interchangeable (ofClauses clauses).build
      ((ofClauses clauses).buildBy fun e => e.filterAll (clauses.filterMap Clause.condition?)) := by
  refine ⟨RelExpr.filter_and, fun input p q => (Operator.runsAs_filter_and input p q).run, ?_⟩
  intro clauses
  rw [build_eq, condition_ofClauses]
  refine buildBy_alike _ fun e => ?_
  cases clauses.filterMap Clause.condition? with
  | nil => exact .ok (.refl e)
  | cons p ps => exact RelExpr.filter_conjunction ps e p

end Statement

end RelQuery
