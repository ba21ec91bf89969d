import RelQuery.Proofs.Pipeline.Compile

/-!
# RelQuery.Proofs.Pipeline.Fusion

**Conditions can be split and fused.**

A pipeline that filters twice yields what one does that filters by the conjunction: a row that the
first condition drops or fails on never reaches the second, just as the conjunction does not look at
its right-hand side, and the error that stands in for it passes the second filter as it is
(`filterItem_and`). Both consume the same items, so the rest of a pipeline cannot tell them apart.

`RelExpr.Interchangeable` says when one expression can stand for another: what is compiled of them
runs alike for all bindings. The functions that build further nodes on an expression respect it, so
whatever is built on a filter by a conjunction can be built on the two filters.
-/

namespace RelQuery

/-! ### Pipelines -/

namespace Operator

/-- The pipelines have the same schema, and a run of either gives the same relation, item by item,
or fails alike, and hands out the same streams. -/
structure RunsAs (a b : Operator) : Prop where
  schema : a.schema = b.schema
  run : ∀ h, a.run h = b.run h

variable {a b c : Operator}

theorem RunsAs.refl (a : Operator) : a.RunsAs a :=
  ⟨rfl, fun _ => rfl⟩

theorem RunsAs.trans (hab : a.RunsAs b) (hbc : b.RunsAs c) : a.RunsAs c :=
  ⟨hab.schema.trans hbc.schema, fun h => (hab.run h).trans (hbc.run h)⟩

/-! An operator only sees the relations that its inputs give. -/

theorem RunsAs.filter (hab : a.RunsAs b) (p : Predicate) : (filter a p).RunsAs (filter b p) where
  schema := hab.schema
  run h := by rw [run_filter, run_filter, hab.run, hab.schema]

theorem RunsAs.map (hab : a.RunsAs b) (m : RowMap) : (map a m).RunsAs (map b m) where
  schema := rfl
  run h := by rw [run_map, run_map, hab.run]

theorem RunsAs.group (hab : a.RunsAs b) (g : Grouping) : (group a g).RunsAs (group b g) where
  schema := rfl
  run h := by rw [run_group, run_group, hab.run]

/-- What a conjunction makes of an item is what its second part makes of what its first part
leaves. -/
theorem filterItem_and (p q : Predicate) (item : Item) :
    filterItem (.and p q) item = (filterItem p item).bind (filterItem q) := by
  cases item with
  | error e => rfl
  | ok row =>
      simp only [filterItem, Predicate.eval]
      cases hp : p.eval row with
      | error e => rfl
      | ok holds => cases holds <;> simp [bind, Except.bind, pure, Except.pure, filterItem]

/-- Filtering by one condition and then by another is filtering by their conjunction. -/
theorem runsAs_filter_and (a : Operator) (p q : Predicate) :
    (filter a (.and p q)).RunsAs (filter (filter a p) q) where
  schema := rfl
  run h := by
    have hitems : ∀ items : List Item, items.filterMap (filterItem (.and p q)) =
        (items.filterMap (filterItem p)).filterMap (filterItem q) := by
      intro items
      rw [List.filterMap_filterMap]
      congr 1
      funext item
      exact filterItem_and p q item
    rw [run_filter, run_filter, run_filter]
    cases (a.run h).1 with
    | error e => rfl
    | ok r => simp only [Except.map, hitems]; rfl

end Operator

/-! ### Expressions -/

namespace RelExpr

/-- The expressions have the same schema, and whatever the settings and bindings, they cannot be
compiled for the same reason, or their pipelines run alike. -/
structure Interchangeable (e e' : RelExpr) : Prop where
  schema : e.schema = e'.schema
  compile : ∀ settings bindings h, SameOutcome Operator.RunsAs
    (Operator.compile settings bindings h e) (Operator.compile settings bindings h e')

variable {e e' e'' : RelExpr}

theorem Interchangeable.refl (e : RelExpr) : e.Interchangeable e :=
  ⟨rfl, fun _ _ _ => .refl Operator.RunsAs.refl _⟩

theorem Interchangeable.trans (h : e.Interchangeable e') (h' : e'.Interchangeable e'') :
    e.Interchangeable e'' where
  schema := h.schema.trans h'.schema
  compile settings bindings handouts :=
    (h.compile settings bindings handouts).trans (h'.compile settings bindings handouts)
      Operator.RunsAs.trans

theorem Interchangeable.select (he : e.Interchangeable e') (p : Predicate) :
    (select e p).Interchangeable (select e' p) where
  schema := he.schema
  compile settings bindings handouts :=
    (he.compile settings bindings handouts).bind fun hab => .ok (hab.filter p)

theorem Interchangeable.map (he : e.Interchangeable e') (m : RowMap) :
    (map e m).Interchangeable (map e' m) where
  schema := rfl
  compile settings bindings handouts :=
    (he.compile settings bindings handouts).bind fun hab => .ok (hab.map m)

theorem Interchangeable.group (he : e.Interchangeable e') (g : Grouping) :
    (group e g).Interchangeable (group e' g) where
  schema := rfl
  compile settings bindings handouts :=
    (he.compile settings bindings handouts).bind fun hab => .ok (hab.group g)

/-! Planning an operation only looks at the schemas of its inputs. -/

theorem Interchangeable.filter (he : e.Interchangeable e') (p : Predicate) :
    SameOutcome Interchangeable (e.filter p) (e'.filter p) := by
  unfold RelExpr.filter
  rw [he.schema]
  exact (SameOutcome.refl (fun _ => rfl) (p.validate e'.schema)).bind
    fun (_ : _ = _) => .ok (he.select p)

theorem Interchangeable.mapBy (he : e.Interchangeable e') (form : MapForm) :
    SameOutcome Interchangeable (e.mapBy form) (e'.mapBy form) := by
  unfold RelExpr.mapBy
  rw [he.schema]
  refine (SameOutcome.refl (fun _ => rfl) (RowMap.plan e'.schema form)).bind fun {m m'} hm => ?_
  obtain rfl : m = m' := hm
  exact .ok (he.map m)

theorem Interchangeable.aggregate (he : e.Interchangeable e') (keys : List String)
    (aggregates : List Aggregate) :
    SameOutcome Interchangeable (e.aggregate keys aggregates) (e'.aggregate keys aggregates) := by
  unfold RelExpr.aggregate
  rw [he.schema]
  refine (SameOutcome.refl (fun _ => rfl) (Grouping.plan e'.schema keys aggregates)).bind
    fun {g g'} hg => ?_
  obtain rfl : g = g' := hg
  exact .ok (he.group g)

/-! ### Conditions -/

/-- The rows that satisfy several conditions, applied one after another. -/
def filterAll (e : RelExpr) (ps : List Predicate) : Except Error RelExpr :=
  ps.foldlM RelExpr.filter e

theorem Interchangeable.filterAll (he : e.Interchangeable e') (ps : List Predicate) :
    SameOutcome Interchangeable (e.filterAll ps) (e'.filterAll ps) :=
  .foldlM (fun p h => h.filter p) ps he

/-- The conjunction can be planned exactly if its parts can one after another, and means the
same. -/
theorem filter_and (e : RelExpr) (p q : Predicate) :
    SameOutcome Interchangeable (e.filter (.and p q)) (e.filter p >>= fun e' => e'.filter q) := by
  unfold filter
  simp only [Predicate.validate]
  cases hp : p.validate e.schema with
  | error err => exact .error err
  | ok u =>
      show SameOutcome _ (q.validate e.schema >>= _) (q.validate e.schema >>= _)
      cases hq : q.validate e.schema with
      | error err => exact .error err
      | ok u =>
          refine .ok ⟨rfl, fun settings bindings h => ?_⟩
          simp only [Operator.compile]
          cases Operator.compile settings bindings h e with
          | error err => exact .error err
          | ok a => exact .ok (Operator.runsAs_filter_and a p q)

/-- So does the conjunction of any number of conditions. -/
theorem filter_conjunction : ∀ (ps : List Predicate) (e : RelExpr) (p : Predicate),
    SameOutcome Interchangeable (e.filter (Predicate.conjunction p ps)) (e.filterAll (p :: ps))
  | [], e, p => by
      have hone : e.filterAll [p] = e.filter p := by
        rw [RelExpr.filterAll, List.foldlM_cons]
        exact bind_pure _
      rw [hone]
      exact SameOutcome.refl Interchangeable.refl (e.filter p)
  | q :: ps, e, p => by
      -- The two conditions in front are fused first.
      have hfused := filter_conjunction ps e (.and p q)
      refine hfused.trans ?_ Interchangeable.trans
      rw [RelExpr.filterAll, RelExpr.filterAll, List.foldlM_cons, List.foldlM_cons]
      have hsplit := (filter_and e p q).bind fun h => h.filterAll ps
      rw [bind_assoc] at hsplit
      exact hsplit

end RelExpr

end RelQuery
