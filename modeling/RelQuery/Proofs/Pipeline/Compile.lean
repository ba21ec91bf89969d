import RelQuery.Proofs.Pipeline.Run

/-!
# RelQuery.Proofs.Pipeline.Compile

What **compiling an expression** gives.

Compilation makes one operator of each node and looks only at the schemas of what is bound to the
leaves. A pipeline has the schema of its expression, and its streams are those bound to the leaves.
-/

namespace RelQuery

/-- The tickets of the streams that are bound to the leaves of an expression. -/
def RelExpr.ticketsIn (bindings : Bindings) (e : RelExpr) : List Nat :=
  e.leaves.filterMap fun leaf => (bindings.get? leaf.name).bind Input.ticket?

namespace Operator

variable {settings : Settings} {bindings : Bindings} {h : Handouts}

/-- A compiled leaf is the relation bound to it. -/
theorem compileLeaf_eq_ok {leaf : Schema} {op : Operator}
    (hcompile : compileLeaf bindings h leaf = .ok op) :
    ∃ input, bindings.get? leaf.name = some input ∧ op = source leaf.name leaf input ∧
      ∀ actual, input.schema? h = some actual → actual.fits leaf = true := by
  unfold compileLeaf at hcompile
  cases hget : bindings.get? leaf.name with
  | none => simp [hget] at hcompile
  | some input =>
      simp only [hget] at hcompile
      refine ⟨input, rfl, ?_⟩
      cases hschema : input.schema? h with
      | none =>
          simp only [hschema] at hcompile
          exact ⟨(Except.ok.inj hcompile).symm, by simp⟩
      | some actual =>
          simp only [hschema] at hcompile
          split at hcompile
          · rename_i hfits
            refine ⟨(Except.ok.inj hcompile).symm, fun actual' h => ?_⟩
            exact Option.some.inj h ▸ hfits
          · simp at hcompile

theorem compileLeaf_of_fits {leaf actual : Schema} {input : Input}
    (hget : bindings.get? leaf.name = some input) (hschema : input.schema? h = some actual)
    (hfits : actual.fits leaf = true) :
    compileLeaf bindings h leaf = .ok (source leaf.name leaf input) := by
  simp only [compileLeaf, hget, hschema, hfits, if_true]

variable {op : Operator} {input left right : RelExpr}

/-! ### What an operator has been compiled from -/

theorem compile_select_eq_ok {p : Predicate}
    (hcompile : compile settings bindings h (.select input p) = .ok op) :
    ∃ a, compile settings bindings h input = .ok a ∧ op = filter a p := by
  obtain ⟨a, ha, hcompile⟩ := bind_eq_ok_iff.mp hcompile
  exact ⟨a, ha, (pure_eq_ok_iff.mp hcompile).symm⟩

theorem compile_map_eq_ok {m : RowMap}
    (hcompile : compile settings bindings h (.map input m) = .ok op) :
    ∃ a, compile settings bindings h input = .ok a ∧ op = map a m := by
  obtain ⟨a, ha, hcompile⟩ := bind_eq_ok_iff.mp hcompile
  exact ⟨a, ha, (pure_eq_ok_iff.mp hcompile).symm⟩

theorem compile_group_eq_ok {g : Grouping}
    (hcompile : compile settings bindings h (.group input g) = .ok op) :
    ∃ a, compile settings bindings h input = .ok a ∧ op = group a g := by
  obtain ⟨a, ha, hcompile⟩ := bind_eq_ok_iff.mp hcompile
  exact ⟨a, ha, (pure_eq_ok_iff.mp hcompile).symm⟩

theorem compile_join_eq_ok {j : Join}
    (hcompile : compile settings bindings h (.join left right j) = .ok op) :
    ∃ a b, compile settings bindings h left = .ok a ∧ compile settings bindings h right = .ok b ∧
      op = join a b j settings.strategy settings.verifySorted := by
  obtain ⟨a, ha, hcompile⟩ := bind_eq_ok_iff.mp hcompile
  obtain ⟨b, hb, hcompile⟩ := bind_eq_ok_iff.mp hcompile
  exact ⟨a, b, ha, hb, (pure_eq_ok_iff.mp hcompile).symm⟩

/-! ### Schemas and streams -/

/-- A pipeline has the schema of its expression. -/
theorem compile_schema : ∀ {e : RelExpr} {op : Operator},
    compile settings bindings h e = .ok op → op.schema = e.schema
  | .scan leaf, op, hcompile => by
      obtain ⟨input, -, rfl, -⟩ := compileLeaf_eq_ok hcompile
      rfl
  | .select input p, op, hcompile => by
      obtain ⟨a, ha, rfl⟩ := compile_select_eq_ok hcompile
      show a.schema = input.schema
      exact compile_schema ha
  | .map input m, op, hcompile => by
      obtain ⟨a, -, rfl⟩ := compile_map_eq_ok hcompile
      rfl
  | .group input g, op, hcompile => by
      obtain ⟨a, -, rfl⟩ := compile_group_eq_ok hcompile
      rfl
  | .join left right j, op, hcompile => by
      obtain ⟨a, b, -, -, rfl⟩ := compile_join_eq_ok hcompile
      rfl

/-- The streams of a pipeline are those bound to the leaves of its expression. -/
theorem compile_tickets : ∀ {e : RelExpr} {op : Operator},
    compile settings bindings h e = .ok op → op.tickets = e.ticketsIn bindings
  | .scan leaf, op, hcompile => by
      obtain ⟨input, hget, rfl, -⟩ := compileLeaf_eq_ok hcompile
      simp only [tickets, RelExpr.ticketsIn, RelExpr.leaves_scan, List.filterMap_cons, hget,
        Option.bind_some, List.filterMap_nil]
      cases input.ticket? <;> rfl
  | .select input p, op, hcompile => by
      obtain ⟨a, ha, rfl⟩ := compile_select_eq_ok hcompile
      simp only [tickets, compile_tickets ha, RelExpr.ticketsIn, RelExpr.leaves_select]
  | .map input m, op, hcompile => by
      obtain ⟨a, ha, rfl⟩ := compile_map_eq_ok hcompile
      simp only [tickets, compile_tickets ha, RelExpr.ticketsIn, RelExpr.leaves_map]
  | .group input g, op, hcompile => by
      obtain ⟨a, ha, rfl⟩ := compile_group_eq_ok hcompile
      simp only [tickets, compile_tickets ha, RelExpr.ticketsIn, RelExpr.leaves_group]
  | .join left right j, op, hcompile => by
      obtain ⟨a, b, ha, hb, rfl⟩ := compile_join_eq_ok hcompile
      simp only [tickets, compile_tickets ha, compile_tickets hb, RelExpr.ticketsIn,
        RelExpr.leaves_join, List.filterMap_append]

end Operator

end RelQuery
