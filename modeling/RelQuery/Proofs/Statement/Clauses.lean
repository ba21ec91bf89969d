import RelQuery.Statement

/-!
# RelQuery.Proofs.Statement.Clauses

**The clauses of a statement may be given in any order**, as long as those of one sort keep theirs.

Every clause belongs to one part of a statement (`Clause.part`). Adding it leaves the other parts
as they are (`agreeOn_add`), and what it makes of its own part depends on nothing but that part
(`AgreeOn.add`): a further input looks at whether there is one already, but not at what has been
selected, and an aggregate is selected whether or not there are keys to group by. So each part of a
statement is what the clauses that belong to it make of it by themselves (`agreeOn_foldl_filter`),
and statements with the same clauses for each part are equal.
-/

namespace RelQuery

/-- The parts of a statement. -/
inductive Clause.Part where
  /-- The inputs and how they are joined. -/
  | inputs
  /-- The selected items, aggregates among them. -/
  | selection
  | keys
  | condition
  | name
  | order
  | limit
  | description
deriving DecidableEq, Repr

/-- The part of a statement that a clause belongs to. -/
def Clause.part : Clause → Clause.Part
  | .input _ | .join _ _ _ | .naturalJoin _ _ | .joinWhere _ _ _ => .inputs
  | .select _ | .selectAs _ _ | .selectExprAs _ _ | .aggregate _ => .selection
  | .groupBy _ => .keys
  | .filter _ => .condition
  | .named _ => .name
  | .sortBy _ => .order
  | .limit _ => .limit
  | .description _ => .description

namespace Statement

variable {s t u : Statement} {part : Clause.Part}

/-- Two statements agree on a part. -/
def AgreeOn (part : Clause.Part) (s t : Statement) : Prop :=
  match part with
  | .inputs => s.inputs = t.inputs
  | .selection =>
    s.items = t.items ∧ s.itemTexts = t.itemTexts ∧ s.selects = t.selects ∧
      s.aggregates = t.aggregates
  | .keys => s.keys = t.keys
  | .condition => s.condition = t.condition
  | .name => s.name = t.name
  | .order => s.sortBy = t.sortBy
  | .limit => s.limit = t.limit
  | .description => s.description = t.description

theorem AgreeOn.refl (part : Clause.Part) (s : Statement) : AgreeOn part s s := by
  cases part <;> simp [AgreeOn]

theorem AgreeOn.trans (hst : AgreeOn part s t) (htu : AgreeOn part t u) : AgreeOn part s u := by
  cases part <;> simp_all [AgreeOn]

theorem AgreeOn.symm (h : AgreeOn part s t) : AgreeOn part t s := by
  cases part <;> simp_all [AgreeOn]

/-- Statements that agree on every part are equal. -/
theorem eq_of_agreeOn (h : ∀ part, AgreeOn part s t) : s = t := by
  obtain ⟨hitems, htexts, hselects, haggregates⟩ := h .selection
  have hinputs : s.inputs = t.inputs := h .inputs
  have hkeys : s.keys = t.keys := h .keys
  have hcondition : s.condition = t.condition := h .condition
  have hname : s.name = t.name := h .name
  have horder : s.sortBy = t.sortBy := h .order
  have hlimit : s.limit = t.limit := h .limit
  have hdescription : s.description = t.description := h .description
  cases s
  cases t
  simp_all

/-! ### Steps -/

/-- A clause leaves the parts that it does not belong to. -/
theorem agreeOn_add {c : Clause} (h : c.part ≠ part) (s : Statement) :
    AgreeOn part (s.add c) s := by
  cases c <;> cases part <;> first | exact absurd rfl h | simp [AgreeOn, add, addInput]

/-- What a clause makes of its own part depends on that part only. -/
theorem AgreeOn.add (c : Clause) (h : AgreeOn c.part s t) :
    AgreeOn c.part (s.add c) (t.add c) := by
  cases c <;> simp_all [AgreeOn, Clause.part, Statement.add, addInput]

/-! ### Runs -/

/-- A part is what the clauses that belong to it make of it. -/
theorem agreeOn_foldl_filter : ∀ (clauses : List Clause) {s t : Statement}, AgreeOn part s t →
    AgreeOn part (clauses.foldl Statement.add s)
      ((clauses.filter fun c => c.part = part).foldl Statement.add t)
  | [], _, _, h => h
  | c :: clauses, s, t, h => by
      by_cases hc : c.part = part
      · have hadd : AgreeOn part (s.add c) (t.add c) := by
          rw [← hc] at h ⊢
          exact h.add c
        rw [List.filter_cons_of_pos (by simpa using hc), List.foldl_cons, List.foldl_cons]
        exact agreeOn_foldl_filter clauses hadd
      · rw [List.filter_cons_of_neg (by simpa using hc), List.foldl_cons]
        exact agreeOn_foldl_filter clauses ((agreeOn_add hc s).trans h)

/-- **Clauses may be given in any order.** Two lists of clauses that have the same clauses for each
part of a statement, in the same order among themselves, give one text, and building gives one query
from both or fails with the same error, however the clauses of different parts are mixed. -/
theorem sql_and_build_of_clauses {clauses clauses' : List Clause}
    (h : ∀ part, clauses.filter (fun c => c.part = part) =
      clauses'.filter fun c => c.part = part) :
    (ofClauses clauses).sql = (ofClauses clauses').sql ∧
      (ofClauses clauses).build = (ofClauses clauses').build := by
  have heq : ofClauses clauses = ofClauses clauses' := by
    refine eq_of_agreeOn fun part => ?_
    have hclauses := agreeOn_foldl_filter clauses (.refl part empty)
    have hclauses' := agreeOn_foldl_filter clauses' (.refl part empty)
    rw [h part] at hclauses
    exact hclauses.trans hclauses'.symm
  rw [heq]
  exact ⟨rfl, rfl⟩

/-- Measurements of rain, and the stations they were taken at. -/
def rain : Schema :=
  ⟨"rain", [⟨"station", .int32, false, .position 0⟩, ⟨"amount", .float64, true, .position 1⟩]⟩

/-- Stations by number, each in a town. -/
def stations : Schema :=
  ⟨"stations", [⟨"number", .int32, false, .position 0⟩, ⟨"town", .text, false, .position 1⟩]⟩

/-- The rainiest towns, asked for in the order of evaluation. -/
def rainiest : List Clause :=
  [.input rain, .join .inner stations [("station", "number")], .filter (.not (.isNull "amount")),
    .groupBy ["town"], .select ["town"], .aggregate (Aggregate.ofColumn .sum "amount"),
    .named "rainiest", .sortBy ["-sum(amount)"], .limit 3]

/-- The same with the parts turned around: each clause comes before those it is evaluated after. -/
def rainiestBackwards : List Clause :=
  [.limit 3, .sortBy ["-sum(amount)"], .named "rainiest", .select ["town"],
    .aggregate (Aggregate.ofColumn .sum "amount"), .groupBy ["town"],
    .filter (.not (.isNull "amount")), .input rain, .join .inner stations [("station", "number")]]

theorem sql_and_build_of_rainiest :
    (ofClauses rainiest).sql = (ofClauses rainiestBackwards).sql ∧
      (ofClauses rainiest).build = (ofClauses rainiestBackwards).build ∧
      (ofClauses rainiestBackwards).sql = "SELECT town, sum(amount) FROM rain" ++
        " INNER JOIN stations ON station = stations.number WHERE NOT amount IS NULL" ++
        " GROUP BY town ORDER BY sum(amount) DESC LIMIT 3" := by
  have hparts : ∀ part, rainiest.filter (fun c => c.part = part) =
      rainiestBackwards.filter fun c => c.part = part := fun part => by cases part <;> rfl
  have hboth := @sql_and_build_of_clauses rainiest rainiestBackwards hparts
  exact ⟨hboth.1, hboth.2, by rfl⟩

end Statement

end RelQuery
