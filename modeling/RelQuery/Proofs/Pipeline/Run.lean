import RelQuery.Pipeline.Operator
import RelQuery.Proofs.Pipeline.Built

/-!
# RelQuery.Proofs.Pipeline.Run

What a **run of a pipeline** gives, operator by operator, and which streams it hands out.

A run threads the record of handouts through the operators. Its result alone is described by one
equation for each operator (`run_filter_fst` and its companions). The record only grows
(`Handouts.Before`, `before_run`). A run hands out only streams bound in the pipeline
(`isSpent_run`), so a pipeline whose streams are all different and not yet handed out (`Fresh`)
never misses one.
-/

namespace RelQuery

/-- A record before another: what it counts as handed out, the other does too. -/
def Handouts.Before (h h' : Handouts) : Prop :=
  ∀ ticket, h.isSpent ticket = true → h'.isSpent ticket = true

theorem Handouts.Before.refl (h : Handouts) : h.Before h :=
  fun _ hspent => hspent

theorem Handouts.Before.trans {h h' h'' : Handouts} (hbefore : h.Before h')
    (hbefore' : h'.Before h'') : h.Before h'' :=
  fun ticket hspent => hbefore' ticket (hbefore ticket hspent)

theorem Handouts.before_spend (h : Handouts) (ticket : Nat) : h.Before (h.spend ticket) := by
  intro ticket' hspent
  simp only [isSpent, spend, List.contains_cons, Bool.or_eq_true] at hspent ⊢
  exact Or.inr hspent

theorem Handouts.isSpent_spend (h : Handouts) (ticket : Nat) :
    (h.spend ticket).isSpent ticket = true := by
  simp [isSpent, spend]

namespace Input

/-- The relation that is bound. -/
def relation : Input → Relation
  | table t => .table t
  | sorted t => .sorted t
  | stream _ s => .stream s

/-- The ticket of an input that is a stream. -/
def ticket? : Input → Option Nat
  | stream ticket _ => some ticket
  | _ => none

/-- What is handed out is the relation that is bound. A stream has not been handed out before. -/
theorem take_eq_ok {input : Input} {name : String} {h : Handouts} {r : Relation}
    (htake : (input.take name h).1 = .ok r) :
    r = input.relation ∧ ∀ ticket, input.ticket? = some ticket → h.isSpent ticket = false := by
  cases input with
  | table t => exact ⟨(Except.ok.inj htake).symm, by simp [ticket?]⟩
  | sorted t => exact ⟨(Except.ok.inj htake).symm, by simp [ticket?]⟩
  | stream ticket s =>
      rw [take] at htake
      split at htake
      · simp at htake
      · rename_i hunspent
        refine ⟨(Except.ok.inj htake).symm, fun ticket' hticket => ?_⟩
        obtain rfl := Option.some.inj hticket
        exact Bool.eq_false_iff.mpr hunspent

/-- As long as a stream has not been handed out, the schema of what is bound is known. -/
theorem schema?_eq_some {input : Input} {h : Handouts}
    (hunspent : ∀ ticket, input.ticket? = some ticket → h.isSpent ticket = false) :
    input.schema? h = some input.relation.schema := by
  cases input with
  | table t => rfl
  | sorted t => rfl
  | stream ticket s =>
      rw [schema?, hunspent ticket rfl, if_neg (by simp)]
      rfl

/-- Handing out only adds to the record. -/
theorem before_take (input : Input) (name : String) (h : Handouts) :
    h.Before (input.take name h).2 := by
  cases input with
  | table t => exact Handouts.Before.refl h
  | sorted t => exact Handouts.Before.refl h
  | stream ticket s =>
      rw [take]
      split
      · exact Handouts.Before.refl h
      · exact Handouts.before_spend h ticket

theorem isSpent_take {input : Input} {name : String} {h : Handouts} {ticket : Nat}
    (hspent : (input.take name h).2.isSpent ticket = true) :
    h.isSpent ticket = true ∨ input.ticket? = some ticket := by
  cases input with
  | table t => exact Or.inl hspent
  | sorted t => exact Or.inl hspent
  | stream ticket' s =>
      rw [take] at hspent
      split at hspent
      · exact Or.inl hspent
      · simp only [Handouts.isSpent, Handouts.spend, List.contains_cons, Bool.or_eq_true,
          beq_iff_eq] at hspent
        rcases hspent with hticket | hspent
        · exact Or.inr (congrArg some hticket.symm)
        · exact Or.inl hspent

end Input

namespace Operator

variable {a b op : Operator} {h : Handouts}

/-! ### Operators with one input -/

theorem run_filter (p : Predicate) : (filter a p).run h =
    ((a.run h).1.map fun r => .stream ⟨a.schema, r.items.filterMap (filterItem p)⟩,
      (a.run h).2) := by
  rw [run]
  rcases a.run h with ⟨r | r, h'⟩ <;> rfl

theorem run_map (m : RowMap) : (map a m).run h =
    ((a.run h).1.map fun r => .stream ⟨m.schema, r.items.map (mapItem m)⟩, (a.run h).2) := by
  rw [run]
  rcases a.run h with ⟨r | r, h'⟩ <;> rfl

theorem run_group (g : Grouping) : (group a g).run h =
    ((a.run h).1 >>= fun r => (g.run r.items).map .table, (a.run h).2) := by
  rw [run]
  rcases a.run h with ⟨r | r, h'⟩ <;> rfl

/-! ### Results -/

theorem run_filter_fst (p : Predicate) : ((filter a p).run h).1 =
    (a.run h).1.map fun r => .stream ⟨a.schema, r.items.filterMap (filterItem p)⟩ := by
  rw [run_filter]

theorem run_map_fst (m : RowMap) : ((map a m).run h).1 =
    (a.run h).1.map fun r => .stream ⟨m.schema, r.items.map (mapItem m)⟩ := by
  rw [run_map]

theorem run_group_fst (g : Grouping) : ((group a g).run h).1 =
    (a.run h).1 >>= fun r => (g.run r.items).map .table := by
  rw [run_group]

theorem run_join_fst (j : Join) (strategy : JoinStrategy) (verify : Bool) :
    ((join a b j strategy verify).run h).1 = do
      let l ← (a.run h).1
      let r ← (b.run (a.run h).2).1
      let matcher ← matcherFor j strategy verify r
      return .stream ⟨j.schema, (JoinCursor.start j matcher l.items).drain⟩ := by
  rw [run]
  rcases a.run h with ⟨l | l, h'⟩
  · rfl
  · simp only
    rcases b.run h' with ⟨r | r, h''⟩
    · rfl
    · simp only [bind, Except.bind]
      cases matcherFor j strategy verify r <;> rfl

/-- A join that succeeds has run its left-hand side, then its right-hand side, and found how to
match them. -/
theorem run_join_eq_ok {j : Join} {strategy : JoinStrategy} {verify : Bool} {r : Relation}
    (hrun : ((join a b j strategy verify).run h).1 = .ok r) :
    ∃ left right matcher, (a.run h).1 = .ok left ∧ (b.run (a.run h).2).1 = .ok right ∧
      matcherFor j strategy verify right = .ok matcher ∧
      r = .stream ⟨j.schema, (JoinCursor.start j matcher left.items).drain⟩ := by
  rw [run_join_fst] at hrun
  obtain ⟨left, hleft, hrun⟩ := bind_eq_ok_iff.mp hrun
  obtain ⟨right, hright, hrun⟩ := bind_eq_ok_iff.mp hrun
  obtain ⟨matcher, hmatcher, hrun⟩ := bind_eq_ok_iff.mp hrun
  exact ⟨left, right, matcher, hleft, hright, hmatcher, (pure_eq_ok_iff.mp hrun).symm⟩

/-! ### Handouts -/

theorem run_filter_snd (p : Predicate) : ((filter a p).run h).2 = (a.run h).2 := by
  rw [run_filter]

theorem run_map_snd (m : RowMap) : ((map a m).run h).2 = (a.run h).2 := by
  rw [run_map]

theorem run_group_snd (g : Grouping) : ((group a g).run h).2 = (a.run h).2 := by
  rw [run_group]

/-- If the run of the left-hand side fails, the right-hand side is not run. -/
theorem run_join_snd_of_error (j : Join) (strategy : JoinStrategy) (verify : Bool) {e : Error}
    (hleft : (a.run h).1 = .error e) :
    ((join a b j strategy verify).run h).2 = (a.run h).2 := by
  rw [run]
  rcases hrun : a.run h with ⟨l | l, h'⟩
  · rfl
  · rw [hrun] at hleft
    simp at hleft

/-- Otherwise it is run next. -/
theorem run_join_snd_of_ok (j : Join) (strategy : JoinStrategy) (verify : Bool) {l : Relation}
    (hleft : (a.run h).1 = .ok l) :
    ((join a b j strategy verify).run h).2 = (b.run (a.run h).2).2 := by
  rw [run]
  rcases hrun : a.run h with ⟨l' | l', h'⟩
  · rw [hrun] at hleft
    simp at hleft
  · simp only
    rcases b.run h' with ⟨r | r, h''⟩
    · rfl
    · simp only
      cases matcherFor j strategy verify r <;> rfl

theorem run_join_snd (j : Join) (strategy : JoinStrategy) (verify : Bool) :
    ((join a b j strategy verify).run h).2 = (a.run h).2 ∨
      ((join a b j strategy verify).run h).2 = (b.run (a.run h).2).2 := by
  cases hleft : (a.run h).1 with
  | error e => exact Or.inl (run_join_snd_of_error j strategy verify hleft)
  | ok l => exact Or.inr (run_join_snd_of_ok j strategy verify hleft)

/-- A run only adds to the record. -/
theorem before_run : ∀ (op : Operator) (h : Handouts), h.Before (op.run h).2
  | source name s input, h => Input.before_take input name h
  | filter input p, h => by
      rw [run_filter_snd]
      exact before_run input h
  | map input m, h => by
      rw [run_map_snd]
      exact before_run input h
  | group input g, h => by
      rw [run_group_snd]
      exact before_run input h
  | join left right j strategy verify, h => by
      rcases @run_join_snd left right h j strategy verify with heq | heq
      · rw [heq]
        exact before_run left h
      · rw [heq]
        exact (before_run left h).trans (before_run right _)

/-- The tickets of the streams below an operator, in the order in which a run asks for them. -/
def tickets : Operator → List Nat
  | source _ _ input => input.ticket?.toList
  | filter input _ => input.tickets
  | map input _ => input.tickets
  | group input _ => input.tickets
  | join left right _ _ _ => left.tickets ++ right.tickets

/-- A run hands out only streams that are bound in the pipeline. -/
theorem isSpent_run : ∀ (op : Operator) {h : Handouts} {ticket : Nat},
    (op.run h).2.isSpent ticket = true → h.isSpent ticket = true ∨ ticket ∈ op.tickets
  | source name s input, h, ticket, hspent => by
      rcases Input.isSpent_take hspent with hspent | hticket
      · exact Or.inl hspent
      · exact Or.inr (by simp [tickets, hticket])
  | filter input p, h, ticket, hspent => by
      rw [run_filter_snd] at hspent
      exact isSpent_run input hspent
  | map input m, h, ticket, hspent => by
      rw [run_map_snd] at hspent
      exact isSpent_run input hspent
  | group input g, h, ticket, hspent => by
      rw [run_group_snd] at hspent
      exact isSpent_run input hspent
  | join left right j strategy verify, h, ticket, hspent => by
      rcases @run_join_snd left right h j strategy verify with heq | heq
      · rw [heq] at hspent
        exact (isSpent_run left hspent).imp_right (List.mem_append_left _)
      · rw [heq] at hspent
        rcases isSpent_run right hspent with hspent | hmem
        · exact (isSpent_run left hspent).imp_right (List.mem_append_left _)
        · exact Or.inr (List.mem_append_right _ hmem)

/-- No stream is bound twice, and none has been handed out. -/
structure Fresh (op : Operator) (h : Handouts) : Prop where
  nodup : op.tickets.Nodup
  /-- None of them has been handed out. -/
  unspent : ∀ ticket ∈ op.tickets, h.isSpent ticket = false

theorem Fresh.left {j : Join} {strategy : JoinStrategy} {verify : Bool}
    (hfresh : (join a b j strategy verify).Fresh h) : a.Fresh h where
  nodup := (List.nodup_append.mp hfresh.nodup).1
  unspent := fun ticket hmem => hfresh.unspent ticket (List.mem_append_left _ hmem)

/-- Running the left-hand side leaves the streams of the right-hand side alone. -/
theorem Fresh.right {j : Join} {strategy : JoinStrategy} {verify : Bool}
    (hfresh : (join a b j strategy verify).Fresh h) : b.Fresh (a.run h).2 where
  nodup := (List.nodup_append.mp hfresh.nodup).2.1
  unspent := by
    intro ticket hmem
    rw [Bool.eq_false_iff]
    intro hspent
    rcases isSpent_run a hspent with hspent | hmem'
    · rw [hfresh.unspent ticket (List.mem_append_right _ hmem)] at hspent
      exact absurd hspent (by simp)
    · exact (List.nodup_append.mp hfresh.nodup).2.2 ticket hmem' ticket hmem rfl

end Operator

end RelQuery
