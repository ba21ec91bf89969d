import RelQuery.Proofs.Engine.Present
import RelQuery.Proofs.Pipeline.Requests

/-!
# RelQuery.Proofs.Session.SingleUse

**A stream is handed out at most once in a session.**

A session is a list of calls over one set of bindings: expressions are compiled, queries are
explained and evaluated, and compiled pipelines are run, any of them any number of times. All that
passes from one call to the next is the record of the streams handed out. Each call leaves the
record that its requests leave (`linked_requests`), so what holds of the requests of one run holds
of those of a session (`single_use`).
-/

namespace RelQuery

/-- A call of a session. -/
inductive Action where
  | compile (engine : Engine) (e : RelExpr)
  | explain (engine : Engine) (q : Query)
  | eval (engine : Engine) (q : Query) (clock : Clock)
  | evalUnsorted (engine : Engine) (q : Query)
  /-- A run of a pipeline that has been compiled. -/
  | call (root : Operator)

/-- What a call gives. -/
inductive Outcome where
  | compiled (r : Except ExecError Operator)
  | explained (r : Except ExecError String)
  | evaluated (r : Except ExecError ResultSet)
  | unsorted (r : Except ExecError Relation)
  | called (r : Except Error Relation)

/-- The error that a call has failed with, without the name of the query. -/
def Outcome.error? : Outcome → Option Error
  | compiled (.error e) | explained (.error e) | evaluated (.error e) | unsorted (.error e) =>
    some e.cause
  | called (.error e) => some e
  | _ => none

namespace Action

/-- Compiling and explaining do not run anything. -/
def isReading : Action → Bool
  | compile .. | explain .. => true
  | _ => false

/-- What a call gives, and the record it leaves. -/
def perform (bindings : Bindings) (h : Handouts) : Action → Outcome × Handouts
  | compile engine e => (.compiled (engine.compile e bindings h), h)
  | explain engine q => (.explained (engine.explain q bindings h), h)
  | eval engine q clock =>
    let (r, h) := engine.eval q bindings clock h
    (.evaluated r, h)
  | evalUnsorted engine q =>
    let (r, h) := engine.evalUnsorted q bindings h
    (.unsorted r, h)
  | call root =>
    let (r, h) := root.run h
    (.called r, h)

/-- The requests of the run of a query, if it compiles. -/
def queryRequests (engine : Engine) (q : Query) (bindings : Bindings) (h : Handouts) :
    List Request :=
  match engine.compile q.expr bindings h with
  | .ok op => op.requests h
  | .error _ => []

/-- What a call asks for. -/
def requests (bindings : Bindings) (h : Handouts) : Action → List Request
  | compile .. | explain .. => []
  | eval engine q _ | evalUnsorted engine q => queryRequests engine q bindings h
  | call root => root.requests h

variable {bindings : Bindings} {h : Handouts}

/-- Reading leaves the record alone. -/
theorem perform_of_isReading {x : Action} (hx : x.isReading = true) :
    (x.perform bindings h).2 = h := by
  cases x <;> simp [isReading, perform] at hx ⊢

theorem linked_queryRequests (engine : Engine) (q : Query) (bindings : Bindings) (h : Handouts) :
    Linked h (queryRequests engine q bindings h) (engine.evalUnsorted q bindings h).2 := by
  unfold queryRequests
  cases hcompile : engine.compile q.expr bindings h with
  | error e =>
      unfold Engine.evalUnsorted
      rw [hcompile]
      rfl
  | ok op =>
      rw [Engine.evalUnsorted_of_compile hcompile]
      exact op.linked_requests h

/-- The requests of a call leave the record that the call leaves. -/
theorem linked_requests (x : Action) (bindings : Bindings) (h : Handouts) :
    Linked h (x.requests bindings h) (x.perform bindings h).2 := by
  cases x with
  | compile engine e => rfl
  | explain engine q => rfl
  | eval engine q clock =>
      show Linked h _ (engine.eval q bindings clock h).2
      rw [Engine.eval_snd]
      exact linked_queryRequests engine q bindings h
  | evalUnsorted engine q => exact linked_queryRequests engine q bindings h
  | call root => exact root.linked_requests h

/-- A query whose run asks for a stream that is gone compiles, to a pipeline that fails. -/
theorem exists_run_of_exhausted {engine : Engine} {query : Query} {q : Request}
    (hmem : q ∈ queryRequests engine query bindings h) (hexhausted : q.Exhausted) :
    ∃ op, engine.compile query.expr bindings h = .ok op ∧
      (op.run h).1 = .error (.exhausted q.name) := by
  unfold queryRequests at hmem
  split at hmem
  · rename_i op hcompile
    exact ⟨op, hcompile, Operator.run_of_exhausted hmem hexhausted⟩
  · simp at hmem

/-- A call that asks for a stream that is gone fails, and names the leaf. -/
theorem perform_of_exhausted {x : Action} {q : Request} (hmem : q ∈ x.requests bindings h)
    (hexhausted : q.Exhausted) :
    (x.perform bindings h).1.error? = some (.exhausted q.name) := by
  cases x with
  | compile engine e => simp [requests] at hmem
  | explain engine q => simp [requests] at hmem
  | eval engine query clock =>
      obtain ⟨op, hcompile, hrun⟩ := exists_run_of_exhausted hmem hexhausted
      show (Outcome.evaluated (engine.eval query bindings clock h).1).error? = _
      rw [Engine.eval_of_compile hcompile, hrun]
      rfl
  | evalUnsorted engine query =>
      obtain ⟨op, hcompile, hrun⟩ := exists_run_of_exhausted hmem hexhausted
      show (Outcome.unsorted (engine.evalUnsorted query bindings h).1).error? = _
      rw [Engine.evalUnsorted_of_compile hcompile, hrun]
      rfl
  | call root =>
      show (Outcome.called (root.run h).1).error? = _
      rw [Operator.run_of_exhausted hmem hexhausted]
      rfl

end Action

namespace Session

/-- The record after some calls. -/
def after (bindings : Bindings) (h : Handouts) : List Action → Handouts
  | [] => h
  | x :: actions => after bindings (x.perform bindings h).2 actions

/-- What some calls give. -/
def outcomes (bindings : Bindings) (h : Handouts) : List Action → List Outcome
  | [] => []
  | x :: actions =>
    (x.perform bindings h).1 :: outcomes bindings (x.perform bindings h).2 actions

/-- What some calls ask for. -/
def requests (bindings : Bindings) (h : Handouts) : List Action → List Request
  | [] => []
  | x :: actions => x.requests bindings h ++ requests bindings (x.perform bindings h).2 actions

variable {bindings : Bindings} {h : Handouts}

theorem after_append (actions actions' : List Action) :
    after bindings h (actions ++ actions') =
      after bindings (after bindings h actions) actions' := by
  induction actions generalizing h with
  | nil => rfl
  | cons x actions ih => exact ih

theorem outcomes_append (actions actions' : List Action) :
    outcomes bindings h (actions ++ actions') =
      outcomes bindings h actions ++ outcomes bindings (after bindings h actions) actions' := by
  induction actions generalizing h with
  | nil => rfl
  | cons x actions ih => exact congrArg ((x.perform bindings h).1 :: ·) ih

theorem length_outcomes (actions : List Action) :
    (outcomes bindings h actions).length = actions.length := by
  induction actions generalizing h with
  | nil => rfl
  | cons x actions ih => exact congrArg (· + 1) ih

/-- The requests of a session leave the record that the session leaves. -/
theorem linked_requests (actions : List Action) :
    Linked h (requests bindings h actions) (after bindings h actions) := by
  induction actions generalizing h with
  | nil => rfl
  | cons x actions ih => exact (x.linked_requests bindings h).append ih

/-- Without a call that only reads, the other calls give the same. -/
theorem outcomes_eraseIdx {x : Action} (hx : x.isReading = true) (earlier later : List Action) :
    (outcomes bindings h (earlier ++ x :: later)).eraseIdx earlier.length =
      outcomes bindings h (earlier ++ later) := by
  have hlength : (outcomes bindings h earlier).length = earlier.length := length_outcomes earlier
  rw [outcomes_append, outcomes_append, outcomes, Action.perform_of_isReading hx, ← hlength,
    List.eraseIdx_append_of_length_le (Nat.le_refl _), Nat.sub_self, List.eraseIdx_cons_zero]

/-- A root that has been called with success gives the same when it is called again later in the
session, unless a stream is bound to one of its leaves. Then it fails at the first of these. -/
theorem call_again {settings : Settings} {h₀ : Handouts} {e : RelExpr} {root : Operator}
    (hcompile : Operator.compile settings bindings h₀ e = .ok root) {r : Relation}
    (hcall : (root.run h).1 = .ok r) (later : List Action) :
    (root.run (after bindings (root.run h).2 later)).1 =
      Operator.again r (e.firstStream? bindings) := by
  rw [Operator.run_again hcall (linked_requests later).before,
    Operator.compile_firstStream? hcompile]

/-- **Streams are single-use over whole sessions.** Whatever is compiled, explained, evaluated and
run over one set of bindings, in whatever order:

* the requests of all calls get no stream twice, and none that was gone before;
* a call that only reads leaves the record alone, and without it all other calls give the same;
* a call that asks for a stream that is gone fails, and names the leaf;
* a compiled root whose call has succeeded gives the same rows whenever it is called again if no
  leaf of its expression is bound to a stream, and otherwise fails at the first leaf that is. -/
theorem single_use (bindings : Bindings) (h : Handouts) :
    (∀ actions : List Action, Linked h (requests bindings h actions) (after bindings h actions) ∧
      ((requests bindings h actions).filterMap Request.granted?).Nodup ∧
      ∀ ticket ∈ (requests bindings h actions).filterMap Request.granted?,
        h.isSpent ticket = false) ∧
    (∀ (earlier : List Action) (x : Action) (later : List Action), x.isReading = true →
      (x.perform bindings (after bindings h earlier)).2 = after bindings h earlier ∧
      (outcomes bindings h (earlier ++ x :: later)).eraseIdx earlier.length =
        outcomes bindings h (earlier ++ later)) ∧
    (∀ (earlier : List Action) (x : Action) (q : Request),
      q ∈ x.requests bindings (after bindings h earlier) → q.Exhausted →
      (x.perform bindings (after bindings h earlier)).1.error? = some (.exhausted q.name)) ∧
    ∀ settings h₀ e root, Operator.compile settings bindings h₀ e = .ok root →
      ∀ (earlier : List Action) (r : Relation),
      ((Action.call root).perform bindings (after bindings h earlier)).1 = .called (.ok r) →
      ∀ later : List Action, ((Action.call root).perform bindings
          (after bindings h (earlier ++ .call root :: later))).1 =
        .called (Operator.again r (e.firstStream? bindings)) := by
  refine ⟨fun actions => ?_, fun earlier x later hx => ?_, fun earlier x q hmem hexhausted => ?_,
    fun settings h₀ e root hcompile earlier r hcall later => ?_⟩
  · have hlinked : Linked h (requests bindings h actions) (after bindings h actions) :=
      linked_requests actions
    exact ⟨hlinked, hlinked.nodup_granted⟩
  · exact ⟨Action.perform_of_isReading hx, outcomes_eraseIdx hx earlier later⟩
  · exact Action.perform_of_exhausted hmem hexhausted
  · rw [after_append]
    exact congrArg Outcome.called (call_again hcompile (Outcome.called.inj hcall) later)

/-- Events that can be read once. -/
def events : Stream :=
  let s : Schema := ⟨"events", [⟨"code", .int32, false, .position 0⟩]⟩
  .ofRows s [⟨s, [.int32 1], rfl⟩]

/-- Bindings of the events. -/
def onlyEvents : Bindings :=
  ⟨[("events", .stream 0 events)], List.pairwise_singleton _ _⟩

/-- The events are read by the first call and gone for the second, also if the plan is compiled
again in between, which changes nothing. -/
theorem single_use_of_events :
    let root := Operator.source "events" events.schema (.stream 0 events)
    let again := Action.compile ⟨.default⟩ (.scan events.schema)
    Operator.compile .default onlyEvents .none (.scan events.schema) = .ok root ∧
      ((Action.call root).perform onlyEvents .none).1 = .called (.ok (.stream events)) ∧
      ((Action.call root).perform onlyEvents (after onlyEvents .none [.call root, again])).1 =
        .called (.error (.exhausted "events")) ∧
      ((Action.call root).perform onlyEvents (after onlyEvents .none [.call root])).1.error? =
        some (.exhausted "events") ∧
      (outcomes onlyEvents .none [.call root, again, .call root]).eraseIdx 1 =
        outcomes onlyEvents .none [.call root, .call root] := by
  intro root again
  obtain ⟨-, hreading, hexhausted, hcall⟩ := single_use onlyEvents .none
  have hfirst : (RelExpr.scan events.schema).firstStream? onlyEvents = some "events" := by
    rw [RelExpr.firstStream?, RelExpr.leaves_scan]
    rfl
  have hagain := hcall .default .none (.scan events.schema) root rfl [] (.stream events) rfl [again]
  rw [hfirst] at hagain
  refine ⟨rfl, rfl, hagain, ?_, (hreading [.call root] again [.call root] rfl).2⟩
  exact hexhausted [.call root] (.call root) ⟨"events", .stream 0 events, ⟨0, [0]⟩⟩
    (List.mem_singleton.mpr rfl) ⟨0, rfl, rfl⟩

end Session

end RelQuery
