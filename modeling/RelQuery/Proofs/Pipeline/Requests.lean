import RelQuery.Proofs.Pipeline.Compile

/-!
# RelQuery.Proofs.Pipeline.Requests

**What a run asks for**, and what it gets.

A run reaches leaves, left before right, and asks each for the relation that is bound to it; a leaf
behind a failure is not reached. `Operator.requests` lists what a run asks for, and with what
record. The record after a run is the one that its requests leave (`linked_requests`), so a run
hands out no stream twice, and none that has been handed out before (`Linked.nodup_granted`). A
request for such a stream is the end of the run, with the error that names the leaf
(`run_of_exhausted`).

A pipeline that has run once has handed out the streams of all of its leaves. From then on it stops
at the first of these, and without any it does what it did before (`run_again`).
-/

namespace RelQuery

/-- The name of the first leaf, from the left, that a stream is bound to. -/
def RelExpr.firstStream? (bindings : Bindings) (e : RelExpr) : Option String :=
  (e.leaves.find? fun leaf => ((bindings.get? leaf.name).bind Input.ticket?).isSome).map Schema.name

/-- A request for the relation bound to an input. -/
structure Request where
  /-- The name of the input. -/
  name : String
  input : Input
  /-- The record when the request is made. -/
  record : Handouts

namespace Request

/-- What the request gets, and the record it leaves. -/
def answer (q : Request) : Except Error Relation × Handouts :=
  q.input.take q.name q.record

/-- The ticket of the stream that the request gets. -/
def granted? (q : Request) : Option Nat :=
  match q.answer.1 with
  | .ok _ => q.input.ticket?
  | .error _ => none

/-- The request is for a stream that has been handed out. -/
def Exhausted (q : Request) : Prop :=
  ∃ ticket, q.input.ticket? = some ticket ∧ q.record.isSpent ticket = true

theorem Exhausted.answer_eq {q : Request} (hexhausted : q.Exhausted) :
    q.answer = (.error (.exhausted q.name), q.record) := by
  obtain ⟨ticket, hticket, hspent⟩ := hexhausted
  obtain ⟨name, input, record⟩ := q
  cases input with
  | table t => simp [Input.ticket?] at hticket
  | sorted t => simp [Input.ticket?] at hticket
  | stream ticket' s =>
      obtain rfl := Option.some.inj hticket
      simp only [answer, Input.take, hspent, if_true]

/-- A stream that a request gets has not been handed out before, and is from then on. -/
theorem granted?_eq_some {q : Request} {ticket : Nat} (hgranted : q.granted? = some ticket) :
    q.record.isSpent ticket = false ∧ q.answer.2.isSpent ticket = true := by
  obtain ⟨name, input, record⟩ := q
  unfold granted? at hgranted
  cases input with
  | table t => simp [answer, Input.take, Input.ticket?] at hgranted
  | sorted t => simp [answer, Input.take, Input.ticket?] at hgranted
  | stream ticket' s =>
      cases hspent : record.isSpent ticket' with
      | true => simp [answer, Input.take, hspent] at hgranted
      | false =>
          simp only [answer, Input.take, hspent, Bool.false_eq_true, if_false, Input.ticket?,
            Option.some.injEq] at hgranted
          subst hgranted
          refine ⟨hspent, ?_⟩
          show ((Input.stream ticket' s).take name record).2.isSpent ticket' = true
          rw [Input.take, if_neg (Bool.eq_false_iff.mp hspent)]
          exact record.isSpent_spend ticket'

end Request

/-- The requests follow each other: each is made with the record that the one before has left. -/
def Linked : Handouts → List Request → Handouts → Prop
  | h, [], h' => h' = h
  | h, q :: requests, h' => q.record = h ∧ Linked q.answer.2 requests h'

namespace Linked

variable {h h' h'' : Handouts} {requests requests' : List Request}

theorem append : ∀ {requests : List Request} {h : Handouts}, Linked h requests h' →
    Linked h' requests' h'' → Linked h (requests ++ requests') h''
  | [], h, hlinked, hlinked' => by
      obtain rfl : h' = h := hlinked
      exact hlinked'
  | q :: requests, h, hlinked, hlinked' => ⟨hlinked.1, hlinked.2.append hlinked'⟩

/-- Requests only add to the record. -/
theorem before : ∀ {requests : List Request} {h : Handouts}, Linked h requests h' → h.Before h'
  | [], h, hlinked => by
      obtain rfl : h' = h := hlinked
      exact Handouts.Before.refl h'
  | q :: requests, h, hlinked => by
      obtain ⟨rfl, hrest⟩ := hlinked
      exact (Input.before_take q.input q.name q.record).trans hrest.before

/-- The streams that linked requests get are all different, and none has been handed out before. -/
theorem nodup_granted : ∀ {requests : List Request} {h : Handouts}, Linked h requests h' →
    (requests.filterMap Request.granted?).Nodup ∧
      ∀ ticket ∈ requests.filterMap Request.granted?, h.isSpent ticket = false
  | [], h, _ => by simp
  | q :: requests, h, hlinked => by
      obtain ⟨rfl, hrest⟩ := hlinked
      obtain ⟨hnodup, hunspent⟩ := hrest.nodup_granted
      have hbefore : q.record.Before q.answer.2 := Input.before_take q.input q.name q.record
      have hunspent' : ∀ ticket ∈ requests.filterMap Request.granted?,
          q.record.isSpent ticket = false := by
        intro ticket hmem
        rw [Bool.eq_false_iff]
        intro hspent
        have hspent := hbefore ticket hspent
        rw [hunspent ticket hmem] at hspent
        simp at hspent
      rw [List.filterMap_cons]
      cases hgranted : q.granted? with
      | none => exact ⟨hnodup, hunspent'⟩
      | some ticket =>
          obtain ⟨hfresh, hspent⟩ := Request.granted?_eq_some hgranted
          refine ⟨List.nodup_cons.mpr ⟨fun hmem => ?_, hnodup⟩,
            List.forall_mem_cons.mpr ⟨hfresh, hunspent'⟩⟩
          rw [hunspent ticket hmem] at hspent
          simp at hspent

end Linked

namespace Operator

/-- What a run asks for. The right-hand side of a join is reached if the left-hand one succeeds. -/
def requests (h : Handouts) : Operator → List Request
  | source name _ input => [⟨name, input, h⟩]
  | filter input _ => input.requests h
  | map input _ => input.requests h
  | group input _ => input.requests h
  | join left right _ _ _ =>
    left.requests h ++
      match left.run h with
      | (.error _, _) => []
      | (.ok _, h) => right.requests h

variable {a b op : Operator} {h h' : Handouts}

theorem requests_join_of_error (j : Join) (strategy : JoinStrategy) (verify : Bool) {e : Error}
    (hleft : (a.run h).1 = .error e) :
    (join a b j strategy verify).requests h = a.requests h := by
  rw [requests]
  rcases hrun : a.run h with ⟨l | l, h'⟩
  · exact List.append_nil _
  · rw [hrun] at hleft
    simp at hleft

theorem requests_join_of_ok (j : Join) (strategy : JoinStrategy) (verify : Bool) {l : Relation}
    (hleft : (a.run h).1 = .ok l) :
    (join a b j strategy verify).requests h = a.requests h ++ b.requests (a.run h).2 := by
  rw [requests]
  rcases hrun : a.run h with ⟨l' | l', h'⟩
  · rw [hrun] at hleft
    simp at hleft
  · rfl

/-- The requests of a run leave the record that the run leaves. -/
theorem linked_requests : ∀ (op : Operator) (h : Handouts),
    Linked h (op.requests h) (op.run h).2
  | source name s input, h => ⟨rfl, rfl⟩
  | filter input p, h => by
      rw [run_filter_snd]
      exact linked_requests input h
  | map input m, h => by
      rw [run_map_snd]
      exact linked_requests input h
  | group input g, h => by
      rw [run_group_snd]
      exact linked_requests input h
  | join left right j strategy verify, h => by
      cases hleft : (left.run h).1 with
      | error e =>
          rw [run_join_snd_of_error j strategy verify hleft, requests_join_of_error j _ _ hleft]
          exact linked_requests left h
      | ok l =>
          rw [run_join_snd_of_ok j strategy verify hleft, requests_join_of_ok j _ _ hleft]
          exact (linked_requests left h).append (linked_requests right _)

/-- A run that asks for a stream that is gone fails, and names the leaf. -/
theorem run_of_exhausted : ∀ {op : Operator} {h : Handouts} {q : Request}, q ∈ op.requests h →
    q.Exhausted → (op.run h).1 = .error (.exhausted q.name)
  | source name s input, h, q, hmem, hexhausted => by
      obtain rfl := List.mem_singleton.mp hmem
      exact congrArg Prod.fst hexhausted.answer_eq
  | filter input p, h, q, hmem, hexhausted => by
      have hmem : q ∈ input.requests h := hmem
      rw [run_filter_fst, run_of_exhausted hmem hexhausted]
      rfl
  | map input m, h, q, hmem, hexhausted => by
      have hmem : q ∈ input.requests h := hmem
      rw [run_map_fst, run_of_exhausted hmem hexhausted]
      rfl
  | group input g, h, q, hmem, hexhausted => by
      have hmem : q ∈ input.requests h := hmem
      rw [run_group_fst, run_of_exhausted hmem hexhausted]
      rfl
  | join left right j strategy verify, h, q, hmem, hexhausted => by
      rw [run_join_fst]
      cases hleft : (left.run h).1 with
      | error e =>
          rw [requests_join_of_error j _ _ hleft] at hmem
          rw [← hleft, run_of_exhausted hmem hexhausted]
          rfl
      | ok l =>
          rw [requests_join_of_ok j _ _ hleft] at hmem
          rcases List.mem_append.mp hmem with hmem | hmem
          · rw [run_of_exhausted hmem hexhausted] at hleft
            simp at hleft
          · simp only [bind, Except.bind, run_of_exhausted hmem hexhausted]

/-! ### Running again -/

/-- The name of the first leaf that a stream is bound to. -/
def firstStream? : Operator → Option String
  | source name _ input => input.ticket?.map fun _ => name
  | filter input _ => input.firstStream?
  | map input _ => input.firstStream?
  | group input _ => input.firstStream?
  | join left right _ _ _ => left.firstStream?.or right.firstStream?

/-- What a pipeline gives when it is run again: the same relation if it is over no stream, and
otherwise the error that names the first leaf with a stream. -/
def again (r : Relation) : Option String → Except Error Relation
  | none => .ok r
  | some name => .error (.exhausted name)

/-- A pipeline that has run with success has handed out its streams. So a run on any later record
fails at the first of them; without one it gives the same relation. -/
theorem run_again : ∀ {op : Operator} {h h' : Handouts} {r : Relation}, (op.run h).1 = .ok r →
    (op.run h).2.Before h' → (op.run h').1 = again r op.firstStream?
  | source name s input, h, h', r, hrun, hbefore => by
      cases input with
      | table t => exact hrun
      | sorted t => exact hrun
      | stream ticket s' =>
          obtain ⟨-, hunspent⟩ := Input.take_eq_ok hrun
          have hrecord : ((source name s (.stream ticket s')).run h).2 = h.spend ticket := by
            rw [run, Input.take, if_neg (Bool.eq_false_iff.mp (hunspent ticket rfl))]
          have hspent : h'.isSpent ticket = true :=
            hbefore ticket (hrecord ▸ h.isSpent_spend ticket)
          rw [run, Input.take, if_pos hspent]
          rfl
  | filter input p, h, h', r, hrun, hbefore => by
      rw [run_filter_fst, map_eq_ok_iff] at hrun
      obtain ⟨r₀, hrun, rfl⟩ := hrun
      rw [run_filter_snd] at hbefore
      rw [run_filter_fst, run_again hrun hbefore, firstStream?]
      cases input.firstStream? <;> rfl
  | map input m, h, h', r, hrun, hbefore => by
      rw [run_map_fst, map_eq_ok_iff] at hrun
      obtain ⟨r₀, hrun, rfl⟩ := hrun
      rw [run_map_snd] at hbefore
      rw [run_map_fst, run_again hrun hbefore, firstStream?]
      cases input.firstStream? <;> rfl
  | group input g, h, h', r, hrun, hbefore => by
      rw [run_group_fst] at hrun
      obtain ⟨r₀, hrun, hgroups⟩ := bind_eq_ok_iff.mp hrun
      rw [run_group_snd] at hbefore
      rw [run_group_fst, run_again hrun hbefore, firstStream?]
      cases input.firstStream? with
      | none => exact hgroups
      | some name => rfl
  | join left right j strategy verify, h, h', r, hrun, hbefore => by
      rw [run_join_fst] at hrun
      obtain ⟨l, hl, hrun⟩ := bind_eq_ok_iff.mp hrun
      obtain ⟨r₀, hr, hmatch⟩ := bind_eq_ok_iff.mp hrun
      rw [run_join_snd_of_ok j strategy verify hl] at hbefore
      have hleft := run_again hl ((before_run right _).trans hbefore)
      -- The right-hand side finds a record on which its streams are gone, too.
      have hright := run_again hr (hbefore.trans (before_run left h'))
      rw [run_join_fst, hleft, firstStream?]
      cases left.firstStream? with
      | some name => rfl
      | none =>
          simp only [again, bind, Except.bind, hright, Option.none_or]
          cases right.firstStream? with
          | some name => rfl
          | none => exact hmatch

variable {settings : Settings} {bindings : Bindings}

/-- The first leaf of a pipeline with a stream is that of its expression. -/
theorem compile_firstStream? : ∀ {e : RelExpr} {op : Operator},
    compile settings bindings h e = .ok op → op.firstStream? = e.firstStream? bindings
  | .scan leaf, op, hcompile => by
      obtain ⟨input, hget, rfl, -⟩ := compileLeaf_eq_ok hcompile
      rw [firstStream?, RelExpr.firstStream?, RelExpr.leaves_scan]
      cases hticket : input.ticket? <;> simp [hget, hticket]
  | .select input p, op, hcompile => by
      obtain ⟨a, ha, rfl⟩ := compile_select_eq_ok hcompile
      rw [firstStream?, compile_firstStream? ha, RelExpr.firstStream?, RelExpr.firstStream?,
        RelExpr.leaves_select]
  | .map input m, op, hcompile => by
      obtain ⟨a, ha, rfl⟩ := compile_map_eq_ok hcompile
      rw [firstStream?, compile_firstStream? ha, RelExpr.firstStream?, RelExpr.firstStream?,
        RelExpr.leaves_map]
  | .group input g, op, hcompile => by
      obtain ⟨a, ha, rfl⟩ := compile_group_eq_ok hcompile
      rw [firstStream?, compile_firstStream? ha, RelExpr.firstStream?, RelExpr.firstStream?,
        RelExpr.leaves_group]
  | .join left right j, op, hcompile => by
      obtain ⟨a, b, ha, hb, rfl⟩ := compile_join_eq_ok hcompile
      rw [firstStream?, compile_firstStream? ha, compile_firstStream? hb, RelExpr.firstStream?,
        RelExpr.firstStream?, RelExpr.firstStream?, RelExpr.leaves_join, List.find?_append,
        Option.map_or]

end Operator

end RelQuery
