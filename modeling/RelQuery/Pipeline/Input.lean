import RelQuery.Dictionary
import RelQuery.Relation

/-!
# RelQuery.Pipeline.Input

The relations that inputs are bound to, and the record of streams already handed out.

A table can be handed out any number of times, a stream only once. Each bound stream carries a
ticket that no other bound stream has; `Handouts` records the tickets that have been used. Copies of
a binding share the ticket, so a stream that one of them has handed out is gone for all of them. The
record is the only state of the whole engine: everything that runs takes it and gives it back.
-/

namespace RelQuery

/-- The streams handed out so far, and the tickets given to streams. -/
structure Handouts where
  /-- The number of tickets given; tickets are numbered from zero. -/
  issued : Nat
  /-- The tickets of the streams that have been handed out. -/
  spent : List Nat
deriving DecidableEq, Repr, Inhabited

namespace Handouts

/-- Nothing has been handed out, and no stream has a ticket. -/
def none : Handouts := ⟨0, []⟩

/-- A ticket that no stream has. -/
def issue (h : Handouts) : Nat × Handouts :=
  (h.issued, { h with issued := h.issued + 1 })

/-- Whether the stream with this ticket has been handed out. -/
def isSpent (h : Handouts) (ticket : Nat) : Bool :=
  h.spent.contains ticket

/-- Records that the stream with this ticket is handed out. -/
def spend (h : Handouts) (ticket : Nat) : Handouts :=
  { h with spent := ticket :: h.spent }

end Handouts

/-- A relation bound to an input. -/
inductive Input where
  | table (t : Table)
  | sorted (t : SortedTable)
  | stream (ticket : Nat) (s : Stream)

namespace Input

/-- What the rows look like, unless the stream is gone. -/
def schema? (h : Handouts) : Input → Option Schema
  | table t => some t.schema
  | sorted t => some t.base.schema
  | stream ticket s => if h.isSpent ticket then none else some s.schema

/-- Hands out the relation under the name of the input that asks for it. -/
def take (name : String) (h : Handouts) : Input → Except Error Relation × Handouts
  | table t => (.ok (.table t), h)
  | sorted t => (.ok (.sorted t), h)
  | stream ticket s =>
    if h.isSpent ticket then (.error (.exhausted name), h)
    else (.ok (.stream s), h.spend ticket)

/-- The text of what is bound: a table by its size, a stream by whether it is still there. -/
def describe (h : Handouts) : Input → String
  | table t => s!"Materialized({t.size} rows)"
  | sorted t => s!"Sorted({t.base.size} rows)"
  | stream ticket _ => if h.isSpent ticket then "Stream(consumed)" else "Stream(fresh)"

/-- A relation as an input; a stream gets a ticket. -/
def ofRelation (h : Handouts) : Relation → Input × Handouts
  | .table t => (table t, h)
  | .sorted t => (sorted t, h)
  | .stream s => let (ticket, h) := h.issue; (stream ticket s, h)

end Input

/-- The relations bound to input names. -/
abbrev Bindings := Dictionary Input

end RelQuery
