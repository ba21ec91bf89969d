import Mathlib.Data.List.Lex
import RelQuery.Proofs.Pipeline.Built

/-!
# RelQuery.Proofs.Pipeline.Leaves

**The search for leaves ends, and finds each leaf once, from left to right.**

`RelExpr.leaves` works off a stack of pending expressions. Here the search is taken apart into
rounds (`LeafSearch`): a round takes the expression off the end of the stack, and either notes a
leaf or puts the inputs on the stack, the last one first. Equal leaves may stand at different
places, so the search carries the place of everything that it holds.

What a round can do is said once (`step_cases`), and one invariant is read off it (`Continues`): a
round visits one node, and the leaves found so far with those that the stack still has to give stay
the same, by recursion over the tree as well as by `leavesOfStack`. Rounds in a row keep it
(`continues_rounds`), so a search ends after as many rounds as there are nodes, with what the
recursion gives (`rounds_nodes`). The recursion gives every place at which a leaf stands
(`mem_leavesAt_iff`), in the order of paths (`pairwise_leavesAt`).
-/

namespace RelQuery

namespace RelExpr

variable {e : RelExpr}

/-! ### The traversal by recursion -/

/-- The leaves of an expression that stands at a place, with their places, by recursion over the
tree: those of a join are the ones on its left, then the ones on its right. -/
def leavesAt (place : List Nat) : RelExpr → List (List Nat × Schema)
  | scan s => [(place, s)]
  | select input _ | map input _ | group input _ => input.leavesAt (place ++ [0])
  | join left right _ => left.leavesAt (place ++ [0]) ++ right.leavesAt (place ++ [1])

/-- The inputs of an expression that stands at a place, with their places. -/
def inputsAt (place : List Nat) (e : RelExpr) : List (List Nat × RelExpr) :=
  e.inputs.zipIdx.map fun (input, i) => (place ++ [i], input)

/-- What holds of the leaves, and of an inner node if it holds of its inputs, holds of every
expression. -/
theorem inputs_induction {P : RelExpr → Prop} (leaf : ∀ s, P (scan s))
    (inner : ∀ e, (∀ s, e ≠ scan s) → (∀ input ∈ e.inputs, P input) → P e) (e : RelExpr) :
    P e := by
  induction e with
  | scan s => exact leaf s
  | select input p ih => exact inner _ (by simp) (by simpa [inputs] using ih)
  | map input op ih => exact inner _ (by simp) (by simpa [inputs] using ih)
  | group input op ih => exact inner _ (by simp) (by simpa [inputs] using ih)
  | join left right op ihl ihr => exact inner _ (by simp) (by simpa [inputs] using ⟨ihl, ihr⟩)

/-- The leaves of an inner node are those of its inputs, in order. -/
theorem leavesAt_eq (hinner : ∀ s, e ≠ scan s) (place : List Nat) : e.leavesAt place =
    (e.inputsAt place).flatMap fun part => part.2.leavesAt part.1 := by
  cases e with
  | scan s => exact absurd rfl (hinner s)
  | _ => simp [leavesAt, inputsAt, inputs]

theorem map_snd_inputsAt (place : List Nat) (e : RelExpr) :
    (e.inputsAt place).map Prod.snd = e.inputs := by
  cases e <;> rfl

theorem leavesOfStack_of_inner (hinner : ∀ s, e ≠ scan s) (rest : List RelExpr) :
    leavesOfStack (e :: rest) = leavesOfStack (e.inputs ++ rest) := by
  rw [leavesOfStack]
  exact hinner

/-! ### Places -/

theorem mem_inputsAt_iff {place q : List Nat} {input : RelExpr} :
    (q, input) ∈ e.inputsAt place ↔ ∃ i, q = place ++ [i] ∧ e.inputs[i]? = some input := by
  simp only [inputsAt, List.mem_map, Prod.exists, Prod.mk.injEq, List.mem_zipIdx_iff_getElem?]
  constructor
  · rintro ⟨input', i, hget, rfl, rfl⟩
    exact ⟨i, rfl, hget⟩
  · rintro ⟨i, rfl, hget⟩
    exact ⟨input, i, hget, rfl, rfl⟩

/-- What stands below an inner node stands below one of its inputs. -/
theorem at?_eq_scan_iff (hinner : ∀ s, e ≠ scan s) {below : List Nat} {leaf : Schema} :
    e.at? below = some (scan leaf) ↔ ∃ i input rest, below = i :: rest ∧
      e.inputs[i]? = some input ∧ input.at? rest = some (scan leaf) := by
  cases below with
  | nil => simp [at?, hinner]
  | cons i rest =>
      rw [at?, Option.bind_eq_some_iff]
      constructor
      · rintro ⟨input, hget, hat⟩
        exact ⟨i, input, rest, rfl, hget, hat⟩
      · rintro ⟨i', input, rest', heq, hget, hat⟩
        obtain ⟨rfl, rfl⟩ := List.cons.inj heq
        exact ⟨input, hget, hat⟩

/-- The recursion gives the leaves of the tree at their places, and nothing else. -/
theorem mem_leavesAt_iff (e : RelExpr) : ∀ {place q : List Nat} {leaf : Schema},
    (q, leaf) ∈ e.leavesAt place ↔
      ∃ below, q = place ++ below ∧ e.at? below = some (scan leaf) := by
  induction e using inputs_induction with
  | leaf s =>
      intro place q leaf
      rw [leavesAt, List.mem_singleton, Prod.mk.injEq]
      constructor
      · rintro ⟨rfl, rfl⟩
        exact ⟨[], (List.append_nil q).symm, rfl⟩
      · rintro ⟨below, rfl, hat⟩
        cases below with
        | nil => exact ⟨List.append_nil place, by simpa [at?, eq_comm] using hat⟩
        | cons i rest => simp [at?, inputs] at hat
  | inner e hinner ih =>
      intro place q leaf
      simp only [leavesAt_eq hinner, List.mem_flatMap, Prod.exists, mem_inputsAt_iff]
      constructor
      · rintro ⟨p, input, ⟨i, rfl, hget⟩, hmem⟩
        obtain ⟨rest, rfl, hat⟩ := (ih input (List.mem_of_getElem? hget)).mp hmem
        exact ⟨i :: rest, by simp, (at?_eq_scan_iff hinner).mpr ⟨i, input, rest, rfl, hget, hat⟩⟩
      · rintro ⟨below, rfl, hat⟩
        obtain ⟨i, input, rest, rfl, hget, hat⟩ := (at?_eq_scan_iff hinner).mp hat
        exact ⟨place ++ [i], input, ⟨i, rfl, hget⟩,
          (ih input (List.mem_of_getElem? hget)).mpr ⟨rest, by simp, hat⟩⟩

/-- The places come in the order of paths: those below one input before those below the next. -/
theorem pairwise_leavesAt (e : RelExpr) : ∀ place,
    ((e.leavesAt place).map Prod.fst).Pairwise (List.Lex (· < ·)) := by
  induction e using inputs_induction with
  | leaf s =>
      intro place
      exact List.pairwise_singleton _ place
  | inner e hinner ih =>
      intro place
      rw [List.pairwise_map, leavesAt_eq hinner, List.pairwise_flatMap]
      constructor
      · rintro ⟨p, input⟩ hmem
        obtain ⟨i, -, hget⟩ := mem_inputsAt_iff.mp hmem
        exact List.pairwise_map.mp (ih input (List.mem_of_getElem? hget) p)
      · rw [inputsAt, List.pairwise_map]
        refine (pairwise_zipIdx e.inputs).imp ?_
        -- Places below two inputs differ first in the indices of these.
        rintro ⟨left, i⟩ ⟨right, j⟩ hlt ⟨q, _⟩ hq ⟨q', _⟩ hq'
        obtain ⟨below, rfl, -⟩ := (mem_leavesAt_iff left).mp hq
        obtain ⟨below', rfl, -⟩ := (mem_leavesAt_iff right).mp hq'
        simp only [List.append_assoc]
        exact List.Lex.append_left _ (.rel hlt) place

end RelExpr

/-! ### Rounds -/

/-- A search for leaves: those found so far, and the stack of expressions still to be visited, the
next one at its end. Each stands at a place of the expression that is searched. -/
structure LeafSearch where
  found : List (List Nat × Schema)
  pending : List (List Nat × RelExpr)

namespace LeafSearch

open RelExpr

variable {s s' s'' : LeafSearch} {n n' : Nat}

/-- The search before its first round: the whole expression is pending. -/
def start (e : RelExpr) : LeafSearch :=
  ⟨[], [([], e)]⟩

/-- One round: the last expression is taken off the stack. A leaf is found; the inputs of any other
expression go on the stack in reverse, so that the first one is visited next. Nothing happens any
more when the stack is empty. -/
def step (s : LeafSearch) : Option LeafSearch :=
  match s.pending.getLast? with
  | none => none
  | some (place, scan leaf) => some ⟨s.found ++ [(place, leaf)], s.pending.dropLast⟩
  | some (place, e) => some ⟨s.found, s.pending.dropLast ++ (e.inputsAt place).reverse⟩

/-- The search after a number of rounds, unless it ends before. -/
def rounds : Nat → LeafSearch → Option LeafSearch
  | 0, s => some s
  | n + 1, s => s.step.bind (rounds n)

/-- The expressions on the stack from its top, as `leavesOfStack` takes them. -/
def stack (s : LeafSearch) : List RelExpr :=
  s.pending.reverse.map Prod.snd

/-- The number of nodes still to be visited. -/
def nodes (s : LeafSearch) : Nat :=
  stackNodes s.stack

/-- The leaves found so far, and those that the stack still has to give by recursion, from its
top. -/
def due (s : LeafSearch) : List (List Nat × Schema) :=
  s.found ++ s.pending.reverse.flatMap fun part => part.2.leavesAt part.1

/-- The leaves found so far, and those that `leavesOfStack` gives for the stack, without places. -/
def leaves (s : LeafSearch) : List Schema :=
  s.found.map Prod.snd ++ leavesOfStack s.stack

theorem step_eq_none_iff : s.step = none ↔ s.pending = [] := by
  rw [step, ← List.getLast?_eq_none_iff]
  cases s.pending.getLast? with
  | none => simp
  | some part =>
      obtain ⟨place, e⟩ := part
      cases e <;> simp

/-- What a round can do: an expression comes off the stack, and either is a leaf, which is found, or
leaves its inputs there. -/
theorem step_cases (h : s.step = some s') : ∃ rest place e, s.pending = rest ++ [(place, e)] ∧
    ((∃ leaf, e = scan leaf ∧ s' = ⟨s.found ++ [(place, leaf)], rest⟩) ∨
      (∀ leaf, e ≠ scan leaf) ∧ s' = ⟨s.found, rest ++ (e.inputsAt place).reverse⟩) := by
  obtain ⟨found, pending⟩ := s
  rcases pending.eq_nil_or_concat' with rfl | ⟨rest, ⟨place, e⟩, rfl⟩
  · exact absurd h (by simp [step])
  · refine ⟨rest, place, e, rfl, ?_⟩
    cases e with
    | scan leaf => exact .inl ⟨leaf, rfl, by simpa [step] using h.symm⟩
    | _ => exact .inr ⟨by simp, by simpa [step] using h.symm⟩

/-- A search that goes on from another one for a number of rounds: as many nodes have been visited,
and the leaves found and still to be found are the same, both ways of computing them. -/
structure Continues (s : LeafSearch) (n : Nat) (s' : LeafSearch) : Prop where
  nodes : s'.nodes + n = s.nodes
  due : s'.due = s.due
  leaves : s'.leaves = s.leaves

theorem Continues.refl (s : LeafSearch) : Continues s 0 s := ⟨rfl, rfl, rfl⟩

theorem Continues.trans (h : Continues s n s') (h' : Continues s' n' s'') :
    Continues s (n' + n) s'' where
  nodes := by rw [← Nat.add_assoc, h'.nodes, h.nodes]
  due := h'.due.trans h.due
  leaves := h'.leaves.trans h.leaves

/-- A round is one step of the recursion of `leavesOfStack`. Pushed in reverse, the inputs of an
expression stand on the stack in order from its top. -/
theorem continues_step (h : s.step = some s') : Continues s 1 s' := by
  obtain ⟨rest, place, e, hpending, ⟨leaf, rfl, rfl⟩ | ⟨hinner, rfl⟩⟩ := step_cases h
  · have hstack : s.stack = scan leaf :: rest.reverse.map Prod.snd := by simp [stack, hpending]
    refine ⟨?_, ?_, ?_⟩
    · rw [nodes, nodes, hstack, stackNodes, RelExpr.nodes, Nat.add_comm, stack]
    · simp [due, hpending, leavesAt]
    · rw [leaves, leaves, hstack, leavesOfStack, stack]
      simp
  · have hstack : s.stack = e :: rest.reverse.map Prod.snd := by simp [stack, hpending]
    have hinputs : stack ⟨s.found, rest ++ (e.inputsAt place).reverse⟩ =
        e.inputs ++ rest.reverse.map Prod.snd := by
      simp [stack, map_snd_inputsAt]
    refine ⟨?_, ?_, ?_⟩
    · rw [nodes, nodes, hinputs, hstack, stackNodes_inputs_append, stackNodes]
    · simp [due, hpending, leavesAt_eq hinner]
    · rw [leaves, leaves, hinputs, hstack, leavesOfStack_of_inner hinner]

/-! ### Runs -/

theorem continues_rounds (h : s.rounds n = some s') : Continues s n s' := by
  induction n generalizing s with
  | zero =>
      obtain rfl : s = s' := Option.some.inj h
      exact .refl s
  | succ n ih =>
      obtain ⟨t, hstep, hrest⟩ := Option.bind_eq_some_iff.mp h
      exact (continues_step hstep).trans (ih hrest)

/-- A search goes on as long as nodes are left. -/
theorem exists_rounds (hle : n ≤ s.nodes) : ∃ s', s.rounds n = some s' := by
  induction n generalizing s with
  | zero => exact ⟨s, rfl⟩
  | succ n ih =>
      cases hstep : s.step with
      | none =>
          rw [nodes, stack, step_eq_none_iff.mp hstep] at hle
          exact absurd hle (Nat.not_succ_le_zero n)
      | some t =>
          have hvisited := (continues_step hstep).nodes
          obtain ⟨s', hrest⟩ := ih (s := t) (by omega)
          exact ⟨s', Option.bind_eq_some_iff.mpr ⟨t, hstep, hrest⟩⟩

/-- It has ended when none is left, since every expression has a node. -/
theorem pending_eq_nil (h : s.nodes = 0) : s.pending = [] := by
  rw [← step_eq_none_iff]
  cases hstep : s.step with
  | none => rfl
  | some t =>
      have hvisited := (continues_step hstep).nodes
      omega

/-- A search ends after as many rounds as there are nodes on its stack, with what is due. -/
theorem rounds_nodes (s : LeafSearch) : s.rounds s.nodes = some ⟨s.due, []⟩ := by
  obtain ⟨s', hrounds⟩ := exists_rounds (Nat.le_refl s.nodes)
  obtain ⟨hnodes, hdue, -⟩ := continues_rounds hrounds
  have hpending : s'.pending = [] := pending_eq_nil (by omega)
  have hfound : s'.found = s.due := by
    rw [← hdue, due, hpending]
    simp
  rw [hrounds, ← hfound, ← hpending]

/-- The search from an expression visits all of its nodes, and ends with what recursion gives. -/
theorem rounds_start (e : RelExpr) :
    (start e).rounds e.nodes = some ⟨e.leavesAt [], []⟩ := by
  simpa [start, nodes, stack, stackNodes, due] using (start e).rounds_nodes

/-- At every moment of the search, the leaves found and those of the stack are all leaves. -/
theorem leaves_rounds {e : RelExpr} (h : (start e).rounds n = some s) : s.leaves = e.leaves :=
  (continues_rounds h).leaves

end LeafSearch

namespace RelExpr

/-- The leaves are those that the search has found in the end, when its stack is empty. -/
theorem leaves_eq (e : RelExpr) : e.leaves = (e.leavesAt []).map Prod.snd := by
  rw [← LeafSearch.leaves_rounds (LeafSearch.rounds_start e)]
  simp [LeafSearch.leaves, LeafSearch.stack, leavesOfStack]

/-- **The search for leaves ends, and finds each leaf once, from left to right.** Whatever the shape
of an expression, the search that starts from it empties its stack after exactly one round for each
node. It has then found the leaves that recursion over the tree gives, at their places and in that
order. `leaves` are these; they are at every moment what has been found so far and what the stack
gives. The places are in the order of paths, so none occurs twice, and they are all the places of
the expression at which a leaf stands. -/
theorem leaves_found_in_order (e : RelExpr) :
    (LeafSearch.start e).rounds e.nodes = some ⟨e.leavesAt [], []⟩ ∧
    e.leaves = (e.leavesAt []).map Prod.snd ∧
    (∀ n s, (LeafSearch.start e).rounds n = some s → s.leaves = e.leaves) ∧
    ((e.leavesAt []).map Prod.fst).Pairwise (List.Lex (· < ·)) ∧
    ∀ place leaf, (place, leaf) ∈ e.leavesAt [] ↔ e.at? place = some (scan leaf) := by
  refine ⟨LeafSearch.rounds_start e, e.leaves_eq, ?_, e.pairwise_leavesAt [], ?_⟩
  · intro n s hrounds
    exact LeafSearch.leaves_rounds hrounds
  · intro place leaf
    rw [mem_leavesAt_iff]
    simp

/-- After two rounds through a join, its right-hand side waits below the inputs of its left-hand
side. -/
example (a b : Schema) (p : Predicate) (op : Join) :
    (LeafSearch.start (join (select (scan a) p) (scan b) op)).rounds 2 =
      some ⟨[], [([1], scan b), ([0, 0], scan a)]⟩ := rfl

end RelExpr

end RelQuery
