import Mathlib.Data.List.Forall2

/-!
# RelQuery.Proofs.Except

Inversion of **computations that may fail**.

Planning, compiling and running are written as sequences of steps in `Except`. These lemmas take a
run that succeeded apart into the results of its steps, and a traversal into the results of its
elements. `failure?` is the error of a run that failed, which for a traversal is the first among its
elements. `SameOutcome` compares two such computations step by step.
-/

namespace RelQuery

variable {ε α β γ δ : Type}

/-- A sequence succeeds if both of its steps do. -/
theorem bind_eq_ok_iff {x : Except ε α} {f : α → Except ε β} {b : β} :
    (x >>= f) = .ok b ↔ ∃ a, x = .ok a ∧ f a = .ok b := by
  cases x <;> simp [bind, Except.bind]

/-- A sequence fails in its first step, or in the second after the first has succeeded. -/
theorem bind_eq_error_iff {x : Except ε α} {f : α → Except ε β} {e : ε} :
    (x >>= f) = .error e ↔ x = .error e ∨ ∃ a, x = .ok a ∧ f a = .error e := by
  cases x <;> simp [bind, Except.bind]

theorem map_eq_ok_iff {x : Except ε α} {f : α → β} {b : β} :
    x.map f = .ok b ↔ ∃ a, x = .ok a ∧ f a = b := by
  cases x <;> simp [Except.map]

theorem map_eq_error_iff {x : Except ε α} {f : α → β} {e : ε} :
    x.map f = .error e ↔ x = .error e := by
  cases x <;> simp [Except.map]

theorem pure_eq_ok_iff {a b : α} : (pure a : Except ε α) = .ok b ↔ a = b := by
  simp [pure, Except.pure]

/-- A traversal succeeds if it does at every element. -/
theorem mapM_eq_ok_iff {f : α → Except ε β} : ∀ {xs : List α} {ys : List β},
    xs.mapM f = .ok ys ↔ List.Forall₂ (fun x y => f x = .ok y) xs ys
  | [], ys => by
      rw [List.mapM_nil, pure_eq_ok_iff, List.forall₂_nil_left_iff, eq_comm]
  | x :: xs, ys => by
      rw [List.mapM_cons, bind_eq_ok_iff]
      simp only [bind_eq_ok_iff, pure_eq_ok_iff, mapM_eq_ok_iff]
      constructor
      · rintro ⟨y, hy, ys, hys, rfl⟩
        exact List.Forall₂.cons hy hys
      · intro h
        cases h with
        | cons hy hys => exact ⟨_, hy, _, hys, rfl⟩

/-- Traversals that do the same at every element are the same. -/
theorem mapM_congr {f g : α → Except ε β} : ∀ {xs : List α},
    (∀ x ∈ xs, f x = g x) → xs.mapM f = xs.mapM g
  | [], _ => rfl
  | x :: xs, h => by
      rw [List.mapM_cons, List.mapM_cons, h x List.mem_cons_self,
        mapM_congr fun x hx => h x (List.mem_cons_of_mem _ hx)]

/-- What a traversal yields comes from its elements. -/
theorem exists_of_mem_mapM {f : α → Except ε β} {xs : List α} {ys : List β}
    (h : xs.mapM f = .ok ys) {y : β} (hy : y ∈ ys) : ∃ x ∈ xs, f x = .ok y := by
  rw [mapM_eq_ok_iff] at h
  induction h with
  | nil => simp at hy
  | cons hx _ ih =>
      rcases List.mem_cons.mp hy with rfl | hy
      · exact ⟨_, List.mem_cons_self, hx⟩
      · obtain ⟨x, hmem, hx⟩ := ih hy
        exact ⟨x, List.mem_cons_of_mem _ hmem, hx⟩

/-- A traversal cannot fail if it does not at any element. -/
theorem exists_mapM_eq_ok {f : α → Except ε β} : ∀ {xs : List α},
    (∀ x ∈ xs, ∃ y, f x = .ok y) → ∃ ys, xs.mapM f = .ok ys
  | [], _ => ⟨[], rfl⟩
  | x :: xs, h => by
      obtain ⟨y, hy⟩ := h x List.mem_cons_self
      obtain ⟨ys, hys⟩ := exists_mapM_eq_ok fun x hx => h x (List.mem_cons_of_mem _ hx)
      rw [mapM_eq_ok_iff] at hys
      exact ⟨y :: ys, mapM_eq_ok_iff.mpr (List.Forall₂.cons hy hys)⟩

/-- If a traversal does not fail, it does not at any element. -/
theorem exists_ok_of_mapM {f : α → Except ε β} {xs : List α} {ys : List β}
    (h : xs.mapM f = .ok ys) : ∀ x ∈ xs, ∃ y, f x = .ok y := by
  rw [mapM_eq_ok_iff] at h
  induction h with
  | nil => simp
  | cons hx _ ih => exact List.forall_mem_cons.mpr ⟨⟨_, hx⟩, ih⟩

/-- A pass of checks succeeds if each of them does. -/
theorem ok_of_forM {f : α → Except ε Unit} : ∀ {xs : List α} {u : Unit},
    xs.forM f = .ok u → ∀ x ∈ xs, f x = .ok u
  | [], _, _ => by simp
  | x :: xs, u, h => by
      rw [List.forM] at h
      obtain ⟨_, hx, h⟩ := bind_eq_ok_iff.mp h
      exact List.forall_mem_cons.mpr ⟨hx, ok_of_forM h⟩

/-- Two traversals of one list, where the second only looks at the results of the first. -/
theorem exists_mapM_eq_ok_map {f : α → Except ε β} {g : α → Except ε γ} {h : β → γ}
    {P : β → Prop} : ∀ {xs : List α},
    (∀ x ∈ xs, ∃ y, f x = .ok y ∧ g x = .ok (h y) ∧ P y) →
      ∃ ys, xs.mapM f = .ok ys ∧ xs.mapM g = .ok (ys.map h) ∧ ∀ y ∈ ys, P y
  | [], _ => ⟨[], rfl, rfl, by simp⟩
  | x :: xs, hxs => by
      obtain ⟨y, hf, hg, hy⟩ := hxs x List.mem_cons_self
      obtain ⟨ys, hfs, hgs, hys⟩ := exists_mapM_eq_ok_map fun x hx =>
        hxs x (List.mem_cons_of_mem _ hx)
      refine ⟨y :: ys, ?_, ?_, List.forall_mem_cons.mpr ⟨hy, hys⟩⟩
      · rw [List.mapM_cons, hf, hfs]
        rfl
      · rw [List.mapM_cons, hg, hgs]
        rfl

/-- A traversal fails with the error of one of its elements. -/
theorem exists_of_mapM_eq_error {f : α → Except ε β} {e : ε} : ∀ {xs : List α},
    xs.mapM f = .error e → ∃ x ∈ xs, f x = .error e
  | [], h => by simp [pure, Except.pure] at h
  | x :: xs, h => by
      rw [List.mapM_cons, bind_eq_error_iff] at h
      rcases h with hx | ⟨y, -, h⟩
      · exact ⟨x, List.mem_cons_self, hx⟩
      · rcases bind_eq_error_iff.mp h with hxs | ⟨ys, -, h⟩
        · obtain ⟨x', hmem, hx'⟩ := exists_of_mapM_eq_error hxs
          exact ⟨x', List.mem_cons_of_mem _ hmem, hx'⟩
        · simp [pure, Except.pure] at h

/-! ### The error of a computation -/

/-- The error of a computation, if it fails. -/
@[simp] def failure? : Except ε α → Option ε
  | .ok _ => none
  | .error e => some e

theorem failure?_eq_none_iff {x : Except ε α} : failure? x = none ↔ ∃ a, x = .ok a := by
  cases x <;> simp

theorem failure?_eq_some_iff {x : Except ε α} {e : ε} : failure? x = some e ↔ x = .error e := by
  cases x <;> simp

/-- A sequence of checks reports the first that fails. -/
theorem failure?_seq (x : Except ε α) (y : Except ε β) :
    failure? (x >>= fun _ => y) = (failure? x).or (failure? y) := by
  cases x <;> rfl

/-- A traversal reports the first element at which it fails. -/
theorem failure?_mapM {f : α → Except ε β} : ∀ xs : List α,
    failure? (xs.mapM f) = xs.findSome? fun x => failure? (f x)
  | [] => rfl
  | x :: xs => by
      rw [List.mapM_cons, List.findSome?_cons, ← failure?_mapM xs]
      cases f x with
      | error e => rfl
      | ok y => cases xs.mapM f <;> rfl

/-! ### Computations side by side -/

/-- Both computations fail with the same error, or both succeed with related results. -/
inductive SameOutcome (R : α → β → Prop) : Except ε α → Except ε β → Prop
  | ok {a : α} {b : β} : R a b → SameOutcome R (.ok a) (.ok b)
  | error (e : ε) : SameOutcome R (.error e) (.error e)

namespace SameOutcome

variable {R : α → β → Prop} {x : Except ε α} {y : Except ε β}

theorem refl {R : α → α → Prop} (hR : ∀ a, R a a) : ∀ x : Except ε α, SameOutcome R x x
  | .ok a => .ok (hR a)
  | .error e => .error e

/-- A comparison with a third computation. -/
theorem trans {S : β → γ → Prop} {T : α → γ → Prop} {z : Except ε γ}
    (hR : SameOutcome R x y) (hS : SameOutcome S y z)
    (h : ∀ {a b c}, R a b → S b c → T a c) : SameOutcome T x z := by
  cases hR with
  | ok hab =>
      cases hS with
      | ok hbc => exact .ok (h hab hbc)
  | error e =>
      cases hS
      exact .error e

/-- Sequences agree if their first steps do, and their second ones on related results. -/
theorem bind {S : γ → δ → Prop} {f : α → Except ε γ} {g : β → Except ε δ}
    (hR : SameOutcome R x y) (h : ∀ {a b}, R a b → SameOutcome S (f a) (g b)) :
    SameOutcome S (x >>= f) (y >>= g) := by
  cases hR with
  | ok hab => exact h hab
  | error e => exact .error e

/-- Repeated steps agree if each of them does. -/
theorem foldlM {R : α → β → Prop} {f : α → γ → Except ε α} {g : β → γ → Except ε β}
    (h : ∀ {a b} (c : γ), R a b → SameOutcome R (f a c) (g b c)) :
    ∀ (cs : List γ) {a : α} {b : β}, R a b → SameOutcome R (cs.foldlM f a) (cs.foldlM g b)
  | [], _, _, hab => .ok hab
  | c :: cs, a, b, hab => by
      rw [List.foldlM_cons, List.foldlM_cons]
      exact (h c hab).bind fun hab => foldlM h cs hab

end SameOutcome

end RelQuery
