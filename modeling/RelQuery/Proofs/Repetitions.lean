import Mathlib.Data.List.Forall2

/-!
# RelQuery.Proofs.Repetitions

**Lists without their repetitions**, under an equivalence that is coarser than equality.

`List.eraseDups` keeps of elements that equal each other the first one. What is left repeats nothing
and still has everything that was there, up to the equivalence (`pairwise_eraseDups`,
`any_eraseDups`). Elements that repeat nothing can be matched one to one with those of any list in
which they occur (`exists_matching`), so no more of them are to be had than `eraseDups` leaves, and
two lists that repeat nothing and have the same elements are the same up to their order
(`exists_perm_matching`).
-/

namespace RelQuery

variable {α : Type} [BEq α] [EquivBEq α]

/-- Taking away what equals `a` takes nothing away that equals something else. -/
theorem any_filter_of_not_beq {a k : α} (hka : (k == a) = false) (xs : List α) :
    (xs.filter fun x => !x == a).any (· == k) = xs.any (· == k) := by
  rw [List.any_filter]
  congr 1
  funext x
  cases hxk : x == k with
  | false => rw [Bool.and_false]
  | true => rw [BEq.congr_left hxk, hka]; rfl

/-- What stands last is repeated or new. -/
theorem eraseDups_append_singleton (xs : List α) (k : α) :
    (xs ++ [k]).eraseDups = if xs.any (· == k) then xs.eraseDups else xs.eraseDups ++ [k] := by
  match xs with
  | [] => rfl
  | a :: xs =>
      have hlength := List.length_filter_le (fun x => !x == a) xs
      rw [List.cons_append, List.eraseDups_cons, List.eraseDups_cons, List.filter_append,
        List.any_cons]
      cases hka : k == a with
      | true =>
          have hak : (a == k) = true := BEq.symm hka
          simp [hka, hak]
      | false =>
          have hak : (a == k) = false := by rw [BEq.comm, hka]
          have hk : [k].filter (fun x => !x == a) = [k] := by simp [hka]
          rw [hk, eraseDups_append_singleton (xs.filter fun x => !x == a) k,
            any_filter_of_not_beq hka, hak, Bool.false_or]
          split <;> rfl
termination_by xs.length

omit [EquivBEq α] in
theorem mem_of_mem_eraseDups {k : α} {xs : List α} (h : k ∈ xs.eraseDups) : k ∈ xs := by
  match xs with
  | [] => exact h
  | a :: xs =>
      have hlength := List.length_filter_le (fun x => !x == a) xs
      rw [List.eraseDups_cons] at h
      rcases List.mem_cons.mp h with rfl | h
      · exact List.mem_cons_self
      · exact List.mem_cons_of_mem a (List.mem_filter.mp (mem_of_mem_eraseDups h)).1
termination_by xs.length

/-- What is left equals nothing that stands before it. -/
theorem pairwise_eraseDups (xs : List α) :
    xs.eraseDups.Pairwise fun a b => (a == b) = false := by
  match xs with
  | [] => exact List.Pairwise.nil
  | a :: xs =>
      have hlength := List.length_filter_le (fun x => !x == a) xs
      rw [List.eraseDups_cons]
      refine List.Pairwise.cons ?_ (pairwise_eraseDups (xs.filter fun x => !x == a))
      intro b hb
      have hmem := List.mem_filter.mp (mem_of_mem_eraseDups hb)
      rw [BEq.comm]
      simpa using hmem.2
termination_by xs.length

/-- Something is left that equals `k` if there was something before. -/
theorem any_eraseDups (xs : List α) (k : α) :
    xs.eraseDups.any (· == k) = xs.any (· == k) := by
  match xs with
  | [] => rfl
  | a :: xs =>
      have hlength := List.length_filter_le (fun x => !x == a) xs
      rw [List.eraseDups_cons, List.any_cons, List.any_cons, any_eraseDups (xs.filter _) k]
      cases hak : a == k with
      | true => rw [Bool.true_or, Bool.true_or]
      | false =>
          have hka : (k == a) = false := by rw [BEq.comm, hak]
          rw [any_filter_of_not_beq hka]
termination_by xs.length

/-! ### Matching -/

/-- Elements that repeat nothing and all occur in a list can be matched with elements of that list,
one to one. -/
theorem exists_matching {xs ys : List α} (hxs : xs.Pairwise fun a b => (a == b) = false)
    (hoccur : ∀ x ∈ xs, ys.any (· == x) = true) :
    ∃ matched rest, ys.Perm (matched ++ rest) ∧
      List.Forall₂ (fun x y => (x == y) = true) xs matched := by
  induction xs generalizing ys with
  | nil => exact ⟨[], ys, List.Perm.refl ys, List.Forall₂.nil⟩
  | cons x xs ih =>
      rw [List.pairwise_cons] at hxs
      obtain ⟨y, hy, hyx⟩ := List.any_eq_true.mp (hoccur x List.mem_cons_self)
      obtain ⟨before, behind, rfl⟩ := List.append_of_mem hy
      -- The other elements are matched without `y`, which equals none of them.
      have hothers : ∀ z ∈ xs, (before ++ behind).any (· == z) = true := by
        intro z hz
        have hany := hoccur z (List.mem_cons_of_mem x hz)
        have hyz : (y == z) = false := by rw [BEq.congr_left hyx, hxs.1 z hz]
        simpa [hyz] using hany
      obtain ⟨matched, rest, hperm, hmatched⟩ := ih hxs.2 hothers
      refine ⟨y :: matched, rest, ?_, List.Forall₂.cons (BEq.symm hyx) hmatched⟩
      exact List.perm_middle.trans (hperm.cons y)

/-- There are no more elements without a repetition than in any list in which they all occur. -/
theorem length_le_of_occur {xs ys : List α} (hxs : xs.Pairwise fun a b => (a == b) = false)
    (hoccur : ∀ x ∈ xs, ys.any (· == x) = true) : xs.length ≤ ys.length := by
  obtain ⟨matched, rest, hperm, hmatched⟩ := exists_matching hxs hoccur
  rw [hperm.length_eq, List.length_append, ← hmatched.length_eq]
  exact Nat.le_add_right _ _

/-- Two lists that repeat nothing and have the same elements are the same up to their order. -/
theorem exists_perm_matching {xs ys : List α} (hxs : xs.Pairwise fun a b => (a == b) = false)
    (hys : ys.Pairwise fun a b => (a == b) = false)
    (hsame : ∀ a, xs.any (· == a) = ys.any (· == a)) :
    ∃ matched, ys.Perm matched ∧ List.Forall₂ (fun x y => (x == y) = true) xs matched := by
  have hin : ∀ {zs : List α}, ∀ z ∈ zs, zs.any (· == z) = true :=
    fun z hz => List.any_eq_true.mpr ⟨z, hz, BEq.rfl⟩
  have hxy : ∀ x ∈ xs, ys.any (· == x) = true := fun x hx => hsame x ▸ hin x hx
  have hyx : ∀ y ∈ ys, xs.any (· == y) = true := fun y hy => hsame y ▸ hin y hy
  obtain ⟨matched, rest, hperm, hmatched⟩ := exists_matching hxs hxy
  have hlength := length_le_of_occur hys hyx
  rw [hperm.length_eq, List.length_append, ← hmatched.length_eq] at hlength
  obtain rfl : rest = [] := List.eq_nil_of_length_eq_zero (by omega)
  rw [List.append_nil] at hperm
  exact ⟨matched, hperm, hmatched⟩

omit [BEq α] [EquivBEq α] in
/-- What belongs to matched elements is matched, if what belongs to any two of them is. -/
theorem forall₂_of_matching {β : Type} {E : α → α → Prop} {P Q : α → β → Prop}
    {S : β → β → Prop} (hstep : ∀ {x y b c}, E x y → P x b → Q y c → S b c) {xs ys : List α}
    {bs cs : List β} (hmatched : List.Forall₂ E xs ys) (hbs : List.Forall₂ P xs bs)
    (hcs : List.Forall₂ Q ys cs) : List.Forall₂ S bs cs := by
  induction hmatched generalizing bs cs with
  | nil =>
      cases hbs
      cases hcs
      exact List.Forall₂.nil
  | cons hxy _ ih =>
      cases hbs with
      | cons hb hbs =>
          cases hcs with
          | cons hc hcs => exact List.Forall₂.cons (hstep hxy hb hc) (ih hbs hcs)

end RelQuery
