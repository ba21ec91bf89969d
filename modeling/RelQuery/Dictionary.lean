/-!
# RelQuery.Dictionary

Dictionaries: values under names, each name once, in ascending order of the names.

That the names ascend is part of the type, so two dictionaries with the same values under the same
names are equal, and what is printed from one does not depend on how it was made.
-/

namespace RelQuery

/-- Values under names. -/
structure Dictionary (α : Type) where
  /-- The names with their values. -/
  entries : List (String × α)
  ascending : entries.Pairwise fun a b => a.1 < b.1
deriving DecidableEq, Repr

namespace Dictionary

variable {α : Type}

/-- The dictionary without entries. -/
def empty : Dictionary α := ⟨[], .nil⟩

instance : Inhabited (Dictionary α) := ⟨empty⟩

/-- Puts a value into its place among ascending names, in place of one under the same name. -/
def put (name : String) (a : α) : List (String × α) → List (String × α)
  | [] => [(name, a)]
  | entry :: entries =>
    if name < entry.1 then (name, a) :: entry :: entries
    else if name = entry.1 then (name, a) :: entries
    else entry :: put name a entries

theorem mem_put {name : String} {a : α} {entries : List (String × α)} {e : String × α}
    (h : e ∈ put name a entries) : e = (name, a) ∨ e ∈ entries := by
  induction entries with
  | nil => simpa [put] using h
  | cons entry entries ih =>
    simp only [put] at h
    split at h
    · simpa using h
    · split at h
      · rcases List.mem_cons.mp h with h | h
        · exact .inl h
        · exact .inr (List.mem_cons_of_mem _ h)
      · rcases List.mem_cons.mp h with h | h
        · exact .inr (h ▸ List.mem_cons_self)
        · exact (ih h).imp_right (List.mem_cons_of_mem _)

theorem pairwise_put {name : String} {a : α} {entries : List (String × α)}
    (h : entries.Pairwise fun a b => a.1 < b.1) :
    (put name a entries).Pairwise fun a b => a.1 < b.1 := by
  induction entries with
  | nil => simp [put]
  | cons entry entries ih =>
    have head := (List.pairwise_cons.mp h).1
    have tail := (List.pairwise_cons.mp h).2
    simp only [put]
    split
    · rename_i below
      refine List.pairwise_cons.mpr ⟨fun e he => ?_, h⟩
      rcases List.mem_cons.mp he with rfl | he
      · exact below
      · exact String.lt_trans below (head e he)
    · rename_i notBelow
      split
      · rename_i equal
        subst equal
        exact List.pairwise_cons.mpr ⟨head, tail⟩
      · rename_i different
        refine List.pairwise_cons.mpr ⟨fun e he => ?_, ih tail⟩
        rcases mem_put he with rfl | he
        · exact Std.lt_of_le_of_ne (Std.not_lt.mp notBelow) (Ne.symm different)
        · exact head e he

/-- The dictionary with a value under a name, in place of the one it had. -/
def insert (d : Dictionary α) (name : String) (a : α) : Dictionary α :=
  ⟨put name a d.entries, pairwise_put d.ascending⟩

/-- The dictionary of these entries; of several under one name, the last counts. -/
def ofList (entries : List (String × α)) : Dictionary α :=
  entries.foldl (fun d (name, a) => d.insert name a) empty

/-- The value under a name. -/
def get? (d : Dictionary α) (name : String) : Option α :=
  d.entries.lookup name

/-- The names in use, in ascending order. -/
def names (d : Dictionary α) : List String :=
  d.entries.map Prod.fst

end Dictionary

end RelQuery
