import RelQuery.Predicate.Reading
import RelQuery.Proofs.Row.Conform

/-!
# RelQuery.Proofs.Predicate.Typed

**Filter text is read with types.**

A condition compares at run time whatever it is given, and fails where types cannot be compared.
`Predicate.Typed` is the evidence that this does not happen: every column exists, and every literal
is null or has the type of its column. Reading a filter text provides it (`ofText_typed`), since
each literal is read as a value of its column's type, and with it the condition has an answer on
every row that suits the schema (`Typed.exists_eval`).
-/

namespace RelQuery

/-- A literal that has been read is null, or a value of the type it was read as. -/
theorem Value.type?_of_ofLiteral? {type : ColumnType} {cs : List Char} {v : Value}
    (h : ofLiteral? type cs = some v) : v = .null ∨ v.type? = some type := by
  unfold ofLiteral? at h
  split at h
  · exact Or.inl (Option.some.inj h).symm
  · refine Or.inr ?_
    cases type with
    | boolean =>
        dsimp only at h
        split at h
        · rw [← Option.some.inj h]
          rfl
        · rw [← Option.some.inj h]
          rfl
        · simp at h
    | text =>
        rw [← Option.some.inj h]
        rfl
    | bytes =>
        rw [← Option.some.inj h]
        rfl
    | _ =>
        obtain ⟨_, -, rfl⟩ := Option.map_eq_some_iff.mp h
        rfl

namespace Predicate

/-- The columns of the condition exist, and what they are compared with is null or has their type. A
function supplied by the caller is never typed. -/
inductive Typed (s : Schema) : Predicate → Prop where
  /-- A comparison with a literal of the column's type. -/
  | compare {column : String} {c : Column} {v : Value} (op : Comparison) :
      s.columnNamed column = .ok c → v = .null ∨ v.type? = some c.type →
        Typed s (compare column op v)
  | isNull {column : String} {i : Nat} : s.require column = .ok i → Typed s (isNull column)
  | and {p q : Predicate} : Typed s p → Typed s q → Typed s (and p q)
  | or {p q : Predicate} : Typed s p → Typed s q → Typed s (or p q)
  | not {p : Predicate} : Typed s p → Typed s (not p)

variable {s : Schema} {p : Predicate}

/-! ### Reading -/

theorem ofClause_typed {cs : List Char} (h : ofClause s cs = .ok p) : p.Typed s := by
  unfold ofClause at h
  dsimp only at h
  split at h
  · obtain ⟨i, hi, h⟩ := bind_eq_ok_iff.mp h
    obtain rfl := pure_eq_ok_iff.mp h
    exact Typed.not (Typed.isNull hi)
  · split at h
    · obtain ⟨i, hi, h⟩ := bind_eq_ok_iff.mp h
      obtain rfl := pure_eq_ok_iff.mp h
      exact Typed.isNull hi
    · split at h
      · simp at h
      · rename_i op before rest _
        obtain ⟨c, hc, h⟩ := bind_eq_ok_iff.mp h
        split at h
        · rename_i v hliteral
          obtain rfl := pure_eq_ok_iff.mp h
          exact Typed.compare op hc (Value.type?_of_ofLiteral? hliteral)
        · simp at h

theorem foldlM_and_typed : ∀ {clauses : List (List Char)} {p q : Predicate}, p.Typed s →
    clauses.foldlM (fun p clause => do return and p (← ofClause s clause)) p = .ok q → q.Typed s
  | [], p, q, hp, h => by
      obtain rfl := pure_eq_ok_iff.mp h
      exact hp
  | clause :: clauses, p, q, hp, h => by
      rw [List.foldlM_cons] at h
      obtain ⟨p', hp', h⟩ := bind_eq_ok_iff.mp h
      obtain ⟨r, hr, hp'⟩ := bind_eq_ok_iff.mp hp'
      obtain rfl := pure_eq_ok_iff.mp hp'
      exact foldlM_and_typed (Typed.and hp (ofClause_typed hr)) h

/-- A filter text is read as a typed condition. -/
theorem ofText_typed {text : String} (h : ofText s text = .ok p) : p.Typed s := by
  unfold ofText at h
  split at h
  · simp at h
  · obtain ⟨first, hfirst, h⟩ := bind_eq_ok_iff.mp h
    exact foldlM_and_typed (ofClause_typed hfirst) h

/-! ### Evaluation -/

/-- Values that are null or of one type can be compared. -/
theorem exists_compareWithLiteral {column : String} {type : ColumnType} {v literal : Value}
    (hv : v = .null ∨ v.type? = some type)
    (hliteral : literal = .null ∨ literal.type? = some type) :
    ∃ o, compareWithLiteral column v literal = .ok o := by
  unfold compareWithLiteral
  rcases hv with rfl | hv
  · exact ⟨none, rfl⟩
  · rcases hliteral with rfl | hliteral
    · rw [hv]
      exact ⟨none, rfl⟩
    · simp only [hv, hliteral, if_true]
      exact ⟨_, rfl⟩

/-- **A typed condition has an answer** on every row that suits its schema. -/
theorem Typed.exists_eval (h : p.Typed s) {row : Row} (hrow : row.Suits s) :
    ∃ b, p.eval row = .ok b := by
  induction h with
  | @compare column c v op hc hliteral =>
      obtain ⟨i, hi⟩ := Schema.exists_require_of_columnNamed hc
      have hcell := hrow.holds.cell (Schema.column_of_require hi hc).1
      -- The column's value is null or of its type, and so is the literal.
      have htype := (Column.holds_iff.mp hcell).imp_left And.left
      obtain ⟨o, ho⟩ := @exists_compareWithLiteral column _ _ _ htype hliteral
      simp only [eval, Row.value_of_require hrow.fits hi, bind, Except.bind, ho]
      cases o with
      | none => exact ⟨false, rfl⟩
      | some o => exact ⟨op.holds o, rfl⟩
  | @isNull column i hi =>
      rw [eval, Row.value_of_require hrow.fits hi]
      exact ⟨_, rfl⟩
  | and _ _ ihp ihq =>
      obtain ⟨b, hb⟩ := ihp
      simp only [eval, hb, bind, Except.bind]
      cases b with
      | false => exact ⟨false, rfl⟩
      | true => exact ihq
  | or _ _ ihp ihq =>
      obtain ⟨b, hb⟩ := ihp
      simp only [eval, hb, bind, Except.bind]
      cases b with
      | false => exact ihq
      | true => exact ⟨true, rfl⟩
  | not _ ih =>
      obtain ⟨b, hb⟩ := ih
      rw [eval, hb]
      exact ⟨!b, rfl⟩

end Predicate

end RelQuery
