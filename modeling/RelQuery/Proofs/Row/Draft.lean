import RelQuery.Proofs.Row.Conform

/-!
# RelQuery.Proofs.Row.Draft

**A finished row has what was last written.**

A call that writes to a draft changes it in place, and a caller may go on after calls that fail.
`Draft.Makes` says once what a call can do: it puts its value into the one column that it is about,
which takes it, or it fails and leaves no trace (`makes_make`). So after any calls each slot has the
last value that was written to it (`getElem?_values_after`), and the check at the end can only miss
what was never written (`finish_after`).
-/

namespace RelQuery

namespace Row

/-- A check of values reports the first that may not stand in its column. -/
theorem checkAll_of_first {e : Error} {c : Column} {v : Value} (hcheck : c.check v = .error e) :
    ∀ {cs : List Column} {vs : List Value} {i : Nat}, cs[i]? = some c → vs[i]? = some v →
      (∀ j < i, ∀ c' v', cs[j]? = some c' → vs[j]? = some v' → c'.Holds v') →
        checkAll cs vs = .error e
  | [], _, _, hc, _, _ => by simp at hc
  | _ :: _, [], _, _, hv, _ => by simp at hv
  | c' :: cs, v' :: vs, 0, hc, hv, _ => by
      obtain rfl := Option.some.inj hc
      obtain rfl := Option.some.inj hv
      exact bind_eq_error_iff.mpr (Or.inl hcheck)
  | c' :: cs, v' :: vs, i + 1, hc, hv, hbefore => by
      have hfirst : c'.check v' = .ok () := hbefore 0 (Nat.succ_pos i) c' v' rfl rfl
      refine bind_eq_error_iff.mpr (Or.inr ⟨(), hfirst, checkAll_of_first hcheck hc hv ?_⟩)
      exact fun j hj c'' v'' hc'' hv'' => hbefore (j + 1) (Nat.succ_lt_succ hj) c'' v'' hc'' hv''

namespace Draft

/-- The value that a call is to write. -/
def Write.value : Write → Value
  | cell _ v => v
  | named _ v => v

/-- Whether a call is about the column at a position. -/
def Write.addresses (s : Schema) (i : Nat) : Write → Bool
  | cell j _ => j == i
  | named column _ => s.names[i]? == some column

/-- The values that are written to the column at a position by calls made one after the other: those
of the calls that are about this column and succeed. -/
def written (d : Draft) (i : Nat) : List Write → List Value
  | [] => []
  | call :: calls =>
    if (d.make call).1.isOk && call.addresses d.schema i then
      call.value :: (d.make call).2.written i calls
    else (d.make call).2.written i calls

/-- The first column that is not nullable and to which the calls write nothing. -/
def missing? (d : Draft) (calls : List Write) : Option Column :=
  (d.schema.columns.zipIdx.find? fun (c, i) => !c.nullable && (d.written i calls).isEmpty).map
    Prod.fst

variable {d : Draft} {call : Write} {i j : Nat} {c : Column} {e : Error}

/-! ### One call -/

/-- What a call can do to a draft. -/
inductive Makes (d : Draft) (call : Write) : Except Error Unit × Draft → Prop
  /-- It is about a column that takes its value. -/
  | writes {i : Nat} {c : Column} : d.schema.column? i = some c →
      call.addresses d.schema i = true → c.Holds call.value →
      Makes d call (.ok (), d.put i call.value)
  /-- It is about no such column. -/
  | fails (e : Error) : (∀ i c, d.schema.column? i = some c → call.addresses d.schema i = true →
      ¬c.Holds call.value) → Makes d call (.error e, d)

/-- A call is about one column, if the names of the columns differ. -/
theorem eq_of_addresses (hnodup : d.schema.names.Nodup)
    (hi : call.addresses d.schema i = true) (hj : call.addresses d.schema j = true) : i = j := by
  cases call with
  | cell position v => exact (beq_iff_eq.mp hi).symm.trans (beq_iff_eq.mp hj)
  | named column v =>
      have hi := Schema.require_of_getElem? hnodup (beq_iff_eq.mp hi)
      have hj := Schema.require_of_getElem? hnodup (beq_iff_eq.mp hj)
      exact Except.ok.inj (hi.symm.trans hj)

/-- A step that reads the draft hands it on. -/
theorem run_get_bind {α : Type} (next : Draft → InPlace α) :
    (do let d ← get; next d : InPlace α).run.run d = (next d).run.run d := rfl

/-- A write at a position that there is not. -/
theorem run_writeAt_none (v : Value) (hc : d.schema.column? i = none) :
    (writeAt i v).run.run d = (.error (.positionOutOfRange i d.schema.name), d) := by
  rw [writeAt, run_get_bind, hc]
  rfl

/-- A write at a position that there is: the check stands before the change. -/
theorem run_writeAt_some (v : Value) (hc : d.schema.column? i = some c) :
    (writeAt i v).run.run d = (c.check v, if (c.check v).isOk then d.put i v else d) := by
  rw [writeAt, run_get_bind, hc]
  dsimp only
  cases c.check v <;> rfl

theorem run_writeNamed_error {name : String} (v : Value) (h : d.schema.require name = .error e) :
    (writeNamed name v).run.run d = (.error e, d) := by
  rw [writeNamed, run_get_bind, h]
  rfl

theorem run_writeNamed_ok {name : String} (v : Value) (h : d.schema.require name = .ok i) :
    (writeNamed name v).run.run d = (writeAt i v).run.run d := by
  rw [writeNamed, run_get_bind, h]
  rfl

/-- A write at the position that a call is about. -/
theorem makes_writeAt (hnodup : d.schema.names.Nodup) (hi : call.addresses d.schema i = true) :
    Makes d call ((writeAt i call.value).run.run d) := by
  cases hc : d.schema.column? i with
  | none =>
      rw [run_writeAt_none _ hc]
      refine .fails _ fun j c hc' hj => ?_
      obtain rfl := eq_of_addresses hnodup hi hj
      simp [hc] at hc'
  | some c =>
      rw [run_writeAt_some _ hc]
      cases hcheck : c.check call.value with
      | error e =>
          refine .fails e fun j c' hc' hj hholds => ?_
          obtain rfl := eq_of_addresses hnodup hi hj
          obtain rfl := Option.some.inj (hc.symm.trans hc')
          rw [Column.Holds, hcheck] at hholds
          simp at hholds
      | ok _ => exact .writes hc hi hcheck

/-- **A call writes to the one column that it is about, or leaves no trace**, if the names of the
columns differ. -/
theorem makes_make (hnodup : d.schema.names.Nodup) (call : Write) :
    Makes d call (d.make call) := by
  cases call with
  | cell i v => exact makes_writeAt hnodup (beq_self_eq_true i)
  | named column v =>
      rw [make]
      cases hi : d.schema.require column with
      | error e =>
          rw [run_writeNamed_error v hi]
          -- A column of this name would have been found.
          refine .fails e fun i c _ hi' => ?_
          rw [Schema.require_of_getElem? hnodup (beq_iff_eq.mp hi')] at hi
          simp at hi
      | ok i =>
          rw [run_writeNamed_ok v hi]
          exact makes_writeAt hnodup (beq_iff_eq.mpr (Schema.name_of_require hi))

/-- A call that fails leaves the draft as it was. -/
theorem make_of_error (h : (d.make call).1 = .error e) : (d.make call).2 = d := by
  have hwrite : ∀ {i v}, ((writeAt i v).run.run d).1 = .error e →
      ((writeAt i v).run.run d).2 = d := by
    intro i v h
    cases hc : d.schema.column? i with
    | none => rw [run_writeAt_none _ hc]
    | some c =>
        rw [run_writeAt_some _ hc] at h ⊢
        rw [show c.check v = .error e from h]
        rfl
  cases call with
  | cell i v => exact hwrite h
  | named column v =>
      rw [make] at h ⊢
      cases hi : d.schema.require column with
      | error e' => rw [run_writeNamed_error v hi]
      | ok i =>
          rw [run_writeNamed_ok v hi] at h ⊢
          exact hwrite h

/-- A call succeeds exactly if it is about a column that takes its value. -/
theorem make_eq_ok_iff (hnodup : d.schema.names.Nodup) : (d.make call).1 = .ok () ↔
    ∃ i c, d.schema.column? i = some c ∧ call.addresses d.schema i = true ∧
      c.Holds call.value := by
  have hmakes := makes_make hnodup call
  generalize d.make call = made at hmakes
  cases hmakes with
  | writes hc hi hholds => exact iff_of_true rfl ⟨_, _, hc, hi, hholds⟩
  | fails e hnone =>
      refine iff_of_false (by simp) ?_
      rintro ⟨i, c, hc, hi, hholds⟩
      exact hnone i c hc hi hholds

theorem schema_make (hnodup : d.schema.names.Nodup) (call : Write) :
    (d.make call).2.schema = d.schema := by
  have hmakes := makes_make hnodup call
  generalize d.make call = made at hmakes
  cases hmakes <;> rfl

/-! ### Sequences of calls -/

@[simp] theorem after_nil (d : Draft) : d.after [] = d := rfl

@[simp] theorem after_cons (d : Draft) (call : Write) (calls : List Write) :
    d.after (call :: calls) = (d.make call).2.after calls := rfl

theorem schema_after (hnodup : d.schema.names.Nodup) (calls : List Write) :
    (d.after calls).schema = d.schema := by
  induction calls generalizing d with
  | nil => rfl
  | cons call calls ih =>
      have hschema := schema_make hnodup call
      rw [after_cons, ih (hschema ▸ hnodup), hschema]

/-- A call that fails writes nothing. -/
theorem written_cons_of_fails {e : Error} (h : d.make call = (.error e, d)) (i : Nat)
    (calls : List Write) : d.written i (call :: calls) = d.written i calls := by
  rw [written, h]
  rfl

/-- A call that writes to a column adds its value to those written there, and to no others. -/
theorem written_cons_of_writes (hnodup : d.schema.names.Nodup)
    (hj : call.addresses d.schema j = true) (h : d.make call = (.ok (), d.put j call.value))
    (i : Nat) (calls : List Write) : d.written i (call :: calls) =
      if j = i then call.value :: (d.put j call.value).written i calls
      else (d.put j call.value).written i calls := by
  have haddresses : call.addresses d.schema i = true ↔ j = i := by
    constructor
    · exact eq_of_addresses hnodup hj
    · rintro rfl
      exact hj
  rw [written, h]
  by_cases hi : j = i
  · rw [if_pos (by simpa [Except.isOk, Except.toBool] using haddresses.mpr hi), if_pos hi]
  · rw [if_neg (by simpa [Except.isOk, Except.toBool] using mt haddresses.mp hi), if_neg hi]

/-- What is written to a column may stand in it. -/
theorem holds_of_mem_written (hnodup : d.schema.names.Nodup) {calls : List Write} {v : Value}
    (hv : v ∈ d.written i calls) : ∃ c, d.schema.column? i = some c ∧ c.Holds v := by
  induction calls generalizing d with
  | nil => simp [written] at hv
  | cons call calls ih =>
      have hmakes := makes_make hnodup call
      generalize hmake : d.make call = made at hmakes
      cases hmakes with
      | fails e _ =>
          rw [written_cons_of_fails hmake] at hv
          exact ih hnodup hv
      | @writes j c hc hj hholds =>
          -- The rest starts from another draft, of the same schema.
          rw [written_cons_of_writes hnodup hj hmake] at hv
          split at hv
          · rename_i hi
            subst hi
            rcases List.mem_cons.mp hv with rfl | hv
            · exact ⟨c, hc, hholds⟩
            · exact @ih (d.put j call.value) hnodup hv
          · exact @ih (d.put j call.value) hnodup hv

/-- **Each slot has the last value that was written to it**, or what it had before if there is
none. -/
theorem getElem?_values_after (hnodup : d.schema.names.Nodup) (i : Nat) (calls : List Write) :
    (d.after calls).values[i]? = (d.written i calls).getLast?.or d.values[i]? := by
  induction calls generalizing d with
  | nil => rfl
  | cons call calls ih =>
      rw [after_cons]
      have hmakes := makes_make hnodup call
      generalize hmake : d.make call = made at hmakes
      cases hmakes with
      | fails e _ =>
          rw [written_cons_of_fails hmake]
          exact ih hnodup
      | @writes j c hc hj _ =>
          rw [written_cons_of_writes hnodup hj hmake, @ih (d.put j call.value) hnodup]
          have hput : (d.put j call.value).values[i]? =
              if j = i then some call.value else d.values[i]? := by
            obtain ⟨hlt, -⟩ := List.getElem?_eq_some_iff.mp hc
            rw [← Schema.width, ← d.length_values] at hlt
            rw [put, List.getElem?_set, if_pos hlt]
          rw [hput]
          -- The value counts only if nothing is written behind it.
          by_cases hi : j = i
          · rw [if_pos hi, if_pos hi, List.getLast?_cons]
            cases ((d.put j call.value).written i calls).getLast? <;> rfl
          · rw [if_neg hi, if_neg hi]

/-! ### The finished row -/

variable {s : Schema} {calls : List Write}

/-- What calls leave in a column of a draft that was empty. -/
theorem getElem?_values_after_empty (hnodup : s.names.Nodup) (hc : s.column? i = some c)
    (calls : List Write) : ((empty s).after calls).values[i]? =
      some (((empty s).written i calls).getLast?.getD .null) := by
  obtain ⟨hi, -⟩ := List.getElem?_eq_some_iff.mp hc
  have hempty : (empty s).values[i]? = some .null := by
    rw [empty, List.getElem?_replicate]
    exact if_pos hi
  rw [getElem?_values_after hnodup, hempty]
  cases ((empty s).written i calls).getLast? <;> rfl

/-- A column takes what is left in it, unless it is not nullable and was never written. -/
theorem holds_last_iff (hnodup : s.names.Nodup) (hc : s.column? i = some c) :
    c.Holds (((empty s).written i calls).getLast?.getD .null) ↔
      (c.nullable = false → (empty s).written i calls ≠ []) := by
  cases hlast : ((empty s).written i calls).getLast? with
  | none =>
      have hnil : (empty s).written i calls = [] := List.getLast?_eq_none_iff.mp hlast
      rw [Option.getD_none, Column.holds_iff]
      cases hnullable : c.nullable <;> simp [hnil, Value.type?]
  | some v =>
      obtain ⟨c', hc', hholds⟩ := holds_of_mem_written hnodup (List.mem_of_getLast? hlast)
      obtain rfl := Option.some.inj (hc.symm.trans hc')
      refine iff_of_true hholds fun _ hnil => ?_
      rw [hnil] at hlast
      simp at hlast

/-- Nothing is missing exactly if every column that is not nullable is written. -/
theorem missing?_eq_none_iff : d.missing? calls = none ↔
    ∀ i c, d.schema.column? i = some c → c.nullable = false → d.written i calls ≠ [] := by
  simp only [missing?, Option.map_eq_none_iff, List.find?_eq_none, Prod.forall,
    List.mem_zipIdx_iff_getElem?]
  constructor
  · intro h i c hc hnullable hnil
    exact h c i hc (by simp [hnullable, hnil])
  · intro h c i hc hmissing
    simp only [Bool.and_eq_true, Bool.not_eq_true', List.isEmpty_iff] at hmissing
    exact h i c hc hmissing.1 hmissing.2

/-- The column that is missing is written nowhere, and those before it are. -/
theorem missing?_eq_some (h : d.missing? calls = some c) :
    ∃ i, d.schema.column? i = some c ∧ c.nullable = false ∧ d.written i calls = [] ∧
      ∀ j < i, ∀ c', d.schema.column? j = some c' → c'.nullable = false →
        d.written j calls ≠ [] := by
  obtain ⟨⟨c', i⟩, hfind, rfl⟩ := Option.map_eq_some_iff.mp h
  obtain ⟨hmissing, j, hj, hget, hbefore⟩ := List.find?_eq_some_iff_getElem.mp hfind
  simp only [Bool.and_eq_true, Bool.not_eq_true', List.isEmpty_iff] at hmissing
  rw [List.getElem_zipIdx, Nat.zero_add] at hget
  obtain ⟨rfl, rfl⟩ := Prod.mk.inj hget
  rw [List.length_zipIdx] at hj
  refine ⟨j, List.getElem?_eq_getElem hj, hmissing.1, hmissing.2, ?_⟩
  intro k hk c' hc' hnullable hnil
  obtain ⟨_, rfl⟩ := List.getElem?_eq_some_iff.mp hc'
  have hfirst := hbefore k hk
  rw [List.getElem_zipIdx] at hfirst
  simp [hnullable, hnil] at hfirst

/-- If nothing is missing, the row is made. -/
theorem exists_finish_of_missing?_eq_none (hnodup : s.names.Nodup)
    (h : (empty s).missing? calls = none) :
    ∃ row, ((empty s).after calls).finish = .ok row := by
  have hschema : ((empty s).after calls).schema = s := schema_after hnodup calls
  have hholds : s.Holds ((empty s).after calls).values := by
    refine List.forall₂_iff_get.mpr ⟨?_, fun i hi hi' => ?_⟩
    · rw [((empty s).after calls).length_values, hschema]
      rfl
    · have hc : s.column? i = some (s.columns.get ⟨i, hi⟩) := List.getElem?_eq_getElem hi
      have hv := getElem?_values_after_empty hnodup hc calls
      rw [List.getElem?_eq_getElem hi'] at hv
      rw [List.get_eq_getElem (i := ⟨i, hi'⟩), Option.some.inj hv, holds_last_iff hnodup hc]
      exact missing?_eq_none_iff.mp h i _ hc
  rw [finish, hschema]
  exact ⟨_, ofValues_of_holds hholds⟩

/-- A draft that does not pass the check is refused for what the check reports. -/
theorem finish_of_checkAll (h : checkAll d.schema.columns d.values = .error e) :
    d.finish = .error e := by
  rw [finish, ofValues, dif_pos d.length_values, h]
  rfl

/-- If a column is missing, it is reported. -/
theorem finish_of_missing?_eq_some (hnodup : s.names.Nodup)
    (h : (empty s).missing? calls = some c) : ((empty s).after calls).finish =
      .error (.typeMismatch c.name c.type "Null (not nullable)") := by
  have hschema : ((empty s).after calls).schema = s := schema_after hnodup calls
  obtain ⟨i, hc, hnullable, hnil, hbefore⟩ := missing?_eq_some h
  have hv := getElem?_values_after_empty hnodup hc calls
  rw [hnil] at hv
  have hcheck : c.check .null = .error (.typeMismatch c.name c.type "Null (not nullable)") := by
    simp [Column.check, Value.type?, hnullable]
  refine finish_of_checkAll ?_
  rw [hschema]
  refine checkAll_of_first hcheck hc hv fun j hj c' v' hc' hv' => ?_
  rw [getElem?_values_after_empty hnodup hc' calls] at hv'
  obtain rfl := Option.some.inj hv'
  exact (holds_last_iff hnodup hc').mpr (hbefore j hj c' hc')

/-- **A finished row has what was last written.** Let the columns of a schema have different names,
and let calls be made one after the other on an empty draft. A call that fails leaves the draft as
it was, and a call succeeds exactly if the column that it is about exists and takes its value. The
row can be finished exactly if every column that is not nullable has been written, and then has in
each column the last value that was written to it, or null if there is none. Otherwise the first
column that is not nullable and was not written is reported. -/
theorem finish_after (hnodup : s.names.Nodup) (calls : List Write) :
    (∀ d call e, (make d call).1 = .error e → (make d call).2 = d) ∧
    (∀ earlier call, (((empty s).after earlier).make call).1 = .ok () ↔
      ∃ i c, s.column? i = some c ∧ call.addresses s i = true ∧ c.Holds call.value) ∧
    ((∃ row, ((empty s).after calls).finish = .ok row) ↔
      ∀ i c, s.column? i = some c → c.nullable = false → (empty s).written i calls ≠ []) ∧
    (∀ row, ((empty s).after calls).finish = .ok row → row.schema = s ∧
      ∀ i < s.width, row.get? i = some (((empty s).written i calls).getLast?.getD .null)) ∧
    ∀ e, ((empty s).after calls).finish = .error e →
      ∃ c, (empty s).missing? calls = some c ∧ e.kind = .type ∧
        e = .typeMismatch c.name c.type "Null (not nullable)" := by
  have hschema : ∀ earlier, ((empty s).after earlier).schema = s := schema_after hnodup
  refine ⟨fun _ _ _ => make_of_error, fun earlier call => ?_, ⟨?_, ?_⟩, ?_, ?_⟩
  · rw [make_eq_ok_iff (by rw [hschema]; exact hnodup), hschema]
  · rintro ⟨row, hrow⟩
    -- A missing column would have been reported.
    refine (missing?_eq_none_iff (d := empty s)).mp ?_
    cases hmissing : (empty s).missing? calls with
    | none => rfl
    | some c =>
        rw [finish_of_missing?_eq_some hnodup hmissing] at hrow
        simp at hrow
  · intro hwritten
    exact exists_finish_of_missing?_eq_none hnodup (missing?_eq_none_iff.mpr hwritten)
  · intro row hrow
    rw [finish, hschema] at hrow
    obtain ⟨-, hrowSchema, hvalues⟩ := ofValues_eq_ok_iff.mp hrow
    refine ⟨hrowSchema, fun i hi => ?_⟩
    rw [get?, hvalues]
    exact getElem?_values_after_empty hnodup (List.getElem?_eq_getElem hi) calls
  · intro e he
    cases hmissing : (empty s).missing? calls with
    | none =>
        obtain ⟨row, hrow⟩ := exists_finish_of_missing?_eq_none hnodup hmissing
        rw [hrow] at he
        simp at he
    | some c =>
        rw [finish_of_missing?_eq_some hnodup hmissing] at he
        obtain rfl := Except.error.inj he
        exact ⟨c, rfl, rfl, rfl⟩

/-- Badges that are handed out at a gate: a number, whose badge it is, and where it opens doors. -/
def badges : Schema :=
  ⟨"badges", [⟨"number", .int32, false, .position 0⟩, ⟨"holder", .text, true, .position 1⟩,
    ⟨"floor", .int64, false, .position 2⟩]⟩

/-- The clerk writes a number as text, then as a number, then no number, a floor to a column that
there is not, a holder, and takes the holder back. -/
def entries : List Write :=
  [.named "number" (.text "12"), .cell 0 (.int32 12), .named "number" .null, .cell 3 (.int64 4),
    .named "holder" (.text "visitor"), .cell 1 .null]

/-- Four of the entries are refused or overwritten, and the floor is missing until it is written. -/
theorem finish_after_entries :
    (∃ e, ((empty badges).after entries).finish = .error e ∧ e.kind = .type ∧
      e = .typeMismatch "floor" .int64 "Null (not nullable)") ∧
    ∃ row, ((empty badges).after (entries ++ [.named "floor" (.int64 4)])).finish = .ok row ∧
      row.get? 0 = some (.int32 12) ∧ row.get? 1 = some .null ∧ row.get? 2 = some (.int64 4) := by
  have hnodup : badges.names.Nodup := by decide
  obtain ⟨-, -, hfinish, -, hreport⟩ := finish_after hnodup entries
  obtain ⟨-, -, hfinish', hrow, -⟩ := finish_after hnodup (entries ++ [.named "floor" (.int64 4)])
  constructor
  · cases h : ((empty badges).after entries).finish with
    | ok row =>
        exact absurd (hfinish.mp ⟨row, h⟩ 2 _ rfl rfl) (by decide)
    | error e =>
        obtain ⟨c, hc, hkind, he⟩ := hreport e h
        have hfloor : (empty badges).missing? entries =
            some ⟨"floor", .int64, false, .position 2⟩ := by decide
        obtain rfl := Option.some.inj (hfloor.symm.trans hc)
        exact ⟨e, rfl, hkind, he⟩
  · obtain ⟨row, h⟩ := hfinish'.mpr ((missing?_eq_none_iff (d := empty badges)).mp (by decide))
    obtain ⟨-, hvalues⟩ := hrow row h
    exact ⟨row, h, hvalues 0 (by decide), hvalues 1 (by decide), hvalues 2 (by decide)⟩

end Draft

end Row

end RelQuery
