import RelQuery.Proofs.Accumulator

/-!
# RelQuery.Proofs.Accumulator.InPlace

**Values that are refused leave no trace.**

`Accumulator.write` changes the state of an accumulator statement by statement, and several states
have more than one field to change. It is nevertheless the update that `Accumulator.add` describes
or none at all (`run_write`), because every check stands before the first change. So a caller who
goes on after errors has the state that is due to the accepted values alone
(`after_accepted`), whatever was refused between them.
-/

namespace RelQuery

namespace Accumulator

variable {a b : Accumulator} {v : Value} {e : Error}

/-! ### One update -/

theorem Adds.isOverRows (h : Adds v a b) : b.isOverRows = a.isOverRows := by
  cases h <;> rfl

theorem isOverRows_of_update (h : a.update v = .ok b) : b.isOverRows = a.isOverRows := by
  unfold update at h
  split at h
  · obtain rfl := Except.ok.inj h
    rfl
  · exact (adds_of_add h).isOverRows

/-- The accumulator of an aggregate over a column does not count rows. -/
theorem isOverRows_of_fresh {kind : AggregateKind} {column : String} {input : Option ColumnType}
    (h : fresh kind column input = .ok a) : a.isOverRows = kind.isOverRows := by
  unfold fresh at h
  cases input with
  | none =>
      cases kind <;> simp [AggregateKind.isOverRows] at h ⊢
      obtain rfl := h
      rfl
  | some type =>
      cases kind <;> simp only [AggregateKind.isOverRows, Bool.false_eq_true, if_true, if_false,
        Except.ok.injEq] at h ⊢ <;> subst h <;> try rfl
      split <;> rfl

theorem update_eq_add (h : v ≠ .null) (a : Accumulator) : a.update v = a.add v := by
  have hpresent : v.isNull = false := Bool.eq_false_iff.mpr (mt Value.isNull_iff.mp h)
  simp [update, hpresent]

/-! ### One update in place -/

/-- A step that succeeds hands on its value. -/
@[simp] theorem liftM_ok_bind {α β : Type} (x : α) (next : α → InPlace β) :
    (liftM (Except.ok x : Except Error α) >>= next) = next x := rfl

/-- **All or nothing**: the changes of an update are all made, or it fails before the first. -/
theorem run_write (a : Accumulator) (v : Value) :
    (write v a).run.run a = ((a.add v).map fun _ => (), (a.add v).toOption.getD a) := by
  cases a with
  | rows n => rfl
  | values n => rfl
  | distinct seen =>
      rw [write, add]
      cases seen.contains ⟨v⟩ <;> rfl
  | integerSum o sum =>
      rw [write, add]
      cases o.integer v with
      | error e => rfl
      | ok n =>
          rw [liftM_ok_bind]
          by_cases h : fitsInt64 (sum.getD 0 + n)
          · simp [h, bind, Except.bind]
            rfl
          · simp [h, bind, Except.bind]
            rfl
  | floatSum o sum =>
      rw [write, add]
      cases o.number v <;> rfl
  | mean o sum n =>
      rw [write, add]
      cases o.number v <;> rfl
  | extreme o better best =>
      simp only [write, add]
      cases o.check v with
      | error e => rfl
      | ok _ =>
          cases best with
          | none => rfl
          | some best =>
              by_cases h : v.order best = better
              · simp [h]
                rfl
              · simp [h]
                rfl
  | moments o root n centre spread =>
      rw [write, add]
      cases o.number v <;> rfl

/-- What an offer reports and leaves behind, by the update of the state. -/
theorem offer_eq (a : Accumulator) (v : Value) :
    a.offer v = ((a.update v).map fun _ => (), (a.update v).toOption.getD a) := by
  unfold offer update
  split
  · rfl
  · exact run_write a v

theorem offer_of_update (h : a.update v = .ok b) : a.offer v = (.ok (), b) := by
  rw [offer_eq, h]
  rfl

theorem offer_of_update_error (h : a.update v = .error e) : a.offer v = (.error e, a) := by
  rw [offer_eq, h]
  rfl

/-- Null is passed over. -/
theorem offer_null (h : a.isOverRows = false) : a.offer .null = (.ok (), a) :=
  offer_of_update (by simp [update, h])

theorem isOverRows_offer (a : Accumulator) (v : Value) :
    (a.offer v).2.isOverRows = a.isOverRows := by
  cases h : a.update v with
  | error e => rw [offer_of_update_error h]
  | ok b =>
      rw [offer_of_update h]
      exact isOverRows_of_update h

/-! ### Sequences of values -/

/-- The values that are taken up when some are offered one after the other: those that are not null
and whose update succeeds in the state that has been reached by then. -/
def accepted (a : Accumulator) : List Value → List Value
  | [] => []
  | v :: vs =>
    if !v.isNull && (a.offer v).1.isOk then v :: (a.offer v).2.accepted vs
    else (a.offer v).2.accepted vs

@[simp] theorem after_nil (a : Accumulator) : a.after [] = a := rfl

@[simp] theorem after_cons (a : Accumulator) (v : Value) (vs : List Value) :
    a.after (v :: vs) = (a.offer v).2.after vs := rfl

@[simp] theorem after_append (a : Accumulator) (vs ws : List Value) :
    a.after (vs ++ ws) = (a.after vs).after ws :=
  List.foldl_append

/-- What is not accepted is null or refused, and changes nothing. -/
theorem offer_of_not_accepted (hcolumn : a.isOverRows = false)
    (h : (!v.isNull && (a.offer v).1.isOk) = false) : (a.offer v).2 = a := by
  rw [Bool.and_eq_false_iff, Bool.not_eq_false'] at h
  rcases h with hnull | hrefused
  · rw [Value.isNull_iff.mp hnull, offer_null hcolumn]
  · cases hupdate : a.update v with
    | error e => rw [offer_of_update_error hupdate]
    | ok b => simp [offer_of_update hupdate, Except.isOk, Except.toBool] at hrefused

/-- What was refused or null can be left out. -/
theorem after_accepted (hcolumn : a.isOverRows = false) (vs : List Value) :
    a.after (a.accepted vs) = a.after vs := by
  induction vs generalizing a with
  | nil => rfl
  | cons v vs ih =>
      have hnext : (a.offer v).2.isOverRows = false := (isOverRows_offer a v).trans hcolumn
      rw [accepted]
      split
      · rw [after_cons, after_cons, ih hnext]
      · rename_i hnot
        rw [after_cons, offer_of_not_accepted hcolumn (Bool.eq_false_iff.mpr hnot), ih hcolumn]

/-- What has been accepted among others is accepted by itself. -/
theorem accepted_accepted (hcolumn : a.isOverRows = false) (vs : List Value) :
    a.accepted (a.accepted vs) = a.accepted vs := by
  induction vs generalizing a with
  | nil => rfl
  | cons v vs ih =>
      have hnext : (a.offer v).2.isOverRows = false := (isOverRows_offer a v).trans hcolumn
      rw [accepted]
      split
      · rename_i hv
        rw [accepted, if_pos hv, ih hnext]
      · rename_i hnot
        rw [offer_of_not_accepted hcolumn (Bool.eq_false_iff.mpr hnot), ih hcolumn]

/-- **Null and refused values leave no trace** in the accumulator of an aggregate over a column.
After any values, and after each of them, its result is the one due to those that were accepted,
each of which is accepted also without the others. A refused value changes nothing that is reported
later. -/
theorem result_after_accepted {kind : AggregateKind} {column : String} {input : Option ColumnType}
    (hkind : kind ≠ .countRows) (hfresh : fresh kind column input = .ok a) (vs : List Value) :
    (∀ n, (a.after (vs.take n)).result = (a.after (a.accepted (vs.take n))).result) ∧
      a.accepted (a.accepted vs) = a.accepted vs ∧
      ∀ earlier v later e, ((a.after earlier).offer v).1 = .error e →
        (a.after (earlier ++ [v])).reports later = (a.after earlier).reports later ∧
        (a.after (earlier ++ v :: later)).result = (a.after (earlier ++ later)).result := by
  have hcolumn : a.isOverRows = false := by
    rw [isOverRows_of_fresh hfresh]
    cases kind <;> first | rfl | exact absurd rfl hkind
  refine ⟨fun n => by rw [after_accepted hcolumn], accepted_accepted hcolumn vs, ?_⟩
  intro earlier v later e hrefused
  have hkept : ((a.after earlier).offer v).2 = a.after earlier := by
    cases hupdate : (a.after earlier).update v with
    | error e => rw [offer_of_update_error hupdate]
    | ok b => simp [offer_of_update hupdate] at hrefused
  constructor
  · rw [after_append, after_cons, after_nil, hkept]
  · rw [after_append, after_append, after_cons, hkept]

/-- A sum of integers that has been offered a value too many, null and a text goes on from where it
was. -/
theorem result_after_accepted_cents :
    ∃ a, fresh .sum "cents" (some .int64) = .ok a ∧
      a.reports [.int64 Int64.maxValue, .int64 1, .null, .text "7", .int64 (-5)] =
        [.ok (.int64 Int64.maxValue), .error (.sumOverflow "cents"), .ok (.int64 Int64.maxValue),
          .error (.typeMismatch "cents" .int64 "Utf8"), .ok (.int64 (Int64.maxValue - 5))] ∧
      (a.after [.int64 Int64.maxValue, .int64 1, .null, .text "7", .int64 (-5)]).result =
        (a.after [.int64 Int64.maxValue, .int64 (-5)]).result := by
  obtain ⟨a, hfresh⟩ : ∃ a, fresh .sum "cents" (some .int64) = .ok a := ⟨_, rfl⟩
  have htrace := (result_after_accepted (by decide) hfresh
    [.int64 Int64.maxValue, .int64 1, .null, .text "7", .int64 (-5)]).1 5
  cases hfresh
  exact ⟨_, rfl, by decide, htrace⟩

end Accumulator

end RelQuery
