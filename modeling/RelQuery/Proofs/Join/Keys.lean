import RelQuery.Pipeline.Matcher
import RelQuery.Proofs.Relation.Lookup
import RelQuery.Proofs.Row.Conform

/-!
# RelQuery.Proofs.Join.Keys

**A lookup by the leading sort columns finds the matching rows.**

An equi-join matches two rows in pairs of columns, while a sorted table is looked up by a key for
its leading sort columns. If these are the right-hand join columns, in whatever order and direction
(`Serves`), the key that `Matcher.probeFor` reads from a left-hand row holds, for each leading sort
column, the value of the left-hand column that it is paired with (`mem_leading_iff`). So the rows
that hold the key are those that match (`compareKey_probe_iff`).
-/

namespace RelQuery

namespace RowOrder

/-- Each key of a resolved order has the position of its column. -/
theorem resolve_eq_ok {schema : Schema} {keys : List SortKey} {order : RowOrder}
    (h : resolve schema keys = .ok order) :
    List.Forall₂ (fun k p => schema.require k.column = .ok p.1) keys order.keys := by
  unfold resolve at h
  obtain ⟨positions, hpositions, h⟩ := bind_eq_ok_iff.mp h
  obtain rfl := pure_eq_ok_iff.mp h
  refine (mapM_eq_ok_iff.mp hpositions).imp fun k p hp => ?_
  obtain ⟨i, hi, hp⟩ := bind_eq_ok_iff.mp hp
  obtain rfl := pure_eq_ok_iff.mp hp
  exact hi

/-- An order resolves to the same positions in a schema that fits. -/
theorem resolve_of_fits {s t : Schema} (hfits : s.fits t = true) {keys : List SortKey}
    {order : RowOrder} : resolve s keys = .ok order ↔ resolve t keys = .ok order := by
  unfold resolve
  simp only [bind_eq_ok_iff, pure_eq_ok_iff, mapM_eq_ok_iff, Schema.require_of_fits hfits]

/-- An order resolves if its columns exist. -/
theorem exists_resolve_eq_ok {schema : Schema} {keys : List SortKey}
    (h : ∀ k ∈ keys, ∃ i, schema.require k.column = .ok i) :
    ∃ order, resolve schema keys = .ok order := by
  unfold resolve
  obtain ⟨positions, hpositions⟩ := exists_mapM_eq_ok
    (f := fun k : SortKey => do return ((← schema.require k.column), k.descending)) fun k hk => by
      obtain ⟨i, hi⟩ := h k hk
      exact ⟨(i, k.descending), by rw [hi]; rfl⟩
  exact ⟨⟨positions⟩, by rw [hpositions]; rfl⟩

end RowOrder

namespace JoinKeys

/-- The positions of the join columns in the two schemas, pair by pair, no right-hand column twice.
-/
structure Resolved (k : JoinKeys) (left right : Schema) : Prop where
  /-- There is a pair of positions for each pair of columns. -/
  positions : List.Forall₂
    (fun pair p => left.require pair.1 = .ok p.1 ∧ right.require pair.2 = .ok p.2)
    k.pairs (k.left.zip k.right)
  /-- There are as many positions on either side. -/
  length : k.left.length = k.right.length
  /-- No right-hand column takes part in two pairs. -/
  nodup : (k.pairs.map Prod.snd).Nodup

/-- A pair of columns is found if both exist and have one type. -/
theorem resolvePair_eq_ok_iff {left right : Schema} {pair : String × String} {p : Nat × Nat} :
    resolvePair left right pair = .ok p ↔
      left.require pair.1 = .ok p.1 ∧ right.require pair.2 = .ok p.2 ∧
        ∃ a b, left.columnNamed pair.1 = .ok a ∧ right.columnNamed pair.2 = .ok b ∧
          a.type = b.type := by
  obtain ⟨l, r⟩ := pair
  obtain ⟨i, j⟩ := p
  unfold resolvePair
  simp only [bind_eq_ok_iff]
  constructor
  · rintro ⟨i', hi, j', hj, a, ha, b, hb, h⟩
    by_cases htype : a.type = b.type
    · rw [if_pos htype] at h
      obtain ⟨rfl, rfl⟩ := Prod.mk.inj (pure_eq_ok_iff.mp h)
      exact ⟨hi, hj, a, b, ha, hb, htype⟩
    · rw [if_neg htype] at h
      simp at h
  · rintro ⟨hi, hj, a, b, ha, hb, htype⟩
    exact ⟨i, hi, j, hj, a, ha, b, hb, by rw [if_pos htype]; rfl⟩

/-- A list of pairs is found if each of them is and none has a column that has been seen. -/
theorem resolvePairs_eq_ok_iff {left right : Schema} {pairs : List (String × String)}
    {lefts rights : List String} {positions : List (Nat × Nat)} :
    resolvePairs left right lefts rights pairs = .ok positions ↔
      List.Forall₂ (fun pair p => resolvePair left right pair = .ok p) pairs positions ∧
        Unseen lefts (pairs.map Prod.fst) ∧ Unseen rights (pairs.map Prod.snd) := by
  induction pairs generalizing lefts rights positions with
  | nil => simp [resolvePairs, Unseen, eq_comm]
  | cons pair pairs ih =>
      obtain ⟨l, r⟩ := pair
      rw [List.map_cons, List.map_cons, unseen_cons_iff, unseen_cons_iff, resolvePairs]
      by_cases hseen : l ∈ lefts ∨ r ∈ rights
      · simp only [hseen, Bool.or_eq_true, decide_eq_true_eq, if_true]
        refine iff_of_false (by simp) ?_
        rintro ⟨-, ⟨hl, -⟩, hr, -⟩
        exact hseen.elim hl hr
      · simp only [Bool.or_eq_true, decide_eq_true_eq, hseen, if_false, bind_eq_ok_iff,
          pure_eq_ok_iff, ih]
        rw [not_or] at hseen
        constructor
        · rintro ⟨p, hp, ps, ⟨hps, hl, hr⟩, rfl⟩
          exact ⟨List.Forall₂.cons hp hps, ⟨hseen.1, hl⟩, hseen.2, hr⟩
        · rintro ⟨h, ⟨-, hl⟩, -, hr⟩
          cases h with
          | cons hp hps => exact ⟨_, hp, _, ⟨hps, hl, hr⟩, rfl⟩

/-- What a resolved equi-join is made of. -/
theorem resolve_eq_ok_iff {left right : Schema} {pairs : List (String × String)} {k : JoinKeys} :
    resolve left right pairs = .ok k ↔
      pairs ≠ [] ∧ k.pairs = pairs ∧ k.left.length = k.right.length ∧
        List.Forall₂ (fun pair p => resolvePair left right pair = .ok p)
          pairs (k.left.zip k.right) ∧
        (pairs.map Prod.fst).Nodup ∧ (pairs.map Prod.snd).Nodup := by
  obtain ⟨ps, ls, rs⟩ := k
  unfold resolve
  cases pairs with
  | nil => simp
  | cons pair pairs =>
      simp only [List.isEmpty_cons, Bool.false_eq_true, if_false, bind_eq_ok_iff, pure_eq_ok_iff,
        resolvePairs_eq_ok_iff, unseen_nil_iff, JoinKeys.mk.injEq]
      constructor
      · rintro ⟨positions, ⟨hpositions, hl, hr⟩, rfl, rfl, rfl⟩
        refine ⟨by simp, rfl, by simp, ?_, hl, hr⟩
        rw [← List.zip_of_prod rfl rfl]
        exact hpositions
      · rintro ⟨-, rfl, hlength, hpositions, hl, hr⟩
        refine ⟨ls.zip rs, ⟨hpositions, hl, hr⟩, rfl, ?_, ?_⟩
        · exact List.map_fst_zip (Nat.le_of_eq hlength)
        · exact List.map_snd_zip (Nat.le_of_eq hlength.symm)

theorem resolve_resolved {left right : Schema} {pairs : List (String × String)} {k : JoinKeys}
    (h : resolve left right pairs = .ok k) : k.Resolved left right := by
  obtain ⟨-, hpairs, hlength, hpositions, -, hnodup⟩ := resolve_eq_ok_iff.mp h
  refine ⟨?_, hlength, hpairs ▸ hnodup⟩
  rw [hpairs]
  refine hpositions.imp fun pair p hp => ?_
  obtain ⟨hl, hr, -⟩ := resolvePair_eq_ok_iff.mp hp
  exact ⟨hl, hr⟩

/-- The resolved pairs are the given ones. -/
theorem pairs_of_resolve {left right : Schema} {pairs : List (String × String)} {k : JoinKeys}
    (h : resolve left right pairs = .ok k) : k.pairs = pairs :=
  (resolve_eq_ok_iff.mp h).2.1

variable {k : JoinKeys} {left right : Schema} {sortKeys : List SortKey}

/-- Two rows match if in each pair of columns they hold the same value, which is not null. That the
right-hand value is not null follows: it is the same as one that is not. -/
theorem matched_iff {l r : Row} : k.matched l r = true ↔
    ∀ p ∈ k.left.zip k.right, (l.cell p.1).isNull = false ∧ (r.cell p.2).isNull = false ∧
      (l.cell p.1).same (r.cell p.2) = true := by
  rw [matched, List.all_eq_true]
  simp only [Bool.and_eq_true, Bool.not_eq_true']
  constructor
  · intro h p hp
    obtain ⟨hnull, hsame⟩ := h p hp
    exact ⟨hnull, Value.isNull_eq_of_same hsame ▸ hnull, hsame⟩
  · intro h p hp
    obtain ⟨hnull, -, hsame⟩ := h p hp
    exact ⟨hnull, hsame⟩

/-! ### Leading sort columns -/

/-- The leading sort columns are the right-hand join columns, in some order. -/
def Serves (k : JoinKeys) (sortKeys : List SortKey) : Prop :=
  ∀ name, name ∈ (sortKeys.take k.pairs.length).map SortKey.column ↔ name ∈ k.pairs.map Prod.snd

theorem serves_of_covers (h : Matcher.covers sortKeys k = true) : k.Serves sortKeys := by
  simp only [Matcher.covers, Bool.and_eq_true, List.all_eq_true, List.contains_iff_mem] at h
  exact fun name => ⟨h.1.2 name, h.2 name⟩

/-- Sorting by the join columns themselves serves the join. -/
theorem serves_ascending (k : JoinKeys) :
    k.Serves (k.pairs.map fun (_, r) => SortKey.ascending r) := by
  intro name
  rw [List.take_of_length_le (by simp), List.map_map]
  rfl

/-- The position of the left-hand column that a right-hand column is paired with. -/
def partner? (k : JoinKeys) (name : String) : Option Nat :=
  ((k.pairs.map Prod.snd).zip k.left).lookup name

/-- In lists of one length every element stands opposite another. -/
theorem exists_mem_zip_of_mem_left {α β : Type} {as : List α} {bs : List β}
    (hlength : as.length = bs.length) {a : α} (h : a ∈ as) : ∃ b, (a, b) ∈ as.zip bs := by
  rw [← List.map_fst_zip (Nat.le_of_eq hlength)] at h
  obtain ⟨⟨a', b⟩, hmem, rfl⟩ := List.mem_map.mp h
  exact ⟨b, hmem⟩

theorem exists_mem_zip_of_mem_right {α β : Type} {as : List α} {bs : List β}
    (hlength : as.length = bs.length) {b : β} (h : b ∈ bs) : ∃ a, (a, b) ∈ as.zip bs := by
  rw [← List.map_snd_zip (Nat.le_of_eq hlength.symm)] at h
  obtain ⟨⟨a, b'⟩, hmem, rfl⟩ := List.mem_map.mp h
  exact ⟨a, hmem⟩

/-- In a list of pairs that does not repeat a name, a name finds every pair it stands in. -/
theorem lookup_zip_iff {names : List String} {positions : List Nat} (hnodup : names.Nodup)
    {name : String} {i : Nat} :
    (names.zip positions).lookup name = some i ↔ (name, i) ∈ names.zip positions := by
  induction names generalizing positions with
  | nil => simp
  | cons n names ih =>
      cases positions with
      | nil => simp
      | cons p positions =>
          obtain ⟨hn, hnodup⟩ := List.nodup_cons.mp hnodup
          rw [List.zip_cons_cons, List.lookup_cons, List.mem_cons]
          by_cases h : name = n
          · -- The name stands in the first pair and, as it is not repeated, in no other.
            subst h
            have hrest : (name, i) ∉ names.zip positions := fun hmem => hn (List.of_mem_zip hmem).1
            simp [hrest, eq_comm]
          · have hname : (name == n) = false := by simpa using h
            simp [hname, h, ih hnodup]

variable {l r : Row} {i j : Nat}

/-- The partner of a join column stands with it in a pair of positions. -/
theorem Resolved.of_partner (h : k.Resolved left right) {name : String}
    (hpartner : k.partner? name = some i) :
    ∃ j, right.require name = .ok j ∧ (i, j) ∈ k.left.zip k.right := by
  have hleft : k.left = (k.left.zip k.right).map Prod.fst :=
    (List.map_fst_zip (Nat.le_of_eq h.length)).symm
  rw [partner?, lookup_zip_iff h.nodup, hleft, List.zip_map, List.mem_map] at hpartner
  obtain ⟨⟨pair, p⟩, hmem, heq⟩ := hpartner
  obtain ⟨rfl, rfl⟩ := Prod.mk.inj heq
  exact ⟨p.2, ((List.forall₂_iff_zip.mp h.positions).2 hmem).2, (List.of_mem_zip hmem).2⟩

/-- A pair of positions belongs to its right-hand column and the partner of that. -/
theorem Resolved.partner_of_mem (h : k.Resolved left right) {pair : String × String} {p : Nat × Nat}
    (hmem : (pair, p) ∈ k.pairs.zip (k.left.zip k.right)) :
    k.partner? pair.2 = some p.1 ∧ right.require pair.2 = .ok p.2 := by
  have hleft : k.left = (k.left.zip k.right).map Prod.fst :=
    (List.map_fst_zip (Nat.le_of_eq h.length)).symm
  refine ⟨?_, ((List.forall₂_iff_zip.mp h.positions).2 hmem).2⟩
  rw [partner?, lookup_zip_iff h.nodup, hleft, List.zip_map]
  exact List.mem_map.mpr ⟨_, hmem, rfl⟩

theorem Resolved.exists_partner (h : k.Resolved left right) {name : String}
    (hname : name ∈ k.pairs.map Prod.snd) : ∃ i, k.partner? name = some i := by
  obtain ⟨pair, hpair, rfl⟩ := List.mem_map.mp hname
  obtain ⟨p, hmem⟩ := exists_mem_zip_of_mem_left (List.Forall₂.length_eq h.positions) hpair
  exact ⟨p.1, (h.partner_of_mem hmem).1⟩

/-- The join columns themselves can be sorted by. -/
theorem Resolved.exists_resolve (h : k.Resolved left right) {s : Schema}
    (hfits : s.fits right = true) :
    ∃ order, RowOrder.resolve s (k.pairs.map fun (_, r) => SortKey.ascending r) = .ok order := by
  refine RowOrder.exists_resolve_eq_ok fun key hkey => ?_
  obtain ⟨pair, hpair, rfl⟩ := List.mem_map.mp hkey
  obtain ⟨p, hmem⟩ := exists_mem_zip_of_mem_left (List.Forall₂.length_eq h.positions) hpair
  exact ⟨p.2, (Schema.require_of_fits hfits).mpr (h.partner_of_mem hmem).2⟩

/-- Where the sort keys serve, the leading sort columns with their partners are the pairs of the
join. -/
theorem Resolved.mem_leading_iff (h : k.Resolved left right) (hserves : k.Serves sortKeys) :
    (∃ key ∈ sortKeys.take k.pairs.length,
        k.partner? key.column = some i ∧ right.require key.column = .ok j) ↔
      (i, j) ∈ k.left.zip k.right := by
  constructor
  · rintro ⟨key, -, hpartner, hj⟩
    obtain ⟨j', hj', hmem⟩ := h.of_partner hpartner
    obtain rfl : j = j' := Except.ok.inj (hj.symm.trans hj')
    exact hmem
  · intro hmem
    obtain ⟨pair, hpair⟩ := exists_mem_zip_of_mem_right (List.Forall₂.length_eq h.positions) hmem
    obtain ⟨hpartner, hj⟩ := h.partner_of_mem hpair
    have hname := List.mem_map_of_mem (f := Prod.snd) (List.of_mem_zip hpair).1
    obtain ⟨key, hkey, heq⟩ := List.mem_map.mp ((hserves pair.2).mpr hname)
    exact ⟨key, hkey, heq ▸ hpartner, heq ▸ hj⟩

theorem probeFor_eq : Matcher.probeFor sortKeys k =
    (sortKeys.take k.pairs.length).filterMap fun key => k.partner? key.column := rfl

/-- A probe reads the left-hand join columns. -/
theorem Resolved.mem_probeFor_iff (h : k.Resolved left right) (hserves : k.Serves sortKeys) :
    i ∈ Matcher.probeFor sortKeys k ↔ ∃ j, (i, j) ∈ k.left.zip k.right := by
  rw [probeFor_eq, List.mem_filterMap]
  constructor
  · rintro ⟨key, -, hpartner⟩
    obtain ⟨j, -, hmem⟩ := h.of_partner hpartner
    exact ⟨j, hmem⟩
  · rintro ⟨j, hmem⟩
    obtain ⟨key, hkey, hpartner, -⟩ := (h.mem_leading_iff hserves).mpr hmem
    exact ⟨key, hkey, hpartner⟩

/-- A row holds the key read by a probe if each leading sort column has the value of its partner. -/
theorem compareKeyBy_probe_iff {keys : List SortKey} {positions : List (Nat × Bool)}
    (hresolved : List.Forall₂ (fun key p => right.require key.column = .ok p.1) keys positions)
    (n : Nat) (hpartner : ∀ key ∈ keys.take n, ∃ i, k.partner? key.column = some i) :
    RowOrder.compareKeyBy positions r
        (((keys.take n).filterMap fun key => k.partner? key.column).map l.cell) = .eq ↔
      ∀ key ∈ keys.take n, ∀ i j, k.partner? key.column = some i →
        right.require key.column = .ok j → (l.cell i).same (r.cell j) = true := by
  induction hresolved generalizing n with
  | nil => simp [RowOrder.compareKeyBy]
  | @cons key p keys positions hp _ ih =>
      cases n with
      | zero => simp [RowOrder.compareKeyBy]
      | succ n =>
          rw [List.take_succ_cons, List.forall_mem_cons] at hpartner
          obtain ⟨⟨i, hi⟩, hrest⟩ := hpartner
          rw [List.take_succ_cons, List.forall_mem_cons, List.filterMap_cons, hi, ← ih n hrest]
          simp only [List.map_cons, RowOrder.compareKeyBy, Ordering.then_eq_eq,
            RowOrder.directed_eq_eq_iff, Option.some.injEq]
          refine and_congr_left fun _ => ?_
          rw [Value.same_comm]
          constructor
          · rintro hsame i' j' rfl hj
            obtain rfl : p.1 = j' := Except.ok.inj (hp.symm.trans hj)
            exact hsame
          · exact fun h => h i p.1 rfl hp

/-- The rows that hold the key read from a left-hand row are those that match it, as long as no
value of the key is null. -/
theorem Resolved.compareKey_probe_iff (h : k.Resolved left right) (hserves : k.Serves sortKeys)
    {order : RowOrder}
    (horder : List.Forall₂ (fun key p => right.require key.column = .ok p.1) sortKeys order.keys)
    (hnull : ((l.pick (Matcher.probeFor sortKeys k)).any Value.isNull) = false) :
    order.compareKey r (l.pick (Matcher.probeFor sortKeys k)) = .eq ↔ k.matched l r = true := by
  have hpartner : ∀ key ∈ sortKeys.take k.pairs.length, ∃ i, k.partner? key.column = some i :=
    fun key hkey => h.exists_partner ((hserves key.column).mp (List.mem_map_of_mem hkey))
  rw [RowOrder.compareKey, Row.pick, probeFor_eq, compareKeyBy_probe_iff horder _ hpartner,
    matched, List.all_eq_true]
  constructor
  · rintro hsame ⟨i, j⟩ hmem
    obtain ⟨key, hkey, hi, hj⟩ := (h.mem_leading_iff hserves).mpr hmem
    have hprobe := (h.mem_probeFor_iff hserves).mpr ⟨j, hmem⟩
    have hcell := List.any_eq_false.mp hnull (l.cell i) (List.mem_map_of_mem hprobe)
    simp only [Bool.and_eq_true, Bool.not_eq_true']
    exact ⟨Bool.eq_false_iff.mpr hcell, hsame key hkey i j hi hj⟩
  · intro hall key hkey i j hi hj
    have hmem := (h.mem_leading_iff hserves).mp ⟨key, hkey, hi, hj⟩
    exact (Bool.and_eq_true_iff.mp (hall (i, j) hmem)).2

/-- A left-hand row with a null in the key matches nothing. -/
theorem Resolved.not_matched_of_null (h : k.Resolved left right) (hserves : k.Serves sortKeys)
    (hnull : ((l.pick (Matcher.probeFor sortKeys k)).any Value.isNull) = true) :
    k.matched l r = false := by
  rw [Row.pick, List.any_map, List.any_eq_true] at hnull
  obtain ⟨i, hi, hnull⟩ := hnull
  obtain ⟨j, hmem⟩ := (h.mem_probeFor_iff hserves).mp hi
  rw [matched, List.all_eq_false]
  refine ⟨(i, j), hmem, ?_⟩
  have hcell : (l.cell i).isNull = true := hnull
  simp [hcell]

end JoinKeys

namespace Join

variable {left right : Schema} {type : JoinType} {condition : JoinCondition} {j : Join}

/-- What a planned join is made of. -/
theorem plan_eq_ok (hplan : plan left right type condition = .ok j) :
    j.left = left ∧ j.right = right ∧ j.type = type ∧
      planRule left right condition = .ok j.rule ∧ outputSchema left right type = .ok j.schema := by
  obtain ⟨rule, hrule, hplan⟩ := bind_eq_ok_iff.mp hplan
  obtain ⟨schema, hschema, hplan⟩ := bind_eq_ok_iff.mp hplan
  obtain rfl := pure_eq_ok_iff.mp hplan
  exact ⟨rfl, rfl, rfl, hrule, hschema⟩

/-- The columns of a planned equi-join have been found. -/
theorem resolved_of_plan (hplan : plan left right type condition = .ok j) {k : JoinKeys}
    (hkeys : j.keys? = some k) : k.Resolved j.left j.right := by
  obtain ⟨rfl, rfl, -, hrule, -⟩ := plan_eq_ok hplan
  unfold keys? at hkeys
  split at hkeys
  · rename_i k' hequi
    obtain rfl := Option.some.inj hkeys
    rw [hequi] at hrule
    cases condition with
    | cross => simp [planRule] at hrule
    | theta p => simp [planRule] at hrule
    | equi pairs =>
        obtain ⟨keys, hresolve, hrule⟩ := bind_eq_ok_iff.mp hrule
        obtain rfl := JoinRule.equi.inj (pure_eq_ok_iff.mp hrule)
        exact JoinKeys.resolve_resolved hresolve
  · simp at hkeys

end Join

end RelQuery
