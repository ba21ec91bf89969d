import RelQuery.Proofs.Grouping.GroupBy
import Std.Data.HashMap.Lemmas

/-!
# RelQuery.Proofs.Grouping.Arena

**The arena keeps every group's accumulators in its place.**

`Arena.Tracks` is the invariant of a pass over the input. It ties the three parts of the arena to
the rows seen so far: the index has the position of every key, the keys stand in the order of their
first occurrences, and the slots are the accumulators of the groups one block behind the other. A
row first makes sure that its key has a block (`groupFor_tracks`) and then changes this block only
(`feedSlots_tracks`); `addItems_tracks` is the whole pass, with the error that ends it.
-/

namespace RelQuery

/-! ### Blocks of one length -/

section Blocks

variable {α : Type} {width : Nat}

theorem length_flatten_of_width {blocks : List (List α)} (h : ∀ b ∈ blocks, b.length = width) :
    blocks.flatten.length = blocks.length * width := by
  induction blocks with
  | nil => simp
  | cons b blocks ih =>
      rw [List.flatten_cons, List.length_append, h b List.mem_cons_self,
        ih fun b hb => h b (List.mem_cons_of_mem _ hb), List.length_cons, Nat.succ_mul,
        Nat.add_comm]

/-- The slots before a block, the block, and the slots behind it. -/
theorem flatten_eq_of_getElem? {blocks : List (List α)} {n : Nat} {b : List α}
    (h : blocks[n]? = some b) :
    blocks.flatten = (blocks.take n).flatten ++ b ++ (blocks.drop (n + 1)).flatten := by
  obtain ⟨hlt, rfl⟩ := List.getElem?_eq_some_iff.mp h
  conv =>
    lhs
    rw [← List.take_append_drop n blocks, List.drop_eq_getElem_cons hlt, List.flatten_append,
      List.flatten_cons]
  rw [List.append_assoc]

theorem length_flatten_take {blocks : List (List α)} {n : Nat}
    (h : ∀ b ∈ blocks, b.length = width) (hn : n ≤ blocks.length) :
    (blocks.take n).flatten.length = n * width := by
  rw [length_flatten_of_width fun b hb => h b (List.mem_of_mem_take hb), List.length_take,
    Nat.min_eq_left hn]

end Blocks

namespace Grouping

/-- Feeding a row to the slots from a position on feeds it to the accumulators that stand there and
leaves the others alone. -/
theorem feedSlots_eq (row : Row) : ∀ (positions : List (Option Nat))
    {before block behind : List Accumulator} {slots : Array Accumulator},
    slots.toList = before ++ block ++ behind → block.length = positions.length →
      (feedSlots row before.length positions slots).map Array.toList =
        (feedAll row block positions).map (before ++ · ++ behind)
  | [], before, block, behind, slots, hslots, hlength => by
      obtain rfl := List.length_eq_zero_iff.mp hlength
      rw [feedSlots, feedAll, List.zip_nil_right, List.mapM_nil]
      exact congrArg Except.ok hslots
  | position :: positions, before, [], behind, slots, _, hlength => by simp at hlength
  | position :: positions, before, a :: block, behind, slots, hslots, hlength => by
      have hget : slots[before.length]? = some a := by
        rw [← Array.getElem?_toList, hslots, List.append_assoc, List.getElem?_append_right
          (Nat.le_refl _), Nat.sub_self]
        rfl
      rw [feedSlots, feedAll, List.zip_cons_cons, List.mapM_cons]
      simp only [hget]
      cases ha : a.feed position row with
      | error e => rfl
      | ok b =>
          have hset : (slots.setIfInBounds before.length b).toList =
              (before ++ [b]) ++ block ++ behind := by
            rw [Array.toList_setIfInBounds, hslots, List.append_assoc, List.set_append_right _ _
              (Nat.le_refl _), Nat.sub_self]
            simp
          have ih := feedSlots_eq row positions hset (Nat.succ.inj hlength)
          rw [List.length_append, List.length_singleton] at ih
          refine ih.trans ?_
          unfold feedAll
          cases (block.zip positions).mapM fun p => p.1.feed p.2 row with
          | error e => rfl
          | ok block' => exact congrArg Except.ok (by simp)

end Grouping

/-- The arena of some rows, whose keys are these. -/
structure Arena.Tracks (g : Grouping) (rows : List Row) (keys : List GroupKey)
    (arena : Arena) : Prop where
  /-- The index has the position of each key. -/
  index : ∀ key : GroupKey, arena.index[key]? = keys.findIdx? (· == key)
  /-- The keys stand in order. -/
  keys_eq : arena.keys.toList = keys
  /-- The slots are the accumulators of the groups in the order of the keys. -/
  slots : ∃ blocks, arena.slots.toList = blocks.flatten ∧
    List.Forall₂ (fun key block => g.accumulators (g.members rows key) = .ok block) keys blocks

namespace Grouping

variable {g : Grouping} {rows : List Row} {row : Row} {keys : List GroupKey} {arena : Arena}

/-- No rows have no keys. -/
theorem tracks_empty (g : Grouping) : Arena.empty.Tracks g [] [] where
  index := fun key => by simp [Arena.empty]
  keys_eq := rfl
  slots := ⟨[], rfl, List.Forall₂.nil⟩

/-- Opening a group puts a new key and a block of fresh accumulators behind the others. -/
theorem openGroup_tracks {key : GroupKey} {fresh : List Accumulator}
    (h : arena.Tracks g rows keys) (hnew : keys.any (· == key) = false)
    (hmembers : g.members rows key = []) (hfresh : g.freshAccumulators = .ok fresh) :
    ∃ arena', g.openGroup arena key = .ok arena' ∧ arena'.Tracks g rows (keys ++ [key]) := by
  obtain ⟨blocks, hslots, hblocks⟩ := h.slots
  refine ⟨_, by rw [openGroup, hfresh]; rfl, ?_, ?_, ?_⟩
  · intro key'
    have hsize : arena.keys.size = keys.length := by
      rw [← Array.length_toList, h.keys_eq]
    rw [Std.HashMap.getElem?_insert, List.findIdx?_append, h.index, hsize]
    cases hkey : key == key' with
    | false => simp [List.findIdx?_cons, hkey]
    | true =>
        have hnone : keys.findIdx? (· == key') = none := by
          rw [List.findIdx?_eq_none_iff]
          intro k hk
          rw [← BEq.congr_right hkey]
          exact Bool.eq_false_iff.mpr (List.any_eq_false.mp hnew k hk)
        simp [hnone, List.findIdx?_cons, hkey]
  · simp [h.keys_eq]
  · refine ⟨blocks ++ [fresh], by simp [hslots], ?_⟩
    refine List.rel_append hblocks (List.Forall₂.cons ?_ List.Forall₂.nil)
    rw [hmembers, accumulators_nil, hfresh]

/-- What a pass needs of a grouping: a position for each aggregate, and fresh accumulators. -/
structure Ready (g : Grouping) : Prop where
  /-- Each aggregate has a position. -/
  positions : g.inputPositions.length = g.aggregates.length
  /-- Fresh accumulators can be made. -/
  fresh : ∃ block, g.freshAccumulators = .ok block

theorem Ready.map_columns (h : g.Ready) : g.columns.map Prod.snd = g.inputPositions := by
  rw [columns, List.map_snd_zip (Nat.le_of_eq h.positions)]

theorem Ready.length_columns (h : g.Ready) : g.columns.length = g.slotsPerGroup := by
  rw [columns, List.length_zip, h.positions, Nat.min_self]
  rfl

/-- The group of a row has a position, where a key equal to that of the row stands. -/
theorem groupFor_tracks (hready : g.Ready) (h : arena.Tracks g rows (g.keysOf rows)) (row : Row) :
    ∃ n arena' key, g.groupFor arena (g.keyOf row) = .ok (n, arena') ∧
      arena'.Tracks g rows (g.keysOf (rows ++ [row])) ∧
      (g.keysOf (rows ++ [row]))[n]? = some key ∧ (g.keyOf row == key) = true := by
  rw [keysOf_append]
  unfold groupFor
  cases hindex : arena.index[g.keyOf row]? with
  | some n =>
      have hfind := h.index (g.keyOf row)
      rw [hindex, eq_comm, List.findIdx?_eq_some_iff_getElem] at hfind
      obtain ⟨hn, hkey, -⟩ := hfind
      have hany : (g.keysOf rows).any (· == g.keyOf row) = true := by
        rw [List.any_eq_true]
        exact ⟨_, List.getElem_mem hn, hkey⟩
      rw [if_pos hany]
      exact ⟨n, arena, _, rfl, h, List.getElem?_eq_getElem hn, BEq.symm hkey⟩
  | none =>
      have hfind := h.index (g.keyOf row)
      rw [hindex, eq_comm, List.findIdx?_eq_none_iff] at hfind
      have hnew : (g.keysOf rows).any (· == g.keyOf row) = false := by
        rw [List.any_eq_false]
        exact fun k hk => Bool.eq_false_iff.mp (hfind k hk)
      obtain ⟨fresh, hfresh⟩ := hready.fresh
      obtain ⟨arena', hopen, htracks⟩ := openGroup_tracks h hnew (members_eq_nil hnew) hfresh
      have hsize : arena.keys.size = (g.keysOf rows).length := by
        rw [← Array.length_toList, h.keys_eq]
      simp only [hnew, Bool.false_eq_true, if_false]
      refine ⟨arena.keys.size, arena', g.keyOf row, by rw [hopen]; rfl, htracks, ?_, BEq.rfl⟩
      rw [hsize, List.getElem?_concat_length]

/-- The accumulators over a further row, group by group: those of its group have been fed the row,
and the others are as before. -/
theorem accumulators_set {blocks : List (List Accumulator)} {block : List Accumulator} {n : Nat}
    {key : GroupKey} (hblocks : List.Forall₂
      (fun key block => g.accumulators (g.members rows key) = .ok block) keys blocks)
    (hkeys : keys.Pairwise fun a b => (a == b) = false)
    (hn : keys[n]? = some key) (hkey : (g.keyOf row == key) = true)
    (hblock : g.accumulators (g.members (rows ++ [row]) key) = .ok block) :
    List.Forall₂ (fun key block => g.accumulators (g.members (rows ++ [row]) key) = .ok block)
      keys (blocks.set n block) := by
  rw [List.forall₂_iff_get] at hblocks ⊢
  obtain ⟨hlength, hget⟩ := hblocks
  obtain ⟨hlt, rfl⟩ := List.getElem?_eq_some_iff.mp hn
  refine ⟨by rw [List.length_set, hlength], fun i hi hi' => ?_⟩
  by_cases hin : i = n
  · subst hin
    simpa using hblock
  · -- Another key is not equal to that of the row, so its group has not changed.
    have hother : (g.keyOf row == keys[i]) = false := by
      rw [BEq.congr_left hkey]
      rw [List.pairwise_iff_getElem] at hkeys
      rcases Nat.lt_or_gt_of_ne hin with hlt' | hlt'
      · rw [BEq.comm]
        exact hkeys i n hi hlt hlt'
      · exact hkeys n i hlt hi hlt'
    have hold := hget i hi (hlength ▸ hi)
    simp only [List.get_eq_getElem] at hold ⊢
    rw [members_append_of_not_beq hother, hold, List.getElem_set_ne (Ne.symm hin)]

theorem Ready.width_of_blocks (hready : g.Ready) {blocks : List (List Accumulator)}
    (hblocks : List.Forall₂
      (fun key block => g.accumulators (g.members rows key) = .ok block) keys blocks) :
    ∀ b ∈ blocks, b.length = g.slotsPerGroup := by
  intro b hb
  obtain ⟨i, hi, rfl⟩ := List.getElem_of_mem hb
  rw [← hready.length_columns]
  exact length_of_accumulators
    (List.Forall₂.get hblocks (List.Forall₂.length_eq hblocks ▸ hi) hi)

/-- Feeding a row to the block of its group makes the arena that of the further row, unless an
aggregate cannot take it up. -/
theorem feedSlots_tracks (hready : g.Ready) (h : arena.Tracks g rows keys)
    (hkeys : keys.Pairwise fun a b => (a == b) = false) {n : Nat} {key : GroupKey}
    (hn : keys[n]? = some key) (hkey : (g.keyOf row == key) = true) :
    match g.failureAt rows row with
    | some e => feedSlots row (n * g.slotsPerGroup) g.inputPositions arena.slots = .error e
    | none => ∃ slots,
        feedSlots row (n * g.slotsPerGroup) g.inputPositions arena.slots = .ok slots ∧
          Arena.Tracks g (rows ++ [row]) keys { arena with slots } := by
  obtain ⟨blocks, hslots, hblocks⟩ := h.slots
  have hlength := List.Forall₂.length_eq hblocks
  have hlt : n < keys.length := (List.getElem?_eq_some_iff.mp hn).1
  have hwidth := hready.width_of_blocks hblocks
  obtain ⟨block, hblock⟩ : ∃ block, blocks[n]? = some block :=
    ⟨_, List.getElem?_eq_getElem (hlength ▸ hlt)⟩
  have hold : g.accumulators (g.members rows key) = .ok block := by
    obtain ⟨hn', rfl⟩ := List.getElem?_eq_some_iff.mp hn
    obtain ⟨hn'', rfl⟩ := List.getElem?_eq_some_iff.mp hblock
    exact List.Forall₂.get hblocks hn' hn''
  have hnew : g.accumulators (g.members (rows ++ [row]) key) =
      feedAll row block g.inputPositions := by
    rw [members_append_of_beq hkey, accumulators_append hold, hready.map_columns]
  have hfeed := feedSlots_eq row g.inputPositions
    (hslots.trans (flatten_eq_of_getElem? hblock))
    ((hwidth block (List.mem_of_getElem? hblock)).trans hready.positions.symm)
  rw [length_flatten_take hwidth (Nat.le_of_lt (hlength ▸ hlt))] at hfeed
  unfold failureAt
  rw [members_congr hkey, hnew]
  cases hall : feedAll row block g.inputPositions with
  | error e =>
      rw [hall] at hfeed
      exact map_eq_error_iff.mp hfeed
  | ok block' =>
      rw [hall] at hfeed
      obtain ⟨slots, hok, hlist⟩ := map_eq_ok_iff.mp hfeed
      refine ⟨slots, hok, h.index, h.keys_eq, blocks.set n block', ?_,
        accumulators_set hblocks hkeys hn hkey (hnew.trans hall)⟩
      rw [List.set_eq_take_append_cons_drop, if_pos (hlength ▸ hlt), List.flatten_append,
        List.flatten_cons, ← List.append_assoc]
      exact hlist

/-- One row: the arena becomes that of the further row, or the row is one at which an aggregate
fails. -/
theorem addRow_tracks (hready : g.Ready) (h : arena.Tracks g rows (g.keysOf rows)) (row : Row) :
    match g.failureAt rows row with
    | some e => g.addRow arena row = .error e
    | none => ∃ arena', g.addRow arena row = .ok arena' ∧
        arena'.Tracks g (rows ++ [row]) (g.keysOf (rows ++ [row])) := by
  obtain ⟨n, arena', key, hgroup, htracks, hn, hkey⟩ := groupFor_tracks hready h row
  have hfeed := feedSlots_tracks hready htracks pairwise_keysOf hn hkey
  unfold addRow
  rw [hgroup]
  cases hfailure : g.failureAt rows row with
  | some e =>
      simp only [hfailure] at hfeed
      simp only [bind, Except.bind, hfeed]
  | none =>
      simp only [hfailure] at hfeed
      obtain ⟨slots, hslots, htracks'⟩ := hfeed
      exact ⟨_, by simp only [bind, Except.bind, hslots]; rfl, htracks'⟩

/-- A whole pass: the arena is that of all rows, or the pass ends with its first failure. -/
theorem addItems_tracks (hready : g.Ready) : ∀ (items : List Item) {rows : List Row}
    {arena : Arena}, arena.Tracks g rows (g.keysOf rows) →
    match g.firstFailure rows items with
    | some e => g.addItems arena items = .error e
    | none => ∃ arena', g.addItems arena items = .ok arena' ∧
        arena'.Tracks g (rows ++ okRows items) (g.keysOf (rows ++ okRows items))
  | [], rows, arena, h => ⟨arena, rfl, by rw [okRows, List.append_nil]; exact h⟩
  | .error e :: items, rows, arena, _ => rfl
  | .ok row :: items, rows, arena, h => by
      have hrow := addRow_tracks hready h row
      rw [firstFailure]
      cases hfailure : g.failureAt rows row with
      | some e =>
          simp only [hfailure] at hrow
          simp only [addItems, hrow]
          rfl
      | none =>
          simp only [hfailure] at hrow
          obtain ⟨arena', hadd, htracks⟩ := hrow
          have ih := addItems_tracks hready items htracks
          rw [List.append_assoc] at ih
          simp only [addItems, hadd]
          exact ih

end Grouping

end RelQuery
