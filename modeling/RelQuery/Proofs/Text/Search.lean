import Mathlib.Data.List.Forall2
import Mathlib.Data.List.TakeWhile
import RelQuery.Text

/-!
# RelQuery.Proofs.Text.Search

**A search finds a mark exactly where it occurs.**

`Text.Occurs` says that a text has a mark somewhere in it, and `cut?` finds one if there is one
(`isSome_cut?_iff`). What makes searches in longer texts manageable is that a mark lies on one side
of every character that it does not have: `cut?_append_cons` looks on the left first and then on the
right, and `occurs_append_cons_iff` is the same said of occurrences. At the end of the module are
the facts about trimming that belong to texts without blanks at their ends.
-/

namespace RelQuery.Text

variable {same : Char → Char → Bool} {mark cs rest : List Char} {m x : Char}

/-- The word is the mark, character by character, up to the comparison. -/
def Spells (same : Char → Char → Bool) (mark word : List Char) : Prop :=
  List.Forall₂ (fun m c => same m c = true) mark word

/-- Each character of the word stands for one of the mark. -/
theorem Spells.exists_of_mem {word : List Char} (h : Spells same mark word) (hmem : x ∈ word) :
    ∃ m ∈ mark, same m x = true := by
  obtain ⟨i, hi, rfl⟩ := List.getElem_of_mem hmem
  have hi' : i < mark.length := by rwa [List.Forall₂.length_eq h]
  exact ⟨mark[i], List.getElem_mem hi', List.Forall₂.get h hi' hi⟩

/-- Up to letter case, a mark is spelled by the words that are the same in small letters. -/
theorem spells_sameLetter_iff {word : List Char} :
    Spells sameLetter mark word ↔ lowerCase mark = lowerCase word := by
  rw [Spells, lowerCase, lowerCase, ← List.forall₂_eq_eq_eq, List.forall₂_map_left_iff,
    List.forall₂_map_right_iff]
  simp only [sameLetter, beq_iff_eq]

/-- The mark stands somewhere in the text. -/
def Occurs (same : Char → Char → Bool) (mark cs : List Char) : Prop :=
  ∃ before word after, cs = before ++ (word ++ after) ∧ Spells same mark word

/-! ### Marks at the front -/

/-- A mark is removed from the front if it stands there. -/
theorem stripFront?_eq_some_iff : ∀ {mark cs : List Char},
    stripFront? same mark cs = some rest ↔ ∃ word, cs = word ++ rest ∧ Spells same mark word
  | [], cs => by
      simp only [stripFront?, Option.some.injEq, Spells, List.forall₂_nil_left_iff]
      constructor
      · rintro rfl
        exact ⟨[], rfl, rfl⟩
      · rintro ⟨word, rfl, rfl⟩
        rfl
  | m :: mark, [] => by
      simp only [stripFront?, reduceCtorEq, false_iff]
      rintro ⟨word, hcs, hword⟩
      obtain ⟨c, word, -, -, rfl⟩ := List.forall₂_cons_left_iff.mp hword
      simp at hcs
  | m :: mark, c :: cs => by
      rw [stripFront?]
      split
      · rename_i hc
        rw [stripFront?_eq_some_iff]
        constructor
        · rintro ⟨word, rfl, hword⟩
          exact ⟨c :: word, rfl, List.Forall₂.cons hc hword⟩
        · rintro ⟨word, hcs, hword⟩
          obtain ⟨c', word', -, hword', rfl⟩ := List.forall₂_cons_left_iff.mp hword
          exact ⟨word', (List.cons.inj hcs).2, hword'⟩
      · rename_i hc
        simp only [reduceCtorEq, false_iff]
        rintro ⟨word, hcs, hword⟩
        obtain ⟨c', word', hc', -, rfl⟩ := List.forall₂_cons_left_iff.mp hword
        exact hc ((List.cons.inj hcs).1 ▸ hc')

/-- A mark at the front ends before the first character that it does not have. -/
theorem stripFront?_append_cons : ∀ {mark front : List Char}, (∀ m ∈ mark, same m x = false) →
    stripFront? same mark (front ++ x :: cs) = (stripFront? same mark front).map (· ++ x :: cs)
  | [], front, _ => rfl
  | m :: mark, [], hx => by
      simp [stripFront?, hx m List.mem_cons_self]
  | m :: mark, c :: front, hx => by
      rw [List.cons_append, stripFront?, stripFront?]
      split
      · exact stripFront?_append_cons fun m hm => hx m (List.mem_cons_of_mem _ hm)
      · rfl

/-- A mark in two parts is removed part by part. -/
theorem stripFront?_append : ∀ (mark mark' cs : List Char),
    stripFront? same (mark ++ mark') cs = (stripFront? same mark cs).bind (stripFront? same mark')
  | [], mark', cs => rfl
  | m :: mark, mark', [] => rfl
  | m :: mark, mark', c :: cs => by
      rw [List.cons_append, stripFront?, stripFront?]
      split
      · exact stripFront?_append mark mark' cs
      · rfl

/-- What is removed from the front occurs. -/
theorem occurs_of_stripFront? (h : stripFront? same mark cs = some rest) : Occurs same mark cs := by
  obtain ⟨word, rfl, hword⟩ := stripFront?_eq_some_iff.mp h
  exact ⟨[], word, rest, rfl, hword⟩

/-- What occurs in the rest of a text occurs in the text. -/
theorem Occurs.append_left (h : Occurs same mark cs) (front : List Char) :
    Occurs same mark (front ++ cs) := by
  obtain ⟨before, word, after, rfl, hword⟩ := h
  exact ⟨front ++ before, word, after, (List.append_assoc _ _ _).symm, hword⟩

/-- Where a mark occurs, so does each part of it. -/
theorem Occurs.of_part {left right : List Char} (h : Occurs same (left ++ (mark ++ right)) cs) :
    Occurs same mark cs := by
  obtain ⟨before, word, after, rfl, hword⟩ := h
  have hstrip := stripFront?_eq_some_iff.mpr ⟨word, @rfl _ (word ++ after), hword⟩
  rw [stripFront?_append] at hstrip
  obtain ⟨cs, hleft, hstrip⟩ := Option.bind_eq_some_iff.mp hstrip
  rw [stripFront?_append] at hstrip
  obtain ⟨cs', hmark, -⟩ := Option.bind_eq_some_iff.mp hstrip
  obtain ⟨word', hword', -⟩ := stripFront?_eq_some_iff.mp hleft
  rw [hword']
  exact ((occurs_of_stripFront? hmark).append_left word').append_left before

/-- A mark is not at the end of a text that ends with a character which is not the mark's last. -/
theorem stripBack?_concat (h : same m x = false) :
    stripBack? same (mark ++ [m]) (cs ++ [x]) = none := by
  rw [stripBack?, List.reverse_concat, List.reverse_concat, stripFront?, h]
  rfl

/-! ### Marks anywhere -/

theorem cut?_cons (same : Char → Char → Bool) (mark cs : List Char) (c : Char) :
    cut? same mark (c :: cs) = ((stripFront? same mark (c :: cs)).map fun rest => ([], rest)).or
      ((cut? same mark cs).map fun p => (c :: p.1, p.2)) := by
  rw [cut?]
  cases stripFront? same mark (c :: cs) <;> rfl

/-- No other character is the same letter as a space. -/
theorem eq_space_of_sameLetter {c : Char} (h : sameLetter ' ' c = true) : c = ' ' := by
  have hlower : c.toLower = ' ' := (beq_iff_eq.mp h).symm
  unfold Char.toLower at hlower
  split at hlower
  · rename_i hcapital
    have hle : c.val.toNat ≤ 90 := UInt32.le_iff_toNat_le.mp hcapital.2
    have hge : 65 ≤ c.val.toNat := UInt32.le_iff_toNat_le.mp hcapital.1
    have hval : (c.val + 32).toNat = 32 := congrArg (fun d : Char => d.val.toNat) hlower
    rw [UInt32.toNat_add, show (32 : UInt32).toNat = 32 from rfl] at hval
    omega
  · exact hlower

/-- What is cut out of a text is the mark. -/
theorem exists_of_cut? : ∀ {cs before rest : List Char},
    cut? same mark cs = some (before, rest) →
      ∃ word, cs = before ++ (word ++ rest) ∧ Spells same mark word
  | [], before, rest, h => by
      obtain ⟨rest', hfront, hpair⟩ := Option.map_eq_some_iff.mp h
      obtain ⟨rfl, rfl⟩ := Prod.mk.inj hpair
      exact stripFront?_eq_some_iff.mp hfront
  | c :: cs, before, rest, h => by
      rw [cut?_cons, Option.or_eq_some_iff] at h
      rcases h with h | ⟨-, h⟩
      · obtain ⟨rest', hfront, hpair⟩ := Option.map_eq_some_iff.mp h
        obtain ⟨rfl, rfl⟩ := Prod.mk.inj hpair
        exact stripFront?_eq_some_iff.mp hfront
      · obtain ⟨⟨before', rest'⟩, hcut, hpair⟩ := Option.map_eq_some_iff.mp h
        obtain ⟨rfl, rfl⟩ := Prod.mk.inj hpair
        obtain ⟨word, rfl, hword⟩ := exists_of_cut? hcut
        exact ⟨word, rfl, hword⟩

/-- Where a mark stands in a text, one is found. -/
theorem isSome_cut?_of_spells {after word : List Char} (hword : Spells same mark word) :
    ∀ before, (cut? same mark (before ++ (word ++ after))).isSome = true
  | [] => by
      have hfront := stripFront?_eq_some_iff.mpr ⟨word, @rfl _ (word ++ after), hword⟩
      rw [List.nil_append]
      cases hcs : word ++ after with
      | nil =>
          rw [hcs] at hfront
          rw [cut?, hfront]
          rfl
      | cons c cs =>
          rw [hcs] at hfront
          rw [cut?_cons, hfront]
          rfl
  | c :: before => by
      rw [List.cons_append, cut?_cons]
      simp [isSome_cut?_of_spells hword before]

/-- A mark is found if it occurs. -/
theorem isSome_cut?_iff : (cut? same mark cs).isSome = true ↔ Occurs same mark cs := by
  constructor
  · intro h
    obtain ⟨⟨before, rest⟩, hcut⟩ := Option.isSome_iff_exists.mp h
    obtain ⟨word, hcs, hword⟩ := exists_of_cut? hcut
    exact ⟨before, word, rest, hcs, hword⟩
  · rintro ⟨before, word, after, rfl, hword⟩
    exact isSome_cut?_of_spells hword before

instance (same : Char → Char → Bool) (mark cs : List Char) : Decidable (Occurs same mark cs) :=
  decidable_of_iff _ isSome_cut?_iff

theorem cut?_eq_none_iff : cut? same mark cs = none ↔ ¬Occurs same mark cs := by
  rw [← isSome_cut?_iff, Option.not_isSome_iff_eq_none]

/-- A mark stands on one side of a character that it does not have, and is looked for on the left
first. -/
theorem cut?_append_cons (hx : ∀ m ∈ mark, same m x = false) (cs : List Char) :
    ∀ front, cut? same mark (front ++ x :: cs) =
      ((cut? same mark front).map fun p => (p.1, p.2 ++ x :: cs)).or
        ((cut? same mark cs).map fun p => (front ++ x :: p.1, p.2))
  | [] => by
      rw [List.nil_append, cut?_cons, cut?]
      cases mark with
      | nil => rfl
      | cons m mark => simp [stripFront?, hx m List.mem_cons_self]
  | c :: front => by
      rw [List.cons_append, cut?_cons, ← List.cons_append, stripFront?_append_cons hx,
        cut?_append_cons hx cs front, cut?_cons]
      cases stripFront? same mark (c :: front) with
      | some rest => rfl
      | none => cases cut? same mark front <;> cases cut? same mark cs <;> rfl

theorem occurs_append_cons_iff (hx : ∀ m ∈ mark, same m x = false) {front : List Char} :
    Occurs same mark (front ++ x :: cs) ↔ Occurs same mark front ∨ Occurs same mark cs := by
  rw [← isSome_cut?_iff, ← isSome_cut?_iff, ← isSome_cut?_iff, cut?_append_cons hx]
  simp

/-- Nothing is found before the first character that starts the mark. -/
theorem cut?_append_of_forall (cs : List Char) : ∀ {front : List Char},
    (∀ c ∈ front, same m c = false) → cut? same (m :: mark) (front ++ cs) =
      (cut? same (m :: mark) cs).map fun p => (front ++ p.1, p.2)
  | [], _ => by simp
  | c :: front, h => by
      rw [List.cons_append, cut?_cons, stripFront?, h c List.mem_cons_self,
        cut?_append_of_forall cs fun c hc => h c (List.mem_cons_of_mem _ hc)]
      simp [Function.comp_def]

/-- A mark is found where it is written behind a text that does not have its core, if the core
begins at the second character of the mark and does not have the first one: an earlier occurrence
would have its core within the text, or reach with it over the first character of the mark. -/
theorem cut?_append_spelled {core right word : List Char}
    (hx : ∀ m ∈ core, same m x = false) (hword : Spells same (m :: (core ++ right)) (x :: word)) :
    ∀ {front : List Char}, ¬Occurs same core front →
      cut? same (m :: (core ++ right)) (front ++ (x :: word ++ rest)) = some (front, rest)
  | [], _ => by
      have hstrip := stripFront?_eq_some_iff.mpr ⟨x :: word, @rfl _ (x :: word ++ rest), hword⟩
      rw [List.nil_append]
      rw [List.cons_append] at hstrip ⊢
      rw [cut?_cons, hstrip]
      rfl
  | c :: front, hfront => by
      have hrest : ¬Occurs same core front := fun h => hfront (h.append_left [c])
      have hstrip : stripFront? same (m :: (core ++ right)) (c :: (front ++ (x :: word ++ rest)))
          = none := by
        rw [stripFront?]
        split
        · cases hcore : stripFront? same core front with
          | none =>
              rw [stripFront?_append, List.cons_append, stripFront?_append_cons hx, hcore]
              rfl
          | some rest' => exact absurd (occurs_of_stripFront? hcore) hrest
        · rfl
      rw [List.cons_append, cut?_cons, hstrip, cut?_append_spelled hx hword hrest]
      rfl

/-! ### Pieces -/

/-- A text with the mark is cut there first. -/
theorem pieces_of_cut?_eq_some {before : List Char}
    (h : cut? same (m :: mark) cs = some (before, rest)) :
    pieces same m mark cs = before :: pieces same m mark rest := by
  rw [pieces]
  split
  · rename_i hcut
    rw [h] at hcut
    contradiction
  · rename_i before' rest' hcut
    obtain ⟨rfl, rfl⟩ := Prod.mk.inj (Option.some.inj (h.symm.trans hcut))
    rfl

/-- A character that the mark does not have is in one of the pieces. -/
theorem exists_mem_pieces (hx : ∀ m' ∈ m :: mark, same m' x = false) (hmem : x ∈ cs) :
    ∃ piece ∈ pieces same m mark cs, x ∈ piece := by
  induction cs using pieces.induct same m mark with
  | case1 cs hcut =>
      rw [pieces_of_cut?_eq_none hcut]
      exact ⟨cs, List.mem_cons_self, hmem⟩
  | case2 cs before rest hcut ih =>
      rw [pieces_of_cut?_eq_some hcut]
      obtain ⟨word, rfl, hword⟩ := exists_of_cut? hcut
      rcases List.mem_append.mp hmem with hbefore | hmem
      · exact ⟨before, List.mem_cons_self, hbefore⟩
      · rcases List.mem_append.mp hmem with hin | hrest
        · obtain ⟨m', hm', hsame⟩ := hword.exists_of_mem hin
          rw [hx m' hm'] at hsame
          contradiction
        · obtain ⟨piece, hpiece, hx'⟩ := ih hrest
          exact ⟨piece, List.mem_cons_of_mem _ hpiece, hx'⟩

/-! ### Trimming -/

theorem dropWhile_isBlank_eq_self (h : ∀ c ∈ cs.head?, isBlank c = false) :
    cs.dropWhile isBlank = cs := by
  cases cs with
  | nil => rfl
  | cons c cs => rw [List.dropWhile_cons_of_neg (by simp [h c rfl])]

/-- A text that does not start with a blank has none to lose there. -/
theorem trimStart_eq_self (h : ∀ c ∈ cs.head?, isBlank c = false) : trimStart cs = cs :=
  dropWhile_isBlank_eq_self h

theorem trimEnd_eq_self (h : ∀ c ∈ cs.getLast?, isBlank c = false) : trimEnd cs = cs := by
  rw [trimEnd, dropWhile_isBlank_eq_self (by rwa [List.head?_reverse]), List.reverse_reverse]

/-- A text that neither starts nor ends with a blank stays as it is. -/
theorem trim_eq_self (hhead : ∀ c ∈ cs.head?, isBlank c = false)
    (hlast : ∀ c ∈ cs.getLast?, isBlank c = false) : trim cs = cs := by
  rw [trim, trimStart_eq_self hhead, trimEnd_eq_self hlast]

theorem trim_cons_space (cs : List Char) : trim (' ' :: cs) = trim cs := by
  rw [trim, trimStart_cons, show isBlank ' ' = true by decide]
  rfl

theorem trimEnd_concat_space (cs : List Char) : trimEnd (cs ++ [' ']) = trimEnd cs := by
  simp [trimEnd, show isBlank ' ' = true by decide]

theorem mem_dropWhile_isBlank (hmem : x ∈ cs) (hx : isBlank x = false) :
    x ∈ cs.dropWhile isBlank := by
  rw [← @List.takeWhile_append_dropWhile _ isBlank cs] at hmem
  refine (List.mem_append.mp hmem).resolve_left fun hblank => ?_
  rw [List.mem_takeWhile_imp hblank] at hx
  contradiction

/-- Trimming keeps every character that is not blank. -/
theorem mem_trim (hmem : x ∈ cs) (hx : isBlank x = false) : x ∈ trim cs :=
  List.mem_reverse.mpr
    (mem_dropWhile_isBlank (List.mem_reverse.mpr (mem_dropWhile_isBlank hmem hx)) hx)

/-- Nothing is left of a text exactly if it is blank throughout. -/
theorem trim_eq_nil_iff : trim cs = [] ↔ ∀ c ∈ cs, isBlank c = true := by
  constructor
  · intro h c hc
    by_contra hblank
    have hmem := mem_trim hc (Bool.eq_false_iff.mpr hblank)
    rw [h] at hmem
    exact List.not_mem_nil hmem
  · intro h
    rw [trim, trimStart, List.dropWhile_eq_nil_iff.mpr h, trimEnd_nil]

end RelQuery.Text
