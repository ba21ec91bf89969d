import Mathlib.Tactic.SplitIfs
import RelQuery.Decimal

/-!
# RelQuery.Proofs.Text.Lines

**Texts and their lines.**

A line ends at a break. If each part of a text is ended by a break, the lines of the text are its
parts exactly if no part has a break of its own (`length_lines_unlines_iff`): a break inside a part
is one more line, wherever it stands.

`OneLine` is said of a text that is put together from others by saying it of these, so the lemmas
about it follow the ways in which texts are made: literals, concatenation, separated lists and
numbers.
-/

namespace RelQuery

namespace Text

/-! ### Lines -/

/-- The lines of a text. What comes after the last break is a line if there is anything. -/
def lines : List Char → List (List Char)
  | [] => []
  | c :: cs =>
    if c = '\n' then [] :: lines cs
    else
      match lines cs with
      | [] => [[c]]
      | line :: rest => (c :: line) :: rest

/-- The text whose parts are each ended by a break. -/
def unlines (parts : List (List Char)) : List Char :=
  parts.flatMap (· ++ ['\n'])

variable {front part : List Char} {parts : List (List Char)}

theorem unlines_cons : unlines (part :: parts) = part ++ '\n' :: unlines parts := by
  simp [unlines]

theorem lines_ne_nil {cs : List Char} (hcs : cs ≠ []) : lines cs ≠ [] := by
  cases cs with
  | nil => exact absurd rfl hcs
  | cons c cs =>
      rw [lines]
      split
      · simp
      · cases lines cs <;> simp

/-- What has no break belongs to the first line of what stands behind it. -/
theorem lines_append {cs line : List Char} {rest : List (List Char)} (hfront : '\n' ∉ front)
    (hlines : lines cs = line :: rest) : lines (front ++ cs) = (front ++ line) :: rest := by
  induction front with
  | nil => exact hlines
  | cons c front ih =>
      rw [List.mem_cons, not_or] at hfront
      rw [List.cons_append, lines, if_neg (Ne.symm hfront.1), ih hfront.2]
      rfl

/-- A break separates the lines before it from those behind it. -/
theorem lines_append_break (part rest : List Char) :
    lines (part ++ '\n' :: rest) = lines (part ++ ['\n']) ++ lines rest := by
  induction part with
  | nil => simp [lines]
  | cons c part ih =>
      rw [List.cons_append, List.cons_append, lines, lines, ih]
      by_cases hc : c = '\n'
      · rw [if_pos hc, if_pos hc, List.cons_append]
      · rw [if_neg hc, if_neg hc]
        -- The character goes in front of the first line, and there is one.
        cases hlines : lines (part ++ ['\n']) with
        | nil => exact absurd hlines (lines_ne_nil (by simp))
        | cons line lines => rfl

theorem lines_unlines (parts : List (List Char)) :
    lines (unlines parts) = parts.flatMap fun part => lines (part ++ ['\n']) := by
  induction parts with
  | nil => rfl
  | cons part parts ih => rw [unlines_cons, lines_append_break, ih, List.flatMap_cons]

/-- A part that is ended by a break begins with the front of its first line. -/
theorem exists_lines_eq (hfront : '\n' ∉ front) (part : List Char) :
    ∃ line rest, lines (front ++ part ++ ['\n']) = (front ++ line) :: rest := by
  have hne : lines (part ++ ['\n']) ≠ [] := lines_ne_nil (by simp)
  obtain ⟨line, rest, hlines⟩ := List.exists_cons_of_ne_nil hne
  exact ⟨line, rest, by rw [List.append_assoc, lines_append hfront hlines]⟩

/-- It has a line for each of its own breaks, and one more. -/
theorem length_lines_break (part : List Char) :
    (lines (part ++ ['\n'])).length = part.count '\n' + 1 := by
  induction part with
  | nil => rfl
  | cons c part ih =>
      rw [List.cons_append, lines]
      by_cases hc : c = '\n'
      · rw [if_pos hc, List.length_cons, ih, hc, List.count_cons_self]
      · rw [if_neg hc, List.count_cons_of_ne hc, ← ih]
        cases hlines : lines (part ++ ['\n']) with
        | nil => exact absurd hlines (lines_ne_nil (by simp))
        | cons line lines => rfl

theorem lines_unlines_of_not_mem (hparts : ∀ part ∈ parts, '\n' ∉ part) :
    lines (unlines parts) = parts := by
  induction parts with
  | nil => rfl
  | cons part parts ih =>
      rw [List.forall_mem_cons] at hparts
      rw [unlines_cons, lines_append hparts.1 rfl, ih hparts.2, List.append_nil]

theorem length_le_length_lines_unlines (parts : List (List Char)) :
    parts.length ≤ (lines (unlines parts)).length := by
  induction parts with
  | nil => exact Nat.zero_le _
  | cons part parts ih =>
      rw [unlines_cons, lines_append_break, List.length_append, length_lines_break,
        List.length_cons]
      omega

/-- There are as many lines as parts exactly if no part has a break of its own. -/
theorem length_lines_unlines_iff :
    (lines (unlines parts)).length = parts.length ↔ ∀ part ∈ parts, '\n' ∉ part := by
  refine ⟨?_, fun hparts => by rw [lines_unlines_of_not_mem hparts]⟩
  induction parts with
  | nil => simp
  | cons part parts ih =>
      rw [unlines_cons, lines_append_break, List.length_append, length_lines_break,
        List.length_cons, List.forall_mem_cons]
      intro hlength
      -- The other parts have at least a line each, so this one has no second line.
      have hle := length_le_length_lines_unlines parts
      exact ⟨List.count_eq_zero.mp (by omega), ih (by omega)⟩

/-! ### What a line begins with -/

/-- The number of spaces in front of a line. -/
def indent (line : List Char) : Nat :=
  (line.takeWhile (· == ' ')).length

/-- What stands between the indentation of a line and its first colon. -/
def keyword (line : List Char) : List Char :=
  (line.dropWhile (· == ' ')).takeWhile (· != ':')

theorem isSpace_of_mem_replicate {n : Nat} : ∀ c ∈ List.replicate n ' ', (c == ' ') = true := by
  intro c hmem
  rw [List.eq_of_mem_replicate hmem, beq_self_eq_true]

variable {word rest : List Char}

theorem indent_replicate_append (hword : ∀ c ∈ word, c ≠ ' ' ∧ c ≠ ':') (n : Nat) :
    indent (List.replicate n ' ' ++ (word ++ ':' :: rest)) = n := by
  rw [indent, List.takeWhile_append_of_pos isSpace_of_mem_replicate]
  cases word with
  | nil => simp
  | cons c word => simp [(hword c List.mem_cons_self).1]

theorem keyword_replicate_append (hword : ∀ c ∈ word, c ≠ ' ' ∧ c ≠ ':') (n : Nat) :
    keyword (List.replicate n ' ' ++ (word ++ ':' :: rest)) = word := by
  have hdrop : (word ++ ':' :: rest).dropWhile (· == ' ') = word ++ ':' :: rest := by
    cases word with
    | nil => simp
    | cons c word => simp [(hword c List.mem_cons_self).1]
  rw [keyword, List.dropWhile_append_of_pos isSpace_of_mem_replicate, hdrop,
    List.takeWhile_append_of_pos fun c hmem => bne_iff_ne.mpr (hword c hmem).2]
  simp

/-! ### Bytes -/

theorem toList_loop (bytes : ByteArray) (i : Nat) (read : List UInt8) :
    ByteArray.toList.loop bytes i read = read.reverse ++ bytes.data.toList.drop i := by
  fun_induction ByteArray.toList.loop bytes i read with
  | case1 i read hi ih =>
      have hget : bytes.get! i = bytes.data[i] := getElem!_pos bytes.data i hi
      have hdrop : bytes.data.toList.drop i = bytes.data[i] :: bytes.data.toList.drop (i + 1) :=
        List.drop_eq_getElem_cons hi
      rw [ih, hget, hdrop, List.reverse_cons, List.append_assoc, List.singleton_append]
  | case2 i read hi =>
      rw [List.drop_eq_nil_of_le (Nat.not_lt.mp hi), List.append_nil]

/-- Different texts have different bytes. -/
theorem eq_of_utf8_eq {s t : String} (h : s.toUTF8.toList = t.toUTF8.toList) : s = t := by
  simp only [ByteArray.toList, toList_loop, List.reverse_nil, List.nil_append, List.drop_zero] at h
  exact String.toByteArray_inj.mp (ByteArray.ext (Array.toList_inj.mp h))

end Text

/-! ### Texts on one line -/

/-- The text has no line break. -/
def OneLine (s : String) : Prop :=
  '\n' ∉ s.toList

instance (s : String) : Decidable (OneLine s) :=
  inferInstanceAs (Decidable ('\n' ∉ s.toList))

namespace OneLine

@[simp] theorem ofList_iff {cs : List Char} : OneLine (String.ofList cs) ↔ '\n' ∉ cs := by
  rw [OneLine, String.toList_ofList]

@[simp] theorem append_iff {s t : String} : OneLine (s ++ t) ↔ OneLine s ∧ OneLine t := by
  simp [OneLine, String.toList_append]

/-- A text in a text that is put together is used as it is. -/
@[simp] theorem toString_iff {s : String} : OneLine (toString s) ↔ OneLine s :=
  Iff.rfl

/-! ### Numbers -/

theorem not_mem_toDigits (n : Nat) : '\n' ∉ Nat.toDigits 10 n := fun hmem =>
  absurd (Nat.isDigit_of_mem_toDigits (by decide) (by decide) hmem) (by decide)

@[simp] theorem nat (n : Nat) : OneLine n.repr :=
  ofList_iff.mpr (not_mem_toDigits n)

@[simp] theorem int : ∀ n : Int, OneLine n.repr
  | .ofNat n => nat n
  | .negSucc n => append_iff (s := "-").mpr ⟨by decide, nat (n + 1)⟩

theorem not_mem_layout (x : Decimal.Number) : '\n' ∉ x.layout := by
  have hdigits := not_mem_toDigits x.digits
  simp only [Decimal.Number.layout]
  split
  · simp [hdigits]
  · split
    · rw [List.mem_append, List.mem_cons, not_or, not_or]
      exact ⟨fun htake => hdigits (List.mem_of_mem_take htake), by decide,
        fun hdrop => hdigits (List.mem_of_mem_drop hdrop)⟩
    · simp [hdigits]

@[simp] theorem ieee {f : Format} (x : Ieee f) : OneLine x.text := by
  have hlayout := not_mem_layout (Decimal.shortest f x.magnitude)
  simp only [Ieee.text]
  split_ifs <;> simp [hlayout, OneLine]

end OneLine

/-! ### Lists of texts -/

/-- No text of the list has a line break. -/
def Tidy (ts : List String) : Prop :=
  ∀ t ∈ ts, OneLine t

instance (ts : List String) : Decidable (Tidy ts) :=
  inferInstanceAs (Decidable (∀ t ∈ ts, OneLine t))

namespace Tidy

@[simp] theorem nil : Tidy [] :=
  List.forall_mem_nil _

@[simp] theorem cons_iff {t : String} {ts : List String} :
    Tidy (t :: ts) ↔ OneLine t ∧ Tidy ts :=
  List.forall_mem_cons

@[simp] theorem append_iff {ts us : List String} : Tidy (ts ++ us) ↔ Tidy ts ∧ Tidy us :=
  List.forall_mem_append

/-- Texts have no break if what they are written with has none. -/
theorem map_iff {α : Type} {f : α → String} {g : α → List String}
    (hf : ∀ x, OneLine (f x) ↔ Tidy (g x)) (xs : List α) :
    Tidy (xs.map f) ↔ Tidy (xs.flatMap g) := by
  rw [Tidy, Tidy, List.forall_mem_map, List.forall_mem_flatMap]
  exact forall₂_congr fun x _ => hf x

end Tidy

/-- A list with separators is on one line exactly if its entries are. -/
theorem OneLine.intercalate_iff {separator : String} (hseparator : OneLine separator) :
    ∀ {ts : List String}, OneLine (separator.intercalate ts) ↔ Tidy ts
  | [] => by simp +decide
  | [t] => by simp
  | t :: u :: ts => by
      rw [String.intercalate_cons_cons, append_iff, append_iff, intercalate_iff hseparator]
      simp [hseparator]

end RelQuery
