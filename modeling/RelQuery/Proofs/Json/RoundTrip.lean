import Mathlib.Data.List.Basic
import RelQuery.Json.Reading
import RelQuery.Json.Writing

/-!
# RelQuery.Proofs.Json.RoundTrip

**What is written as JSON is read back as it was.**

`read?_write` says so of all data that a JSON text can carry without loss, `Data.Exact`. A number
has no end of its own: the characters behind it decide whether it goes on. So the readers are
followed in front of any text that no number goes on with (`Ends`), and what follows a value in
JSON, a comma or a closing bracket, is such a text. `Reads` is what the induction on the data
carries: the value is read back from its text with any bound on the calls that is greater than the
length of the text.
-/

namespace RelQuery

/-- Data of which a JSON text loses nothing: its integers fit in 64 bits, with or without a sign,
its maps have texts as keys, and it has no floating-point numbers, whose text is decimal. -/
inductive Data.Exact : Data → Prop where
  | null : Exact .null
  | bool (b : Bool) : Exact (.bool b)
  | int {n : Int} : Int64.minValue.toInt ≤ n → n < UInt64.size → Exact (.int n)
  | text (s : String) : Exact (.text s)
  | list {xs : List Data} : (∀ x ∈ xs, Exact x) → Exact (.list xs)
  | map {entries : List (Data × Data)} :
    (∀ e ∈ entries, ∃ key, e.1 = .text key) → (∀ e ∈ entries, Exact e.2) → Exact (.map entries)

theorem Data.Exact.object {fields : List (String × Data)} (h : ∀ field ∈ fields, field.2.Exact) :
    (Data.object fields).Exact := by
  refine .map (fun e he => ?_) (fun e he => ?_) <;>
    obtain ⟨field, hfield, rfl⟩ := List.mem_map.mp he
  · exact ⟨field.1, rfl⟩
  · exact h field hfield

namespace Json

/-! ### Strings -/

theorem hexValue?_hexDigit :
    ∀ d : Nat, d < 16 → Bytes.hexValue? (Bytes.hexDigit d) = some d := by
  decide

/-- The escape of a control character stands for it. -/
theorem escape?_control {c : Char} (h : c.toNat < 0x20) (cs : List Char) :
    escape? ('u' :: '0' :: '0' :: Bytes.hexDigit (c.toNat / 16) ::
      Bytes.hexDigit (c.toNat % 16) :: cs) = some (c, cs) := by
  have hzero : Bytes.hexValue? '0' = some 0 := rfl
  have hhigh := hexValue?_hexDigit (c.toNat / 16) (by omega)
  have hlow := hexValue?_hexDigit (c.toNat % 16) (by omega)
  have hhex : hex4? ('0' :: '0' :: Bytes.hexDigit (c.toNat / 16) ::
      Bytes.hexDigit (c.toNat % 16) :: cs) = some (c.toNat, cs) := by
    simp only [hex4?, hzero, hhigh, hlow, bind, Option.bind, pure]
    congr 2
    omega
  simp only [escape?, hhex, bind, Option.bind]
  rw [if_neg (by simp; omega), if_neg (by simp; omega)]
  simp [Char.ofNat_toNat]

/-- A character is read back from its written form. -/
theorem stringBody?_escaped {fuel : Nat} {cs body rest : List Char} (c : Char)
    (h : stringBody? fuel cs = some (body, rest)) :
    stringBody? (fuel + 1) (escaped c ++ cs) = some (c :: body, rest) := by
  by_cases hquote : c = '"'
  · simp [escaped, stringBody?, escape?, h, hquote]
  by_cases hbackslash : c = '\\'
  · simp [escaped, stringBody?, escape?, h, hbackslash]
  by_cases hbackspace : c = '\x08'
  · simp [escaped, stringBody?, escape?, h, hbackspace]
  by_cases hfeed : c = '\x0c'
  · simp [escaped, stringBody?, escape?, h, hfeed]
  by_cases hnewline : c = '\n'
  · simp [escaped, stringBody?, escape?, h, hnewline]
  by_cases hreturn : c = '\r'
  · simp [escaped, stringBody?, escape?, h, hreturn]
  by_cases htab : c = '\t'
  · simp [escaped, stringBody?, escape?, h, htab]
  by_cases hcontrol : c.toNat < 0x20
  · simp [escaped, hquote, hbackslash, hbackspace, hfeed, hnewline, hreturn, htab, hcontrol,
      stringBody?, escape?_control hcontrol, h]
  · simp [escaped, hquote, hbackslash, hbackspace, hfeed, hnewline, hreturn, htab, hcontrol,
      stringBody?, h]

theorem stringBody?_quoted (rest : List Char) : ∀ {s : List Char} {fuel : Nat}, s.length < fuel →
    stringBody? fuel (s.flatMap escaped ++ '"' :: rest) = some (s, rest)
  | [], fuel + 1, _ => by simp [stringBody?]
  | c :: s, fuel + 1, h => by
      rw [List.flatMap_cons, List.append_assoc]
      exact stringBody?_escaped c (stringBody?_quoted rest (by simpa using h))

theorem length_le_flatMap_escaped (s : List Char) : s.length ≤ (s.flatMap escaped).length := by
  induction s with
  | nil => exact Nat.le_refl _
  | cons c s ih =>
      have hc : 1 ≤ (escaped c).length := by
        unfold escaped
        repeat' split
        all_goals simp
      rw [List.flatMap_cons, List.length_append, List.length_cons]
      omega

/-- A text is read back from between its quotes. -/
theorem string?_quoted (s : String) (rest : List Char) :
    string? (s.toList.flatMap escaped ++ '"' :: rest) = some (s, rest) := by
  have hfuel : s.toList.length < (s.toList.flatMap escaped ++ '"' :: rest).length + 1 := by
    have := length_le_flatMap_escaped s.toList
    rw [List.length_append, List.length_cons]
    omega
  rw [string?, stringBody?_quoted rest hfuel]
  exact congrArg (fun t => some (t, rest)) String.ofList_toList

theorem toList_quote (s : String) :
    (quote s).toList = '"' :: (s.toList.flatMap escaped ++ ['"']) := by
  rw [quote, String.toList_ofList, List.cons_append]

/-! ### Integers -/

theorem toList_toString_ofNat (n : Nat) : (toString (Int.ofNat n)).toList = Nat.toDigits 10 n :=
  String.toList_ofList

theorem toList_toString_negSucc (n : Nat) :
    (toString (Int.negSucc n)).toList = '-' :: Nat.toDigits 10 (n + 1) := by
  show ("-" ++ String.ofList (Nat.toDigits 10 (n + 1))).toList = _
  rw [String.toList_append]
  exact congrArg ('-' :: ·) String.toList_ofList

/-- A character that no number goes on with. -/
def EndsNumber (c : Char) : Prop :=
  c.isDigit = false ∧ c ≠ '.' ∧ c ≠ 'e' ∧ c ≠ 'E'

instance (c : Char) : Decidable (EndsNumber c) :=
  inferInstanceAs (Decidable (_ ∧ _))

/-- A text that no number goes on with. -/
def Ends (rest : List Char) : Prop :=
  ∀ c ∈ rest.head?, EndsNumber c

theorem ends_nil : Ends [] := by
  simp [Ends]

theorem ends_cons {c : Char} (h : EndsNumber c) (cs : List Char) : Ends (c :: cs) := by
  intro c' hc'
  cases hc'
  exact h

/-- The digits of a number that fits in 64 bits are collected to that number. -/
theorem pushAll_toDigits {n : Nat} (h : n < UInt64.size) :
    Leading.pushAll Leading.pushWhole ⟨0, 0⟩ (Nat.toDigits 10 n) = (⟨n, 0⟩, false) := by
  induction n using Nat.strongRecOn with
  | ind n ih =>
      have hstep : ∀ m d : Nat, d < 10 → 10 * m + d < UInt64.size →
          Leading.pushWhole ⟨m, 0⟩ false (d.digitChar.toNat - '0'.toNat) =
            (⟨10 * m + d, 0⟩, false) := by
        intro m d hd hfits
        have hdigit : d.digitChar.toNat - '0'.toNat = d := by
          have hzero : '0'.toNat = 48 := rfl
          rw [Nat.toNat_digitChar_of_lt_ten hd]
          omega
        rw [Leading.pushWhole, hdigit, if_neg (by simpa using hfits)]
      by_cases hsmall : n < 10
      · rw [Nat.toDigits_of_lt_base hsmall]
        simpa [Leading.pushAll] using hstep 0 n hsmall (by simpa using h)
      · have hfront := ih (n / 10) (by omega) (by omega)
        rw [Nat.toDigits_of_base_le (by decide) (by omega), Leading.pushAll, List.foldl_append]
        rw [Leading.pushAll] at hfront
        rw [hfront]
        have hmod : 10 * (n / 10) + n % 10 = n := by omega
        have hlast := hstep (n / 10) (n % 10) (by omega) (by omega)
        rw [hmod] at hlast
        exact hlast

/-- Only the number zero is written with a zero in front. -/
theorem head_toDigits_ne_zero {n : Nat} (h : n ≠ 0) : (Nat.toDigits 10 n).head? ≠ some '0' := by
  induction n using Nat.strongRecOn with
  | ind n ih =>
      by_cases hsmall : n < 10
      · rw [Nat.toDigits_of_lt_base hsmall]
        intro hhead
        have := congrArg Char.toNat (Option.some.inj hhead)
        rw [Nat.toNat_digitChar_of_lt_ten hsmall] at this
        simp at this
        omega
      · have hne := ih (n / 10) (by omega) (by omega)
        rw [Nat.toDigits_of_base_le (by decide) (by omega)]
        rwa [List.head?_append_of_ne_nil _ Nat.toDigits_ne_nil]

/-- The digits of a number are cut off in front of a text that no number goes on with. -/
theorem digitRun?_toDigits {n : Nat} {rest : List Char} (h : Ends rest) :
    digitRun? (Nat.toDigits 10 n ++ rest) = some (Nat.toDigits 10 n, rest) := by
  have hdigits : ∀ c ∈ Nat.toDigits 10 n, c.isDigit = true := fun c hc =>
    Nat.isDigit_of_mem_toDigits (by decide) (by decide) hc
  have htake : rest.takeWhile Char.isDigit = [] := by
    cases rest with
    | nil => rfl
    | cons c rest => simp [(h c rfl).1]
  have hdrop : rest.dropWhile Char.isDigit = rest := by
    cases rest with
    | nil => rfl
    | cons c rest => simp [(h c rfl).1]
  rw [digitRun?, List.takeWhile_append_of_pos hdigits, List.dropWhile_append_of_pos hdigits, htake,
    hdrop, List.append_nil]
  cases hn : Nat.toDigits 10 n with
  | nil => exact absurd hn Nat.toDigits_ne_nil
  | cons c cs => rfl

theorem fraction?_of_ends {rest : List Char} (h : Ends rest) :
    fraction? rest = some (none, rest) := by
  cases rest with
  | nil => rfl
  | cons c rest =>
      have := (h c rfl).2.1
      simp [fraction?, this]

theorem exponent?_of_ends {rest : List Char} (h : Ends rest) :
    exponent? rest = some (none, rest) := by
  cases rest with
  | nil => rfl
  | cons c rest => simp [exponent?, (h c rfl).2.2]

/-- The sign and the digits of an integer are taken apart as they were put together. -/
theorem numeral?_toDigits (negative : Bool) {n : Nat} {rest : List Char} (h : Ends rest) :
    numeral? ((if negative then ['-'] else []) ++ Nat.toDigits 10 n ++ rest) =
      (number? negative (Nat.toDigits 10 n) none none).bind fun d => some (d, rest) := by
  by_cases hzero : n = 0
  · subst hzero
    cases negative <;>
      simp [numeral?, fraction?_of_ends h, exponent?_of_ends h]
  · have hrun := digitRun?_toDigits (n := n) h
    have hhead := head_toDigits_ne_zero hzero
    have hdigit := fun c hc => Nat.isDigit_of_mem_toDigits (b := 10) (n := n) (c := c)
      (by decide) (by decide) hc
    cases hn : Nat.toDigits 10 n with
    | nil => exact absurd hn Nat.toDigits_ne_nil
    | cons c cs =>
        rw [hn] at hrun hhead hdigit
        have hminus : c ≠ '-' := by
          intro hc
          exact absurd (hdigit c List.mem_cons_self) (by rw [hc]; decide)
        have hnotzero : c ≠ '0' := fun hc => hhead (congrArg some hc)
        cases negative <;>
          simp_all [numeral?, fraction?_of_ends h, exponent?_of_ends h]

theorem number?_toDigits {n : Nat} (h : n < UInt64.size) :
    number? false (Nat.toDigits 10 n) none none = some (.int n) := by
  rw [number?, pushAll_toDigits h]
  rfl

/-- Behind a minus sign, zero is not an integer, and one bit is taken by the sign. -/
theorem number?_negative_toDigits {n : Nat} (h : n < UInt64.size / 2) :
    number? true (Nat.toDigits 10 (n + 1)) none none = some (.int (.negSucc n)) := by
  have hmin : Int64.minValue.toInt = -(UInt64.size / 2) := rfl
  have hsize : n + 1 < UInt64.size := by omega
  have hfits : ¬(n + 1 = 0 || -((n + 1 : Nat) : Int) < Int64.minValue.toInt) = true := by
    simp only [Bool.or_eq_true, decide_eq_true_eq]
    omega
  rw [number?, pushAll_toDigits hsize]
  exact if_neg hfits

/-- An integer of 64 bits is read back from its digits. -/
theorem numeral?_toString {n : Int} (hlow : Int64.minValue.toInt ≤ n) (hhigh : n < UInt64.size)
    {rest : List Char} (h : Ends rest) :
    numeral? ((toString n).toList ++ rest) = some (.int n, rest) := by
  cases n with
  | ofNat n =>
      have hread := numeral?_toDigits false (n := n) h
      rw [number?_toDigits (Int.ofNat_lt.mp hhigh)] at hread
      rw [toList_toString_ofNat]
      exact hread
  | negSucc n =>
      have hmin : Int64.minValue.toInt = -(UInt64.size / 2) := rfl
      have hread := numeral?_toDigits true (n := n + 1) h
      rw [number?_negative_toDigits (by omega)] at hread
      rw [toList_toString_negSucc]
      exact hread

/-! ### Values -/

/-- A character that may stand between the parts of a text. -/
def IsBlank (c : Char) : Prop :=
  c = ' ' ∨ c = '\t' ∨ c = '\n' ∨ c = '\r'

instance (c : Char) : Decidable (IsBlank c) :=
  inferInstanceAs (Decidable (_ ∨ _))

theorem skipBlanks_cons {c : Char} (h : ¬IsBlank c) (cs : List Char) :
    skipBlanks (c :: cs) = c :: cs := by
  simp_all [IsBlank, skipBlanks]

theorem exists_cons_toString (n : Int) :
    ∃ c cs, (toString n).toList = c :: cs ∧ (c = '-' ∨ c.isDigit = true) := by
  cases n with
  | ofNat n =>
      obtain ⟨c, cs, hcs⟩ := List.exists_cons_of_ne_nil (Nat.toDigits_ne_nil (n := n) (b := 10))
      have hc : c ∈ Nat.toDigits 10 n := by
        rw [hcs]
        exact List.mem_cons_self
      exact ⟨c, cs, (toList_toString_ofNat n).trans hcs,
        .inr (Nat.isDigit_of_mem_toDigits (by decide) (by decide) hc)⟩
  | negSucc n => exact ⟨'-', _, toList_toString_negSucc n, .inl rfl⟩

/-- A number is what begins like one. -/
theorem value?_of_number {c : Char} (h : c = '-' ∨ c.isDigit = true) (fuel : Nat)
    (cs : List Char) : value? (fuel + 1) (c :: cs) = numeral? (c :: cs) := by
  have hblank : ¬IsBlank c := by
    rintro (rfl | rfl | rfl | rfl) <;> simp at h
  rw [value?, skipBlanks_cons hblank]
  split
  all_goals first
    | rfl
    | (rename_i heq; cases heq; simp at h)

/-- What does not close a list at once is its first element. -/
theorem value?_bracket {c : Char} (hblank : ¬IsBlank c) (hbracket : c ≠ ']') (fuel : Nat)
    (cs : List Char) : value? (fuel + 1) ('[' :: c :: cs) =
      (elements? fuel (c :: cs)).map fun (xs, rest) => (.list xs, rest) := by
  simp only [value?, skipBlanks_cons (c := '[') (by decide)]
  rw [skipBlanks_cons hblank]
  split
  · rename_i heq
    exact absurd (List.cons.inj heq).1 hbracket
  · rfl

/-- What does not close a map at once is its first key. -/
theorem value?_brace (fuel : Nat) (cs : List Char) :
    value? (fuel + 1) ('\x7b' :: '"' :: cs) =
      (members? fuel ('"' :: cs)).map fun (entries, rest) => (.map entries, rest) := by
  simp [value?, skipBlanks]

/-- No text of a value begins with a blank or like the end of a list. -/
theorem exists_cons_write {d : Data} (h : d.Exact) :
    ∃ c cs, (write d).toList = c :: cs ∧ ¬IsBlank c ∧ c ≠ ']' := by
  cases h with
  | null => exact ⟨'n', ['u', 'l', 'l'], by rw [write]; rfl, by decide, by decide⟩
  | bool b =>
      cases b
      · exact ⟨'f', ['a', 'l', 's', 'e'], by rw [write]; rfl, by decide, by decide⟩
      · exact ⟨'t', ['r', 'u', 'e'], by rw [write]; rfl, by decide, by decide⟩
  | @int n _ _ =>
      obtain ⟨c, cs, hcs, hc⟩ := exists_cons_toString n
      refine ⟨c, cs, by rw [write, hcs], ?_, ?_⟩
      · rintro (rfl | rfl | rfl | rfl) <;> simp at hc
      · rintro rfl
        simp at hc
  | text s => exact ⟨'"', _, by rw [write]; exact toList_quote s, by decide, by decide⟩
  | @list xs _ =>
      exact ⟨'[', _, by simp only [write, String.toList_append]; rfl, by decide, by decide⟩
  | @map entries _ _ =>
      exact ⟨'\x7b', _, by simp only [write, String.toList_append]; rfl, by decide, by decide⟩

theorem exists_cons_writeElements {x : Data} (h : x.Exact) (xs : List Data) :
    ∃ c cs, (writeElements (x :: xs)).toList = c :: cs ∧ ¬IsBlank c ∧ c ≠ ']' := by
  obtain ⟨c, cs, hcs, hc⟩ := exists_cons_write h
  cases xs with
  | nil => exact ⟨c, cs, by rw [writeElements, hcs], hc⟩
  | cons y xs =>
      exact ⟨c, _, by
        rw [writeElements, String.toList_append, String.toList_append, hcs, List.cons_append,
          List.cons_append], hc⟩

theorem exists_cons_writeMembers {e : Data × Data} (h : ∃ key, e.1 = .text key)
    (entries : List (Data × Data)) : ∃ cs, (writeMembers (e :: entries)).toList = '"' :: cs := by
  obtain ⟨key, v⟩ := e
  obtain ⟨s, rfl⟩ : ∃ s, key = .text s := h
  cases entries <;> simp [writeMembers, writeKey, toList_quote]

/-- The data is read back from its text, whatever follows. -/
def Reads (d : Data) : Prop :=
  ∀ (fuel : Nat) (rest : List Char), (write d).toList.length < fuel → Ends rest →
    value? fuel ((write d).toList ++ rest) = some (d, rest)

theorem reads_of_succ {d : Data}
    (h : ∀ (fuel : Nat) (rest : List Char), (write d).toList.length ≤ fuel → Ends rest →
      value? (fuel + 1) ((write d).toList ++ rest) = some (d, rest)) : Reads d := by
  rintro (_ | fuel) rest hfuel hrest
  · exact absurd hfuel (Nat.not_lt_zero _)
  · exact h fuel rest (Nat.le_of_lt_succ hfuel) hrest

theorem length_write_pos {d : Data} (h : d.Exact) : 0 < (write d).toList.length := by
  obtain ⟨c, cs, hcs, -⟩ := exists_cons_write h
  rw [hcs]
  exact Nat.succ_pos _

/-- Elements are read back one by one; a comma goes on, the bracket ends them. -/
theorem elements?_write (rest : List Char) : ∀ (xs : List Data) (fuel : Nat), xs ≠ [] →
    (∀ x ∈ xs, x.Exact) → (∀ x ∈ xs, Reads x) → (writeElements xs).toList.length + 1 < fuel →
    elements? fuel ((writeElements xs).toList ++ ']' :: rest) = some (xs, rest)
  | [x], fuel + 1, _, _, hxs, hfuel => by
      have hx := hxs x List.mem_cons_self fuel (']' :: rest)
        (by simpa [writeElements] using hfuel) (ends_cons (by decide) _)
      simp [elements?, writeElements, hx, skipBlanks]
  | x :: y :: xs, fuel + 1, _, hexact, hxs, hfuel => by
      have hpos := length_write_pos (hexact x List.mem_cons_self)
      simp only [writeElements, String.toList_append, List.length_append] at hfuel
      have hx := hxs x List.mem_cons_self fuel
        (',' :: ((writeElements (y :: xs)).toList ++ ']' :: rest)) (by omega)
        (ends_cons (by decide) _)
      have hrest := elements?_write rest (y :: xs) fuel (List.cons_ne_nil _ _)
        (fun z hz => hexact z (List.mem_cons_of_mem _ hz))
        (fun z hz => hxs z (List.mem_cons_of_mem _ hz)) (by omega)
      simp [elements?, writeElements, hx, skipBlanks, hrest]

/-- Entries are read back one by one; a comma goes on, the brace ends them. -/
theorem members?_write (rest : List Char) : ∀ (entries : List (Data × Data)) (fuel : Nat),
    entries ≠ [] → (∀ e ∈ entries, ∃ key, e.1 = .text key) → (∀ e ∈ entries, Reads e.2) →
    (writeMembers entries).toList.length + 1 < fuel →
    members? fuel ((writeMembers entries).toList ++ '\x7d' :: rest) = some (entries, rest)
  | [(key, x)], fuel + 1, _, hkeys, hentries, hfuel => by
      obtain ⟨s, rfl⟩ : ∃ s, key = .text s := hkeys _ List.mem_cons_self
      have hreads : Reads x := hentries _ List.mem_cons_self
      simp only [writeMembers, String.toList_append, List.length_append] at hfuel
      have hx := hreads fuel ('\x7d' :: rest) (by omega) (ends_cons (by decide) _)
      have hkey := string?_quoted s (':' :: ((write x).toList ++ '\x7d' :: rest))
      simp [members?, writeMembers, writeKey, toList_quote, skipBlanks, hkey, hx]
  | (key, x) :: entry :: entries, fuel + 1, _, hkeys, hentries, hfuel => by
      obtain ⟨s, rfl⟩ : ∃ s, key = .text s := hkeys _ List.mem_cons_self
      have hreads : Reads x := hentries _ List.mem_cons_self
      simp only [writeMembers, writeKey, toList_quote, String.toList_append, List.length_append,
        List.length_cons] at hfuel
      have hx := hreads fuel
        (',' :: ((writeMembers (entry :: entries)).toList ++ '\x7d' :: rest)) (by omega)
        (ends_cons (by decide) _)
      have hkey := string?_quoted s (':' :: ((write x).toList ++
        ',' :: ((writeMembers (entry :: entries)).toList ++ '\x7d' :: rest)))
      have hrest := members?_write rest (entry :: entries) fuel
        (List.cons_ne_nil _ _) (fun e he => hkeys e (List.mem_cons_of_mem _ he))
        (fun e he => hentries e (List.mem_cons_of_mem _ he)) (by omega)
      simp [members?, writeMembers, writeKey, toList_quote, skipBlanks, hkey, hx, hrest]

/-- A list is read back if its elements are. -/
theorem reads_list {xs : List Data} (hexact : ∀ x ∈ xs, x.Exact) (hxs : ∀ x ∈ xs, Reads x) :
    Reads (.list xs) := by
  refine reads_of_succ fun fuel rest hfuel _ => ?_
  cases xs with
  | nil => simp [write, writeElements, value?, skipBlanks]
  | cons x xs =>
      obtain ⟨c, cs, hcs, hblank, hbracket⟩ :=
        exists_cons_writeElements (hexact x List.mem_cons_self) xs
      have hlength : (writeElements (x :: xs)).toList.length + 1 + 1 ≤ fuel := by
        simpa [write] using hfuel
      have hread := elements?_write rest (x :: xs) fuel (List.cons_ne_nil _ _) hexact hxs hlength
      rw [hcs] at hread
      have hopen := value?_bracket hblank hbracket fuel (cs ++ ']' :: rest)
      rw [← List.cons_append, hread] at hopen
      simpa [write, hcs] using hopen

/-- A map whose keys are texts is read back if its values are. -/
theorem reads_map {entries : List (Data × Data)} (hkeys : ∀ e ∈ entries, ∃ key, e.1 = .text key)
    (hentries : ∀ e ∈ entries, Reads e.2) : Reads (.map entries) := by
  refine reads_of_succ fun fuel rest hfuel _ => ?_
  cases entries with
  | nil => simp [write, writeMembers, value?, skipBlanks]
  | cons e entries =>
      obtain ⟨cs, hcs⟩ := exists_cons_writeMembers (hkeys e List.mem_cons_self) entries
      have hlength : (writeMembers (e :: entries)).toList.length + 1 + 1 ≤ fuel := by
        simpa [write] using hfuel
      have hread := members?_write rest (e :: entries) fuel (List.cons_ne_nil _ _) hkeys hentries
        hlength
      rw [hcs] at hread
      have hopen := value?_brace fuel (cs ++ '\x7d' :: rest)
      rw [← List.cons_append, hread] at hopen
      simpa [write, hcs] using hopen

theorem reads_of_exact {d : Data} (h : d.Exact) : Reads d := by
  induction h with
  | null => exact reads_of_succ fun fuel rest _ _ => by simp [write, value?, skipBlanks]
  | bool b =>
      exact reads_of_succ fun fuel rest _ _ => by cases b <;> simp [write, value?, skipBlanks]
  | @int n hlow hhigh =>
      refine reads_of_succ fun fuel rest _ hrest => ?_
      obtain ⟨c, cs, hcs, hc⟩ := exists_cons_toString n
      have hread := numeral?_toString hlow hhigh hrest
      rw [write]
      rw [hcs] at hread ⊢
      exact (value?_of_number hc fuel _).trans hread
  | text s =>
      exact reads_of_succ fun fuel rest _ _ => by
        simp [write, value?, skipBlanks, toList_quote, string?_quoted]
  | list hexact ih => exact reads_list hexact ih
  | map hkeys _ ih => exact reads_map hkeys ih

/-- **A JSON text is read back as the data it was written from.** -/
theorem read?_write {d : Data} (h : d.Exact) : read? (write d) = some d := by
  have hread := reads_of_exact h ((write d).toList.length + 1) [] (Nat.lt_add_one _) ends_nil
  rw [List.append_nil] at hread
  rw [read?, hread]
  rfl

end Json

end RelQuery
