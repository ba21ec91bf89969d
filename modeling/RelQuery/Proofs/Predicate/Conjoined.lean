import RelQuery.Proofs.Predicate.Quoted

/-!
# RelQuery.Proofs.Predicate.Conjoined

**Filter texts that are joined by the word `and` are read one by one.**

A filter text is cut at every `and` between spaces, in any letter case. If texts are joined that do
not have these three letters in a row, the cuts are exactly where they have been joined
(`clauses_chain`): the letters of an occurrence stand next to each other, so they are those of a
separator, or else in one of the texts. Nothing else that is in the texts matters, spaces at their
ends included, although the separators lose theirs.

What is left is that reading goes through the conditions from the front and stops at the first that
cannot be read (`ofText_eq_conjoin`).
-/

namespace RelQuery

/-- Whether there is nothing but blanks in a text. -/
def Text.isBlankText (text : String) : Bool :=
  text.toList.all Text.isBlank

namespace Predicate

/-- Texts one after another, each of them but the first behind a separator. -/
def chain (first : String) : List (String × String) → String
  | [] => first
  | (separator, text) :: more => first ++ separator ++ chain text more

/-- The conjunction of conditions, grouped to the left. There has to be one. -/
def conjoin : List Predicate → Except Error Predicate
  | [] => .error .emptyFilter
  | p :: ps => .ok (conjunction p ps)

variable {schema : Schema} {first : String} {more : List (String × String)}

/-! ### Reading condition by condition -/

/-- Conditions that are read one by one and added to a first one. -/
theorem foldlM_and : ∀ (clauses : List (List Char)) (p : Predicate),
    clauses.foldlM (fun p clause => do return and p (← ofClause schema clause)) p =
      clauses.mapM (ofClause schema) >>= fun ps => .ok (conjunction p ps)
  | [], p => rfl
  | clause :: clauses, p => by
      rw [List.foldlM_cons, List.mapM_cons]
      cases hclause : ofClause schema clause with
      | error e => rfl
      | ok q =>
          refine (foldlM_and clauses (and p q)).trans ?_
          cases clauses.mapM (ofClause schema) <;> rfl

/-- A filter text is the conjunction of its conditions, or the error of the first that cannot be
read. -/
theorem ofText_eq_conjoin (schema : Schema) (text : String) :
    ofText schema text = (clauses text.toList).mapM (ofClause schema) >>= conjoin := by
  unfold ofText
  cases clauses text.toList with
  | nil => rfl
  | cons clause more =>
      dsimp only
      rw [List.mapM_cons]
      cases hclause : ofClause schema clause with
      | error e => rfl
      | ok p =>
          refine (foldlM_and more p).trans ?_
          cases more.mapM (ofClause schema) <;> rfl

/-! ### Texts without the word -/

/-- A text without the letters of the word is one condition, unless it is blank. -/
theorem clauses_of_no_letters {text : String}
    (htext : ¬Text.Occurs Text.sameLetter "and".toList text.toList) :
    clauses text.toList = ([text].filter (!Text.isBlankText ·)).map (Text.trim ·.toList) := by
  have hmark : ¬Text.Occurs Text.sameLetter conjunctionMark text.toList :=
    fun h => htext (@Text.Occurs.of_part _ "and".toList _ [' '] [' '] h)
  rw [clauses_eq_filter hmark]
  have hblank : (Text.trim text.toList).isEmpty = Text.isBlankText text := by
    rw [Bool.eq_iff_iff, List.isEmpty_iff, Text.trim_eq_nil_iff, Text.isBlankText, List.all_eq_true]
  by_cases h : Text.isBlankText text = true
  · simp [hblank, h]
  · simp [hblank, Bool.eq_false_iff.mpr h]

/-- Such a text is read as its one condition. -/
theorem ofText_of_no_letters {text : String}
    (htext : ¬Text.Occurs Text.sameLetter "and".toList text.toList)
    (hblank : Text.isBlankText text = false) :
    ofText schema text = ofClause schema (Text.trim text.toList) := by
  have hclauses : clauses text.toList = [Text.trim text.toList] := by
    rw [clauses_of_no_letters htext]
    simp [hblank]
  rw [ofText_eq_conjoin, hclauses, List.mapM_cons, List.mapM_nil]
  cases ofClause schema (Text.trim text.toList) <;> rfl

/-! ### Joined texts -/

/-- A text without the letters of the word is cut off where a separator is written behind it. -/
theorem cut?_separator {text separator : String} (rest : List Char)
    (htext : ¬Text.Occurs Text.sameLetter "and".toList text.toList)
    (hseparator : Text.lowerCase separator.toList = " and ".toList) :
    Text.cut? Text.sameLetter conjunctionMark (text.toList ++ (separator.toList ++ rest)) =
      some (text.toList, rest) := by
  have hword : Text.Spells Text.sameLetter conjunctionMark separator.toList :=
    Text.spells_sameLetter_iff.mpr hseparator.symm
  obtain ⟨x, word, hx, -, hspace⟩ := List.forall₂_cons_left_iff.mp hword
  obtain rfl := Text.eq_space_of_sameLetter hx
  rw [hspace] at hword ⊢
  exact @Text.cut?_append_spelled _ rest ' ' ' ' "and".toList [' '] word
    (List.all_iff_forall_prop.mp (by decide)) hword _ htext

/-- The conditions of joined texts are those of the texts. -/
theorem clauses_chain : ∀ {first : String} {more : List (String × String)},
    (∀ p ∈ more, Text.lowerCase p.1.toList = " and ".toList) →
    (∀ text ∈ first :: more.map Prod.snd,
      ¬Text.Occurs Text.sameLetter "and".toList text.toList) →
    clauses (chain first more).toList =
      ((first :: more.map Prod.snd).filter (!Text.isBlankText ·)).map (Text.trim ·.toList)
  | first, [], _, htexts => clauses_of_no_letters (htexts first List.mem_cons_self)
  | first, (separator, text) :: more, hseparators, htexts => by
      have hfirst := htexts first List.mem_cons_self
      have hcut := cut?_separator (chain text more).toList hfirst
        (hseparators _ List.mem_cons_self)
      have ih := @clauses_chain text more (fun p hp => hseparators p (List.mem_cons_of_mem _ hp))
        fun t ht => htexts t (List.mem_cons_of_mem _ ht)
      have hone := clauses_eq_filter fun h =>
        hfirst (@Text.Occurs.of_part _ "and".toList _ [' '] [' '] h)
      rw [chain, String.toList_append, String.toList_append, List.append_assoc,
        clauses_of_cut? hcut, ← hone, clauses_of_no_letters hfirst, ih, ← List.map_append,
        ← List.filter_append]
      rfl

/-- **Joined filter texts are read one by one.** Texts that do not have the letters of the word
`and` in a row, in any letter case, are joined by this word between spaces, each time in a letter
case of its own. The joined text is read as the conjunction, grouped to the left, of what the texts
are read as that are not blank, or fails with the error of the first of them that cannot be read. If
all of them are blank it cannot be planned. -/
theorem ofText_chain (schema : Schema)
    (hseparators : ∀ p ∈ more, Text.lowerCase p.1.toList = " and ".toList)
    (htexts : ∀ text ∈ first :: more.map Prod.snd,
      ¬Text.Occurs Text.sameLetter "and".toList text.toList) :
    (ofText schema (chain first more) =
      ((first :: more.map Prod.snd).filter (!Text.isBlankText ·)).mapM (ofText schema)
        >>= conjoin) ∧
    ((∀ text ∈ first :: more.map Prod.snd, Text.isBlankText text = true) →
      ∃ e, ofText schema (chain first more) = .error e ∧ e.kind = .plan) := by
  have hread : ofText schema (chain first more) =
      ((first :: more.map Prod.snd).filter (!Text.isBlankText ·)).mapM (ofText schema)
        >>= conjoin := by
    rw [ofText_eq_conjoin, clauses_chain hseparators htexts, List.mapM_map]
    congr 1
    refine mapM_congr fun text htext => ?_
    obtain ⟨hmem, hblank⟩ := List.mem_filter.mp htext
    exact (ofText_of_no_letters (htexts text hmem) (by simpa using hblank)).symm
  refine ⟨hread, fun hblank => ⟨.emptyFilter, ?_, rfl⟩⟩
  have hnone : (first :: more.map Prod.snd).filter (!Text.isBlankText ·) = [] :=
    List.filter_eq_nil_iff.mpr fun text htext => by simp [hblank text htext]
  rw [hread, hnone]
  rfl

/-- Tools with their prices. -/
def tools : Schema :=
  ⟨"tools", [⟨"tool", .text, false, .position 0⟩, ⟨"price", .int32, true, .position 1⟩]⟩

/-- Two separators with a blank text between them, and a text that has the letters of the word, but
not in a row. -/
theorem ofText_chain_tools :
    ofText tools (chain "price >= 3 " [(" And ", " "), (" AND ", "tool == 'a nd'"),
      (" and ", "price IS NOT NULL")]) =
    .ok (and (and (compare "price" .ge (.int32 3)) (compare "tool" .eq (.text "a nd")))
      (not (isNull "price"))) := by
  have hprice : ofText tools "price >= 3 " = .ok (compare "price" .ge (.int32 3)) := by
    rw [ofText_of_no_letters (by decide) (by decide)]
    rfl
  have htool : ofText tools "tool == 'a nd'" = .ok (compare "tool" .eq (.text "a nd")) := by
    rw [ofText_of_no_letters (by decide) (by decide)]
    rfl
  have hknown : ofText tools "price IS NOT NULL" = .ok (not (isNull "price")) := by
    rw [ofText_of_no_letters (by decide) (by decide)]
    rfl
  have hchain := (@ofText_chain "price >= 3 " [(" And ", " "), (" AND ", "tool == 'a nd'"),
    (" and ", "price IS NOT NULL")] tools (by decide) (by decide)).1
  have hfilter : ("price >= 3 " :: [(" And ", " "), (" AND ", "tool == 'a nd'"),
      (" and ", "price IS NOT NULL")].map Prod.snd).filter (!Text.isBlankText ·) =
      ["price >= 3 ", "tool == 'a nd'", "price IS NOT NULL"] := by decide
  rw [hfilter, List.mapM_cons, List.mapM_cons, List.mapM_cons, List.mapM_nil, hprice, htool,
    hknown] at hchain
  exact hchain

end Predicate

end RelQuery
