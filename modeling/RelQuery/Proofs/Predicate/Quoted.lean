import Mathlib.Data.Bool.AllAny
import RelQuery.Predicate.Reading
import RelQuery.Proofs.Except
import RelQuery.Proofs.Text.Search

/-!
# RelQuery.Proofs.Predicate.Quoted

**When quoted text is read as it stands.**

A text literal is written between quotes, but the quotes are removed at the very end: the filter
text has been cut at the word `and` before, and each condition at the first operator of a fixed
list, and neither looks at quotes. `Inert` says what a text must not have in it so that both cuts
pass it over: the word `and` between spaces, and the operators that are looked for before the one
it is compared by. `ofText_quoted_iff` shows that this is exactly what is needed. Everything else
may stand in the text, the words `IS NULL` at its end and later operators included.
-/

namespace RelQuery.Predicate

/-- The characters of operators. -/
def operatorLetters : List Char := ['=', '!', '<', '>']

/-- The word that joins conditions, between spaces. -/
def conjunctionMark : List Char := ' ' :: "and ".toList

/-- The operators that are looked for before this one. -/
def lookedForBefore (op : Comparison) : List Comparison :=
  operators.takeWhile (· != op)

/-- A text in which nothing is taken for a mark of filter text when it stands in quotes behind the
operator. -/
structure Inert (op : Comparison) (s : List Char) : Prop where
  /-- The word `and`, between spaces and in any letter case, does not occur. -/
  no_and : ¬Text.Occurs Text.sameLetter conjunctionMark s
  /-- No operator occurs that is looked for before this one. -/
  no_operator : ∀ op' ∈ lookedForBefore op, ¬Text.Occurs (· == ·) op'.symbol.toList s

variable {schema : Schema} {cs : List Char} {op : Comparison}

/-! ### Operators -/

theorem cut?_of_splitOperator? {before rest : List Char} : ∀ {ops : List Comparison},
    splitOperator? cs ops = some (op, before, rest) →
      Text.cut? (· == ·) op.symbol.toList cs = some (before, rest)
  | [], h => by simp [splitOperator?] at h
  | op' :: ops, h => by
      rw [splitOperator?] at h
      split at h
      · rename_i before' rest' hcut
        obtain ⟨rfl, hparts⟩ := Prod.mk.inj (Option.some.inj h)
        obtain ⟨rfl, rfl⟩ := Prod.mk.inj hparts
        exact hcut
      · exact cut?_of_splitOperator? h

/-- A condition is cut at an operator of a list if none of those before it occurs. -/
theorem splitOperator?_eq_some_iff {later : List Comparison} {before rest : List Char} :
    ∀ {earlier : List Comparison}, op ∉ earlier →
      (splitOperator? cs (earlier ++ op :: later) = some (op, before, rest) ↔
        (∀ op' ∈ earlier, ¬Text.Occurs (· == ·) op'.symbol.toList cs) ∧
          Text.cut? (· == ·) op.symbol.toList cs = some (before, rest))
  | [], _ => by
      refine ⟨fun h => ⟨by simp, cut?_of_splitOperator? h⟩, fun h => ?_⟩
      rw [List.nil_append, splitOperator?, h.2]
  | op' :: earlier, hop => by
      have hne : op' ≠ op := fun h => hop (h ▸ List.mem_cons_self)
      have ih := @splitOperator?_eq_some_iff later before rest earlier
        fun h => hop (List.mem_cons_of_mem _ h)
      rw [List.cons_append, splitOperator?, List.forall_mem_cons, and_assoc, ← ih]
      cases hcut : Text.cut? (· == ·) op'.symbol.toList cs with
      | some parts =>
          have hoccurs : Text.Occurs (· == ·) op'.symbol.toList cs :=
            Text.isSome_cut?_iff.mp (by rw [hcut]; rfl)
          simp [hne, hoccurs]
      | none =>
          rw [and_iff_right (Text.cut?_eq_none_iff.mp hcut)]

theorem operators_eq (op : Comparison) :
    ∃ later, operators = lookedForBefore op ++ op :: later := by
  cases op <;> exact ⟨_, rfl⟩

theorem notMem_lookedForBefore (op : Comparison) : op ∉ lookedForBefore op := by
  cases op <;> decide

/-- An operator is a letter of operators and possibly another. -/
theorem exists_symbol (op : Comparison) :
    ∃ m mark, op.symbol.toList = m :: mark ∧ m ∈ operatorLetters := by
  cases op <;> exact ⟨_, _, rfl, by decide⟩

/-- No operator has a character that is not a letter of operators. -/
theorem symbol_ne {x : Char} (hx : x ∉ operatorLetters) (op : Comparison) :
    ∀ m ∈ op.symbol.toList, (m == x) = false := by
  have hletters : ∀ m ∈ op.symbol.toList, m ∈ operatorLetters := by
    cases op <;> exact List.all_iff_forall_prop.mp (by decide)
  intro m hm
  rw [beq_eq_false_iff_ne]
  rintro rfl
  exact hx (hletters m hm)

/-! ### Conditions -/

/-- What is read as a comparison has been cut at its operator. -/
theorem exists_split_of_ofClause {column : String} {v : Value}
    (h : ofClause schema cs = .ok (compare column op v)) :
    ∃ before rest, splitOperator? (Text.trim cs) operators = some (op, before, rest) := by
  unfold ofClause at h
  dsimp only at h
  split at h
  · obtain ⟨i, hi, h⟩ := bind_eq_ok_iff.mp h
    simp [pure, Except.pure] at h
  · split at h
    · obtain ⟨i, hi, h⟩ := bind_eq_ok_iff.mp h
      simp [pure, Except.pure] at h
    · split at h
      · simp at h
      · rename_i op' before rest hsplit
        obtain ⟨c, hc, h⟩ := bind_eq_ok_iff.mp h
        split at h
        · obtain ⟨-, rfl, -⟩ := compare.inj (pure_eq_ok_iff.mp h)
          exact ⟨before, rest, hsplit⟩
        · simp at h

/-- A condition that ends with a quote is read as the comparison at which it is cut. -/
theorem ofClause_eq_compare (htrim : Text.trim cs = cs) (hlast : cs.getLast? = some '\'')
    {before rest : List Char} (hsplit : splitOperator? cs operators = some (op, before, rest))
    {c : Column} (hc : schema.columnNamed (String.ofList (Text.trim before)) = .ok c) {v : Value}
    (hv : Value.ofLiteral? c.type (Text.trim rest) = some v) :
    ofClause schema cs = .ok (compare (String.ofList (Text.trim before)) op v) := by
  obtain ⟨front, rfl⟩ := List.getLast?_eq_some_iff.mp hlast
  have hnotnull : Text.stripBack? Text.sameLetter " IS NOT NULL".toList (front ++ ['\'']) = none :=
    @Text.stripBack?_concat _ " IS NOT NUL".toList front 'L' '\'' rfl
  have hnull : Text.stripBack? Text.sameLetter " IS NULL".toList (front ++ ['\'']) = none :=
    @Text.stripBack?_concat _ " IS NUL".toList front 'L' '\'' rfl
  unfold ofClause
  simp only [htrim, hnotnull, hnull, hsplit, hc, bind, Except.bind, hv]
  rfl

/-! ### Conjunctions -/

/-- A text without the word `and` is one condition, unless it is blank. -/
theorem clauses_eq_filter (h : ¬Text.Occurs Text.sameLetter conjunctionMark cs) :
    clauses cs = [Text.trim cs].filter (!·.isEmpty) := by
  rw [clauses, Text.pieces_of_cut?_eq_none (Text.cut?_eq_none_iff.mpr h), List.map_singleton]

theorem clauses_of_not_occurs (h : ¬Text.Occurs Text.sameLetter conjunctionMark cs)
    (htrim : Text.trim cs ≠ []) : clauses cs = [Text.trim cs] := by
  rw [clauses_eq_filter h]
  simp [htrim]

/-- A text with the word `and` has the condition before it, unless that is blank, and those behind
it. -/
theorem clauses_of_cut? {before rest : List Char}
    (h : Text.cut? Text.sameLetter conjunctionMark cs = some (before, rest)) :
    clauses cs = [Text.trim before].filter (!·.isEmpty) ++ clauses rest := by
  rw [clauses, clauses, Text.pieces_of_cut?_eq_some h, List.map_cons, ← List.singleton_append,
    List.filter_append]

/-- A character that is neither blank nor one of the word's is in one of the conditions. -/
theorem exists_mem_clauses {x : Char} (hx : x ∈ cs) (hblank : Text.isBlank x = false)
    (hand : ∀ m ∈ conjunctionMark, Text.sameLetter m x = false) :
    ∃ clause ∈ clauses cs, x ∈ clause := by
  obtain ⟨piece, hpiece, hmem⟩ := Text.exists_mem_pieces hand hx
  have htrim := Text.mem_trim hmem hblank
  refine ⟨Text.trim piece, List.mem_filter.mpr ⟨List.mem_map_of_mem hpiece, ?_⟩, htrim⟩
  simpa using List.ne_nil_of_mem htrim

/-- A quote is not one of the word's characters. -/
theorem sameLetter_quote : ∀ m ∈ conjunctionMark, Text.sameLetter m '\'' = false :=
  List.all_iff_forall_prop.mp (by decide)

/-- A text that is cut at the word `and` is at least two conditions, if there is a quote on both
sides. -/
theorem exists_clauses_of_cut? {before rest : List Char}
    (h : Text.cut? Text.sameLetter conjunctionMark cs = some (before, rest))
    (hbefore : '\'' ∈ before) (hrest : '\'' ∈ rest) :
    ∃ first second more, clauses cs = first :: second :: more := by
  have htrim : Text.trim before ≠ [] := List.ne_nil_of_mem (Text.mem_trim hbefore (by decide))
  obtain ⟨clause, hclause, -⟩ := exists_mem_clauses hrest (by decide) sameLetter_quote
  obtain ⟨second, more, hclauses⟩ := List.exists_cons_of_ne_nil (List.ne_nil_of_mem hclause)
  refine ⟨Text.trim before, second, more, ?_⟩
  rw [clauses_of_cut? h, hclauses]
  simp [htrim]

theorem exists_and_of_foldlM : ∀ {more : List (List Char)} {clause : List Char} {p q : Predicate},
    (clause :: more).foldlM (fun p clause => do return and p (← ofClause schema clause)) p = .ok q →
      ∃ a b, q = and a b
  | more, clause, p, q, h => by
      rw [List.foldlM_cons] at h
      obtain ⟨p', hp', h⟩ := bind_eq_ok_iff.mp h
      cases more with
      | nil =>
          obtain ⟨r, -, hp'⟩ := bind_eq_ok_iff.mp hp'
          obtain rfl := pure_eq_ok_iff.mp h
          exact ⟨p, r, (pure_eq_ok_iff.mp hp').symm⟩
      | cons clause' more => exact exists_and_of_foldlM h

/-- What is read as a comparison is one condition. -/
theorem ofClause_of_ofText {text column : String} {v : Value}
    (h : ofText schema text = .ok (compare column op v)) :
    ∃ clause, clauses text.toList = [clause] ∧
      ofClause schema clause = .ok (compare column op v) := by
  unfold ofText at h
  split at h
  · simp at h
  · rename_i first rest hclauses
    obtain ⟨p, hp, h⟩ := bind_eq_ok_iff.mp h
    cases rest with
    | nil =>
        obtain rfl := pure_eq_ok_iff.mp h
        exact ⟨first, hclauses, hp⟩
    | cons clause more =>
        obtain ⟨a, b, hand⟩ := exists_and_of_foldlM h
        simp at hand

/-- One condition is read for itself. -/
theorem ofText_of_clauses {text : String} {clause : List Char} {p : Predicate}
    (hclauses : clauses text.toList = [clause]) (hp : ofClause schema clause = .ok p) :
    ofText schema text = .ok p := by
  unfold ofText
  rw [hclauses]
  simp only [hp, bind, Except.bind]
  rfl

/-! ### Quoted text -/

/-- A comparison with quoted text, behind what stands in front of the operator. -/
def quoted (front : List Char) (op : Comparison) (s : List Char) : List Char :=
  front ++ (op.symbol.toList ++ ' ' :: '\'' :: (s ++ ['\'']))

variable {front s column : List Char}

/-- Quotes around a text are removed, whatever is in it. -/
theorem ofLiteral?_quoted (s : List Char) :
    Value.ofLiteral? .text ('\'' :: (s ++ ['\''])) = some (.text (String.ofList s)) := by
  have hnull : Text.lowerCase ('\'' :: (s ++ ['\''])) ≠ ['n', 'u', 'l', 'l'] := by
    simp [Text.lowerCase]
  have hunquote : Text.unquote ('\'' :: (s ++ ['\''])) = s := by
    simp [Text.unquote, Text.between?]
  simp [Value.ofLiteral?, hnull, hunquote]

theorem getLast?_quoted : (quoted front op s).getLast? = some '\'' := by
  have hquoted : quoted front op s =
      front ++ (op.symbol.toList ++ ' ' :: '\'' :: s) ++ ['\''] := by
    simp [quoted]
  rw [hquoted, List.getLast?_concat]

theorem notBlank_quote : ∀ c ∈ some '\'', Text.isBlank c = false := by
  intro c hc
  obtain rfl := Option.some.inj hc
  decide

/-- A quoted comparison has no blanks around it, if it does not start with one. -/
theorem trim_quoted (hfront : ∀ c ∈ front.head?, Text.isBlank c = false) :
    Text.trim (quoted front op s) = quoted front op s := by
  refine Text.trim_eq_self ?_ ?_
  · cases front with
    | nil =>
        obtain ⟨m, mark, hmark, hm⟩ := exists_symbol op
        have hletters : ∀ m ∈ operatorLetters, Text.isBlank m = false :=
          List.all_iff_forall_prop.mp (by decide)
        rw [quoted, hmark]
        simpa using hletters m hm
    | cons c front => exact hfront
  · rw [getLast?_quoted]
    exact notBlank_quote

/-- What stands in front of the operator when the column does, after trimming. -/
def frontOf (column : List Char) : List Char :=
  if column.isEmpty then [] else column ++ [' ']

theorem trim_quoted_column (hcolumn : ∀ c ∈ column, Text.isBlank c = false) :
    Text.trim (quoted (column ++ [' ']) op s) = quoted (frontOf column) op s := by
  cases column with
  | nil =>
      show Text.trim (' ' :: quoted [] op s) = quoted [] op s
      rw [Text.trim_cons_space, trim_quoted (by simp)]
  | cons c column => exact trim_quoted (by simpa using hcolumn c List.mem_cons_self)

theorem head?_frontOf (hcolumn : ∀ c ∈ column, Text.isBlank c = false) :
    ∀ c ∈ (frontOf column).head?, Text.isBlank c = false := by
  cases column with
  | nil => simp [frontOf]
  | cons c column => simpa [frontOf] using hcolumn c List.mem_cons_self

/-- The column is what is left in front of the operator. -/
theorem trim_frontOf (hcolumn : ∀ c ∈ column, Text.isBlank c = false) :
    Text.trim (frontOf column) = column := by
  cases column with
  | nil => rfl
  | cons c column =>
      rw [Text.trim, Text.trimStart_eq_self (head?_frontOf hcolumn)]
      show Text.trimEnd (c :: column ++ [' ']) = c :: column
      rw [Text.trimEnd_concat_space, Text.trimEnd_eq_self]
      exact fun d hd => hcolumn d (List.mem_of_getLast? hd)

/-- The word `and` is found in the quoted text, or not at all. -/
theorem cut?_conjunction_quoted (hcolumn : ∀ c ∈ column, Text.isBlank c = false) :
    Text.cut? Text.sameLetter conjunctionMark (quoted (column ++ [' ']) op s) =
      (Text.cut? Text.sameLetter conjunctionMark s).map fun p =>
        (column ++ (' ' :: (op.symbol.toList ++ [' '])) ++ '\'' :: p.1, p.2 ++ ['\'']) := by
  have hspace : ∀ c ∈ column, Text.sameLetter ' ' c = false := by
    intro c hc
    rw [Bool.eq_false_iff]
    intro hsame
    have hblank := hcolumn c hc
    rw [Text.eq_space_of_sameLetter hsame] at hblank
    exact absurd hblank (by decide)
  have hbefore : Text.cut? Text.sameLetter conjunctionMark
      (column ++ (' ' :: (op.symbol.toList ++ [' ']))) = none := by
    rw [conjunctionMark, Text.cut?_append_of_forall _ hspace]
    cases op <;> rfl
  have hnil : Text.cut? Text.sameLetter conjunctionMark [] = none := rfl
  have hquoted : quoted (column ++ [' ']) op s =
      column ++ (' ' :: (op.symbol.toList ++ [' '])) ++ '\'' :: (s ++ '\'' :: []) := by
    simp [quoted]
  rw [hquoted, Text.cut?_append_cons sameLetter_quote, hbefore,
    Text.cut?_append_cons sameLetter_quote, hnil]
  cases Text.cut? Text.sameLetter conjunctionMark s <;> rfl

/-- Operators are found in the quoted text, or where they stand. -/
theorem occurs_operator_quoted (hfront : ∀ c ∈ front, c ∉ operatorLetters) {op' : Comparison}
    (hop : op' ∈ lookedForBefore op) :
    Text.Occurs (· == ·) op'.symbol.toList (quoted front op s) ↔
      Text.Occurs (· == ·) op'.symbol.toList s := by
  have hspace := symbol_ne (show ' ' ∉ operatorLetters by decide) op'
  have hquote := symbol_ne (show '\'' ∉ operatorLetters by decide) op'
  have hbefore : ¬Text.Occurs (· == ·) op'.symbol.toList (front ++ op.symbol.toList) := by
    have hsymbol : Text.cut? (· == ·) op'.symbol.toList op.symbol.toList = none := by
      revert hop
      cases op <;> cases op' <;> decide
    obtain ⟨m, mark, hmark, hm⟩ := exists_symbol op'
    rw [← Text.cut?_eq_none_iff]
    rw [hmark] at hsymbol ⊢
    rw [Text.cut?_append_of_forall _ fun c hc => ?_, hsymbol]
    · rfl
    · exact beq_eq_false_iff_ne.mpr fun h => hfront c hc (h ▸ hm)
  have hnil : ¬Text.Occurs (· == ·) op'.symbol.toList [] := by
    rw [← Text.cut?_eq_none_iff]
    cases op' <;> rfl
  rw [quoted, ← List.append_assoc, Text.occurs_append_cons_iff hspace,
    ← List.nil_append ('\'' :: _), Text.occurs_append_cons_iff hquote,
    Text.occurs_append_cons_iff hquote]
  simp [hbefore, hnil]

/-- The operator is found where it stands. -/
theorem cut?_operator_quoted (hfront : ∀ c ∈ front, c ∉ operatorLetters) :
    Text.cut? (· == ·) op.symbol.toList (quoted front op s) =
      some (front, ' ' :: '\'' :: (s ++ ['\''])) := by
  have hsymbol : ∀ rest, Text.cut? (· == ·) op.symbol.toList (op.symbol.toList ++ rest) =
      some ([], rest) := by
    cases op <;> exact fun _ => rfl
  obtain ⟨m, mark, hmark, hm⟩ := exists_symbol op
  have hsymbol := hsymbol (' ' :: '\'' :: (s ++ ['\'']))
  rw [quoted]
  rw [hmark] at hsymbol ⊢
  rw [Text.cut?_append_of_forall _ fun c hc => ?_, hsymbol]
  · simp
  · exact beq_eq_false_iff_ne.mpr fun h => hfront c hc (h ▸ hm)

/-- A quoted comparison is cut at its operator if the text has none that is looked for before, and
nowhere else at this operator. -/
theorem splitOperator?_quoted_iff (hfront : ∀ c ∈ front, c ∉ operatorLetters)
    {before rest : List Char} :
    splitOperator? (quoted front op s) operators = some (op, before, rest) ↔
      (∀ op' ∈ lookedForBefore op, ¬Text.Occurs (· == ·) op'.symbol.toList s) ∧
        front = before ∧ ' ' :: '\'' :: (s ++ ['\'']) = rest := by
  obtain ⟨later, hoperators⟩ := operators_eq op
  rw [hoperators, splitOperator?_eq_some_iff (notMem_lookedForBefore op),
    cut?_operator_quoted hfront, Option.some.injEq, Prod.mk.injEq]
  refine and_congr_left' (forall₂_congr fun op' hop => ?_)
  rw [occurs_operator_quoted hfront hop]

/-- Quoted text without the word `and` leaves the comparison in one piece. -/
theorem clauses_quoted (hcolumn : ∀ c ∈ column, Text.isBlank c = false)
    (hand : ¬Text.Occurs Text.sameLetter conjunctionMark s) :
    clauses (quoted (column ++ [' ']) op s) = [quoted (frontOf column) op s] := by
  rw [← trim_quoted_column hcolumn]
  refine clauses_of_not_occurs ?_ ?_
  · rw [← Text.cut?_eq_none_iff, cut?_conjunction_quoted hcolumn, Text.cut?_eq_none_iff.mpr hand]
    rfl
  · rw [trim_quoted_column hcolumn]
    exact List.ne_nil_of_mem (List.mem_of_getLast? getLast?_quoted)

/-- Otherwise there is a quote on both sides of the first `and`. -/
theorem not_occurs_of_clauses_quoted (hcolumn : ∀ c ∈ column, Text.isBlank c = false)
    {clause : List Char} (hclauses : clauses (quoted (column ++ [' ']) op s) = [clause]) :
    ¬Text.Occurs Text.sameLetter conjunctionMark s := by
  rw [← Text.cut?_eq_none_iff, Option.eq_none_iff_forall_ne_some]
  rintro ⟨before, rest⟩ hs
  have hcut := @cut?_conjunction_quoted op s column hcolumn
  rw [hs] at hcut
  obtain ⟨first, second, more, hmany⟩ := exists_clauses_of_cut? hcut (by simp) (by simp)
  rw [hclauses] at hmany
  simp at hmany

/-- A quoted comparison is read as such if the text has no operator that is looked for before. -/
theorem ofClause_quoted_iff {column s : String} {c : Column}
    (hcolumn : schema.columnNamed column = .ok c) (htype : c.type = .text)
    (hplain : ∀ x ∈ column.toList, Text.isBlank x = false ∧ x ∉ operatorLetters) :
    ofClause schema (quoted (frontOf column.toList) op s.toList) =
      .ok (compare column op (.text s)) ↔
        ∀ op' ∈ lookedForBefore op, ¬Text.Occurs (· == ·) op'.symbol.toList s.toList := by
  have hblank : ∀ x ∈ column.toList, Text.isBlank x = false := fun x hx => (hplain x hx).1
  have hletters : ∀ x ∈ frontOf column.toList, x ∉ operatorLetters := by
    intro x hx
    unfold frontOf at hx
    split at hx
    · simp at hx
    · rcases List.mem_append.mp hx with hx | hx
      · exact (hplain x hx).2
      · rw [List.mem_singleton.mp hx]
        decide
  have htrim := @trim_quoted op (frontOf column.toList) s.toList (head?_frontOf hblank)
  constructor
  · intro h
    obtain ⟨before, rest, hsplit⟩ := exists_split_of_ofClause h
    rw [htrim] at hsplit
    exact ((splitOperator?_quoted_iff hletters).mp hsplit).1
  · intro h
    have hsplit := (splitOperator?_quoted_iff hletters).mpr ⟨h, rfl, rfl⟩
    have hname : String.ofList (Text.trim (frontOf column.toList)) = column := by
      rw [trim_frontOf hblank, String.ofList_toList]
    have hrest : Text.trim (' ' :: '\'' :: (s.toList ++ ['\''])) =
        '\'' :: (s.toList ++ ['\'']) := by
      rw [Text.trim_cons_space]
      refine Text.trim_eq_self notBlank_quote ?_
      rw [← List.cons_append, List.getLast?_concat]
      exact notBlank_quote
    have hread := @ofClause_eq_compare schema _ op htrim getLast?_quoted _ _ hsplit c
      (hname.symm ▸ hcolumn) (.text s) (by
        rw [htype, hrest, ofLiteral?_quoted, String.ofList_toList])
    rw [hread, hname]

/-- **When quoted text is read as it stands.** Let a column of text have a name without blanks and
letters of operators. The column, an operator and a text in quotes, with single spaces between them,
are read as the comparison of the column with this text exactly if the text does not have the word
`and` between spaces in it, in any letter case, and no operator that is looked for before this one:
for `==` there is none, for `!=` it is `==`, and so on in the order of `operators`. -/
theorem ofText_quoted_iff {column : String} {c : Column}
    (hcolumn : schema.columnNamed column = .ok c) (htype : c.type = .text)
    (hplain : ∀ x ∈ column.toList, Text.isBlank x = false ∧ x ∉ operatorLetters)
    (op : Comparison) (s : String) :
    ofText schema (column ++ " " ++ op.symbol ++ " '" ++ s ++ "'") =
      .ok (compare column op (.text s)) ↔ Inert op s.toList := by
  have htext : (column ++ " " ++ op.symbol ++ " '" ++ s ++ "'").toList =
      quoted (column.toList ++ [' ']) op s.toList := by
    simp [quoted, String.toList_append]
  have hblank : ∀ x ∈ column.toList, Text.isBlank x = false := fun x hx => (hplain x hx).1
  constructor
  · intro h
    obtain ⟨clause, hclauses, hclause⟩ := ofClause_of_ofText h
    rw [htext] at hclauses
    have hand := not_occurs_of_clauses_quoted hblank hclauses
    rw [clauses_quoted hblank hand] at hclauses
    obtain rfl := (List.cons.inj hclauses).1
    exact ⟨hand, (ofClause_quoted_iff hcolumn htype hplain).mp hclause⟩
  · intro h
    refine ofText_of_clauses (htext ▸ clauses_quoted hblank h.no_and) ?_
    exact (ofClause_quoted_iff hcolumn htype hplain).mpr h.no_operator

/-- Dishes with what they are seasoned with. -/
def dishes : Schema :=
  ⟨"dishes", [⟨"name", .text, false, .position 0⟩, ⟨"seasoning", .text, true, .position 1⟩]⟩

/-- Later operators and the words `IS NULL` may stand in quotes behind `!=`, and an `and` that is
not between spaces. -/
theorem ofText_quoted_seasoning :
    ofText dishes ("seasoning" ++ " " ++ Comparison.ne.symbol ++ " '" ++
      "salt (and pepper) <= 2 g IS NULL" ++ "'") =
        .ok (compare "seasoning" .ne (.text "salt (and pepper) <= 2 g IS NULL")) := by
  have hinert : Inert .ne "salt (and pepper) <= 2 g IS NULL".toList := ⟨by decide, by decide⟩
  exact (@ofText_quoted_iff dishes "seasoning" ⟨"seasoning", .text, true, .position 1⟩ rfl rfl
    (List.all_iff_forall_prop.mp (by decide)) .ne _).mpr hinert

/-- Quotes protect neither the word `and` nor an operator: the first text is cut into two
conditions, of which the second is none, and the second text at an operator in the quotes, so that
the column is looked for under a name that reaches into them. The column and the quoted texts have
no character in them that could be meant as part of the condition. -/
theorem quotes_protect_nothing :
    dishes.columnNamed "seasoning" = .ok ⟨"seasoning", .text, true, .position 1⟩ ∧
      (∀ x ∈ "seasoning".toList, Text.isBlank x = false ∧ x ∉ operatorLetters ++ ['\'', '"']) ∧
      (∀ x ∈ "salt and pepper".toList ++ "a==b".toList, x ∉ ['\'', '"']) ∧
      ofText dishes "seasoning == 'salt and pepper'" = .error (.unreadableFilter "pepper'") ∧
      ofText dishes "seasoning < 'a==b'" =
        .error (.columnNotFound "seasoning < 'a" "dishes" ["name", "seasoning"]) := by
  refine ⟨rfl, List.all_iff_forall_prop.mp (by decide), List.all_iff_forall_prop.mp (by decide),
    ?_, ?_⟩
  · have hcut : Text.cut? Text.sameLetter conjunctionMark
        "seasoning == 'salt and pepper'".toList =
          some ("seasoning == 'salt".toList, "pepper'".toList) := rfl
    unfold ofText
    rw [clauses_of_cut? hcut, clauses, Text.pieces_of_cut?_eq_none rfl]
    rfl
  · unfold ofText clauses
    rw [Text.pieces_of_cut?_eq_none rfl]
    rfl

end RelQuery.Predicate
